/-
  Mango.Core.Transaction

  Transactions as the authority reads their inputs
  (`crates/mgo-types/src/transaction.rs`): the arguments of a programmable
  transaction and the objects they name, the transaction kinds, the gas data,
  `TransactionData::input_objects` with the gas coins appended to the kind's
  inputs, and what loading an input gives (`ObjectReadResult`,
  `InputObjects`) with the computations over loaded inputs that execution and
  the checks make.

  Of a transaction the model keeps what the modelled code reads: the inputs,
  the packages the commands name, the sender and the gas data. A command
  keeps only the packages it names, and a type argument stands for the
  packages `add_type_tag_packages` collects from it. Of the system kinds the
  model keeps those that are sequenced through consensus or change the epoch,
  with the shared object each takes; `ConsensusCommitPrologueV2` takes what
  the first prologue takes, and `EndOfEpochTransaction` is left out.
-/
import Mathlib
import Mango.Lib.VersionTable
import Mango.Core.Object

namespace Mango.Core

/-! ## Errors and the protocol configuration -/

/-- The `UserInputError`s of the modelled code, with the fields they carry. -/
inductive UserInputError where
  | missingGasPayment
  /-- `SizeLimitExceeded { limit, value }`. -/
  | sizeLimitExceeded (limit : String) (value : Nat)
  | duplicateObjectRefInput
  | unsupportedSponsoredTransactionKind
  | mutableObjectUsedMoreThanOnce (objectId : Nat)
  | objectInputArityViolation
  | moveObjectAsPackage (objectId : Nat)
  | movePackageAsObject (objectId : Nat)
  | invalidSequenceNumber
  | invalidObjectDigest (objectId expectedDigest : Nat)
  /-- "Object .. is owned by account address .., but given owner/signer address
      is ..", with the object, its owner and the address checked against. -/
  | incorrectUserSignature (objectId actualOwner owner : Nat)
  | invalidChildObjectArgument (childId parentId : Nat)
  | notSharedObjectError
  | immutableParameterExpectedError (objectId : Nat)
  | inaccessibleSystemObject (objectId : Nat)
  | sharedObjectStartingVersionMismatch
  | objectVersionUnavailableForConsumption (providedObjRef : ObjectRef) (currentVersion : Nat)
  | objectNotFound (objectId : Nat) (version : Option Nat)
  | gasObjectNotOwnedObject (owner : Owner)
  | gasBudgetTooHigh (gasBudget maxBudget : Nat)
  | gasBudgetTooLow (gasBudget minBudget : Nat)
  | gasBalanceTooLow (gasBalance neededGasAmount : Nat)
  | invalidGasObject (objectId : Nat)
  | gasPriceUnderRGP (gasPrice referenceGasPrice : Nat)
  | gasPriceTooHigh (maxGasPrice : Nat)
  | mutableParameterExpected (objectId : Nat)
  deriving DecidableEq, Repr

/-- The `MgoError`s of the modelled code. -/
inductive MgoError where
  | userInputError (error : UserInputError)
  /-- `UnsupportedFeatureError`, with its text up to the protocol version it names. -/
  | unsupportedFeatureError (error : String)
  | badObjectType (error : String)
  /-- `ObjectLockAlreadyInitialized`: the references whose locks are set. -/
  | objectLockAlreadyInitialized (refs : List ObjectRef)
  | objectLockedAtFutureEpoch (objRefs : List ObjectRef) (lockedEpoch newEpoch lockedByTx : Nat)
  | objectLockConflict (objRef : ObjectRef) (pendingTransaction : Nat)
  | invalidSignature (error : String)
  /-- `UnknownSigner`, with the signer's name (the committee it carries is left out). -/
  | unknownSigner (signer : Nat)
  | stakeAggregatorRepeatedSigner (signer : Nat) (conflictingSig : Bool)
  | wrongEpoch (expectedEpoch actualEpoch : Nat)
  | invalidAuthenticator
  deriving DecidableEq, Repr

/-- The `ProtocolConfig` values the modelled code reads. -/
structure ProtocolConfig where
  maxGasPaymentObjects : Nat
  maxProgrammableTxCommands : Nat
  maxInputObjects : Nat
  maxPureArgumentSize : Nat
  /-- `receiving_objects_supported()`, the `receive_objects` feature flag. -/
  receivingObjectsSupported : Bool
  maxTxGas : Nat
  baseTxCostFixed : Nat
  /-- The `txn_base_cost_as_multiplier` feature flag. -/
  txnBaseCostAsMultiplier : Bool
  gasModelVersion : Nat
  maxGasPrice : Nat

/-! ## Arguments and commands -/

/-- `InputObjectKind`. -/
inductive InputObjectKind where
  | movePackage (id : Nat)
  | immOrOwnedMoveObject (ref : ObjectRef)
  | sharedMoveObject (id initialSharedVersion : Nat) (mutable : Bool)
  deriving DecidableEq, Repr

namespace InputObjectKind

/-- `InputObjectKind::object_id`. -/
def objectId : InputObjectKind → Nat
  | .movePackage id => id
  | .immOrOwnedMoveObject ref => ref.id
  | .sharedMoveObject id .. => id

/-- `InputObjectKind::is_shared_object`. -/
def isSharedObject : InputObjectKind → Bool
  | .sharedMoveObject .. => true
  | _ => false

end InputObjectKind

/-- `SharedInputObject`. -/
structure SharedInputObject where
  id : Nat
  initialSharedVersion : Nat
  mutable : Bool
  deriving DecidableEq, Repr

/-- `SharedInputObject::into_id_and_version`. -/
def SharedInputObject.intoIdAndVersion (o : SharedInputObject) : Nat × Nat :=
  (o.id, o.initialSharedVersion)

/-- `ObjectArg`. -/
inductive ObjectArg where
  | immOrOwnedObject (ref : ObjectRef)
  | sharedObject (id initialSharedVersion : Nat) (mutable : Bool)
  | receiving (ref : ObjectRef)
  deriving DecidableEq, Repr

/-- `CallArg`: a pure value, by its bytes, or an object. -/
inductive CallArg where
  | pure (bytes : List UInt8)
  | object (arg : ObjectArg)
  deriving DecidableEq, Repr

namespace CallArg

/-- `CallArg::input_objects`: receiving objects are not input objects. -/
def inputObjects : CallArg → List InputObjectKind
  | .pure _ => []
  | .object (.immOrOwnedObject ref) => [.immOrOwnedMoveObject ref]
  | .object (.sharedObject id initialSharedVersion mutable) =>
    [.sharedMoveObject id initialSharedVersion mutable]
  | .object (.receiving _) => []

/-- `CallArg::receiving_objects`. -/
def receivingObjects : CallArg → List ObjectRef
  | .object (.receiving ref) => [ref]
  | _ => []

/-- The shared object an argument takes, as
    `ProgrammableTransaction::shared_input_objects` reads it. -/
def sharedInputObjects : CallArg → List SharedInputObject
  | .object (.sharedObject id initialSharedVersion mutable) =>
    [⟨id, initialSharedVersion, mutable⟩]
  | _ => []

/-- `CallArg::validity_check`. -/
def validityCheck (config : ProtocolConfig) : CallArg → Except UserInputError Unit
  | .pure bytes =>
    if bytes.length < config.maxPureArgumentSize then .ok ()
    else .error (.sizeLimitExceeded "maximum pure argument size" config.maxPureArgumentSize)
  | .object _ => .ok ()

end CallArg

/-- The elements of a `BTreeSet` collected from `l`, in order. -/
def btreeSet (l : List Nat) : List Nat := l.dedup.insertionSort (· ≤ ·)

/-- `Command`, with the packages it names. A type argument is the list of the
    packages `add_type_tag_packages` collects from it. -/
inductive Command where
  | moveCall (package : Nat) (typeArguments : List (List Nat))
  | transferObjects
  | splitCoins
  | mergeCoins
  | publish (dependencies : List Nat)
  | makeMoveVec (typeArgument : Option (List Nat))
  | upgrade (dependencies : List Nat) (package : Nat)
  deriving DecidableEq, Repr

/-- `Command::input_objects`: the packages a command names. -/
def Command.inputObjects : Command → List InputObjectKind
  | .moveCall package typeArguments =>
    (btreeSet (package :: typeArguments.flatten)).map .movePackage
  | .makeMoveVec (some typeArgument) => (btreeSet typeArgument).map .movePackage
  | .makeMoveVec none | .transferObjects | .splitCoins | .mergeCoins => []
  | .publish dependencies => dependencies.map .movePackage
  | .upgrade dependencies package => (dependencies ++ [package]).map .movePackage

/-- `ProgrammableTransaction`. -/
structure ProgrammableTransaction where
  inputs : List CallArg
  commands : List Command
  deriving DecidableEq, Repr

namespace ProgrammableTransaction

/-- `ProgrammableTransaction::input_objects`: the objects the arguments name, all
    with distinct ids, then the set of packages the commands name. -/
def inputObjects (pt : ProgrammableTransaction) :
    Except UserInputError (List InputObjectKind) :=
  let inputArgObjects := pt.inputs.flatMap CallArg.inputObjects
  -- all objects, not just mutable, must be unique
  if (inputArgObjects.map InputObjectKind.objectId).Nodup then
    -- Every command input is a package, so the set orders them by id.
    let commandInputObjects :=
      btreeSet (pt.commands.flatMap fun c => c.inputObjects.map InputObjectKind.objectId)
    .ok (inputArgObjects ++ commandInputObjects.map .movePackage)
  else .error .duplicateObjectRefInput

/-- `ProgrammableTransaction::receiving_objects`. -/
def receivingObjects (pt : ProgrammableTransaction) : List ObjectRef :=
  pt.inputs.flatMap CallArg.receivingObjects

/-- `ProgrammableTransaction::shared_input_objects`. -/
def sharedInputObjects (pt : ProgrammableTransaction) : List SharedInputObject :=
  pt.inputs.flatMap CallArg.sharedInputObjects

/-- `ProgrammableTransaction::validity_check`, without the checks of each
    command's arguments. -/
def validityCheck (pt : ProgrammableTransaction) (config : ProtocolConfig) :
    Except UserInputError Unit := do
  unless pt.commands.length < config.maxProgrammableTxCommands do
    throw (.sizeLimitExceeded "maximum commands in a programmable transaction"
      config.maxProgrammableTxCommands)
  let inputObjects ← pt.inputObjects
  unless inputObjects.length + pt.receivingObjects.length ≤ config.maxInputObjects do
    throw (.sizeLimitExceeded "maximum input + receiving objects in a transaction"
      config.maxInputObjects)
  pt.inputs.forM (CallArg.validityCheck config)

end ProgrammableTransaction

/-! ## Transaction kinds and transaction data -/

/-- `TransactionKind`. -/
inductive TransactionKind where
  | programmableTransaction (pt : ProgrammableTransaction)
  | changeEpoch
  | genesis
  | consensusCommitPrologue
  | authenticatorStateUpdate (authenticatorObjInitialSharedVersion : Nat)
  | randomnessStateUpdate (randomnessObjInitialSharedVersion : Nat)
  deriving DecidableEq, Repr

namespace TransactionKind

/-- `TransactionKind::is_system_tx`. -/
def isSystemTx : TransactionKind → Bool
  | .programmableTransaction _ => false
  | _ => true

/-- `TransactionKind::shared_input_objects`. -/
def sharedInputObjects : TransactionKind → List SharedInputObject
  | .programmableTransaction pt => pt.sharedInputObjects
  | .changeEpoch => [⟨mgoSystemStateObjectId, objectStartVersion, true⟩]
  | .genesis => []
  | .consensusCommitPrologue => [⟨mgoClockObjectId, mgoClockObjectSharedVersion, true⟩]
  | .authenticatorStateUpdate v => [⟨mgoAuthenticatorStateObjectId, v, true⟩]
  | .randomnessStateUpdate v => [⟨mgoRandomnessStateObjectId, v, true⟩]

/-- `TransactionKind::input_objects`. A programmable transaction returns its own
    inputs; the others take their shared objects, all with distinct ids. -/
def inputObjects : TransactionKind → Except UserInputError (List InputObjectKind)
  | .programmableTransaction pt => pt.inputObjects
  | kind =>
    let inputObjects :=
      kind.sharedInputObjects.map fun o => .sharedMoveObject o.id o.initialSharedVersion o.mutable
    if (inputObjects.map InputObjectKind.objectId).Nodup then .ok inputObjects
    else .error .duplicateObjectRefInput

/-- `TransactionKind::receiving_objects`. -/
def receivingObjects : TransactionKind → List ObjectRef
  | .programmableTransaction pt => pt.receivingObjects
  | _ => []

/-- `TransactionKind::validity_check`: only a programmable transaction is checked. -/
def validityCheck (config : ProtocolConfig) : TransactionKind → Except UserInputError Unit
  | .programmableTransaction pt => pt.validityCheck config
  | _ => .ok ()

end TransactionKind

/-- `GasData`. -/
structure GasData where
  payment : List ObjectRef
  owner : Nat
  price : Nat
  budget : Nat
  deriving DecidableEq, Repr

/-- `TransactionDataV1`, without its expiration. -/
structure TransactionData where
  kind : TransactionKind
  sender : Nat
  gasData : GasData
  deriving DecidableEq, Repr

namespace TransactionData

/-- `TransactionData::gas`. -/
def gas (tx : TransactionData) : List ObjectRef := tx.gasData.payment

/-- `TransactionData::gas_owner`. -/
def gasOwner (tx : TransactionData) : Nat := tx.gasData.owner

/-- `TransactionData::is_system_tx`. -/
def isSystemTx (tx : TransactionData) : Bool := tx.kind.isSystemTx

/-- `TransactionData::is_genesis_tx`. -/
def isGenesisTx (tx : TransactionData) : Bool :=
  match tx.kind with
  | .genesis => true
  | _ => false

/-- `TransactionDataV1::input_objects`: the kind's inputs and, unless it is a
    system transaction, the gas coins after them. -/
def inputObjects (tx : TransactionData) : Except UserInputError (List InputObjectKind) := do
  let inputs ← tx.kind.inputObjects
  if !tx.kind.isSystemTx then
    return inputs ++ tx.gas.map .immOrOwnedMoveObject
  else return inputs

/-- `TransactionData::receiving_objects`. -/
def receivingObjects (tx : TransactionData) : List ObjectRef := tx.kind.receivingObjects

/-- `TransactionData::shared_input_objects`. -/
def sharedInputObjects (tx : TransactionData) : List SharedInputObject :=
  tx.kind.sharedInputObjects

/-- `TransactionDataV1::check_sponsorship`: only a programmable transaction may be
    paid for by another address. -/
def checkSponsorship (tx : TransactionData) : Except UserInputError Unit :=
  if tx.gasOwner = tx.sender then .ok ()
  else
    match tx.kind with
    | .programmableTransaction _ => .ok ()
    | _ => .error .unsupportedSponsoredTransactionKind

/-- `TransactionDataV1::validity_check_no_gas_check`. -/
def validityCheckNoGasCheck (tx : TransactionData) (config : ProtocolConfig) :
    Except UserInputError Unit := do
  tx.kind.validityCheck config
  tx.checkSponsorship

/-- `TransactionDataV1::validity_check`. -/
def validityCheck (tx : TransactionData) (config : ProtocolConfig) :
    Except UserInputError Unit := do
  unless !tx.gas.isEmpty do throw .missingGasPayment
  unless tx.gas.length < config.maxGasPaymentObjects do
    throw (.sizeLimitExceeded "maximum number of gas payment objects"
      config.maxGasPaymentObjects)
  tx.validityCheckNoGasCheck config

/-- `TransactionKind::check_version_supported`, for the kinds modelled: receiving
    arguments need the `receive_objects` feature. -/
def checkVersionSupported (tx : TransactionData) (config : ProtocolConfig) :
    Except MgoError Unit :=
  match tx.kind with
  | .programmableTransaction pt =>
    if !config.receivingObjectsSupported && pt.inputs.any (fun arg => !arg.receivingObjects.isEmpty)
    then .error (.unsupportedFeatureError "receiving objects is not supported")
    else .ok ()
  | _ => .ok ()

end TransactionData

/-! ## Loaded inputs -/

/-- `ObjectReadResultKind`: the object read, or the version at which a shared
    object was deleted and the digest of the transaction that deleted it. -/
inductive ObjectReadResultKind where
  | object (object : Object)
  | deletedSharedObject (version digest : Nat)
  deriving DecidableEq, Repr

/-- `ObjectReadResultKind::DeletedSharedObject` matched. -/
def ObjectReadResultKind.isDeleted : ObjectReadResultKind → Bool
  | .deletedSharedObject .. => true
  | .object _ => false

/-- `ObjectReadResult`, with what every loader guarantees of it. -/
structure ObjectReadResult where
  inputObjectKind : InputObjectKind
  object : ObjectReadResultKind
  /-- Only a shared input reads as a deleted shared object: `ObjectReadResult::new`
      panics on an owned one, and the loaders build that case for shared inputs. -/
  deleted_shared : object.isDeleted = true → inputObjectKind.isSharedObject = true
  /-- The loaders read an input by its id. -/
  object_id : ∀ o, object = .object o → o.id = inputObjectKind.objectId
  /-- The loaders read an owned input by its key, so at the version it names
      (the invariant that `check_one_object` asserts). -/
  owned_version : ∀ o ref, object = .object o → inputObjectKind = .immOrOwnedMoveObject ref →
    o.version = ref.version

namespace ObjectReadResult

/-- `ObjectReadResult::id`. -/
def id (r : ObjectReadResult) : Nat := r.inputObjectKind.objectId

/-- `ObjectReadResult::as_object`. -/
def asObject (r : ObjectReadResult) : Option Object :=
  match r.object with
  | .object o => some o
  | .deletedSharedObject .. => none

@[simp] theorem asObject_eq_some {r : ObjectReadResult} {o : Object} :
    r.asObject = some o ↔ r.object = .object o := by
  unfold asObject
  split <;> simp_all

/-- `ObjectReadResult::is_mutable`: an owned object unless it is immutable, and a
    shared object as the transaction takes it. -/
def isMutable (r : ObjectReadResult) : Bool :=
  match r.inputObjectKind, r.object with
  | .movePackage _, _ => false
  | .immOrOwnedMoveObject _, .object o => !o.isImmutable
  -- `unreachable!()`: excluded by `deleted_shared`
  | .immOrOwnedMoveObject _, .deletedSharedObject .. => false
  | .sharedMoveObject _ _ mutable, _ => mutable

/-- `ObjectReadResult::get_owned_objref`: the reference of an owned input that is
    not immutable. -/
def getOwnedObjref (r : ObjectReadResult) : Option ObjectRef :=
  match r.inputObjectKind, r.object with
  | .immOrOwnedMoveObject ref, .object o => if o.isImmutable then none else some ref
  | _, _ => none

/-- What a loader gives for an owned input it read by the key of `ref`. -/
def ofOwned (ref : ObjectRef) (o : Object) (hid : o.id = ref.id)
    (hversion : o.version = ref.version) : ObjectReadResult where
  inputObjectKind := .immOrOwnedMoveObject ref
  object := .object o
  deleted_shared := by simp [ObjectReadResultKind.isDeleted]
  object_id := by
    rintro o' ⟨⟩
    exact hid
  owned_version := by
    rintro o' ref' ⟨⟩ ⟨⟩
    exact hversion

/-- What a loader gives for a package input. -/
def ofPackage (id : Nat) (o : Object) (hid : o.id = id) : ObjectReadResult where
  inputObjectKind := .movePackage id
  object := .object o
  deleted_shared := by simp [ObjectReadResultKind.isDeleted]
  object_id := by
    rintro o' ⟨⟩
    exact hid
  owned_version := by
    intro o' ref' _ hk
    cases hk

/-- What a loader gives for a shared input: the object read, or the version at
    which it was deleted. -/
def ofShared (id initialSharedVersion : Nat) (mutable : Bool) (object : ObjectReadResultKind)
    (hid : ∀ o, object = .object o → o.id = id) : ObjectReadResult where
  inputObjectKind := .sharedMoveObject id initialSharedVersion mutable
  object := object
  deleted_shared := fun _ => rfl
  object_id := hid
  owned_version := by
    intro o' ref' _ hk
    cases hk

/-- `ObjectReadResult::new_from_gas_object`. -/
def newFromGasObject (gas : Object) : ObjectReadResult where
  inputObjectKind := .immOrOwnedMoveObject gas.computeObjectReference
  object := .object gas
  deleted_shared := by simp [ObjectReadResultKind.isDeleted]
  object_id := by
    rintro o ⟨⟩
    rfl
  owned_version := by
    rintro o ref ⟨⟩ ⟨⟩
    rfl

end ObjectReadResult

/-- `InputObjects`. -/
structure InputObjects where
  objects : List ObjectReadResult

namespace InputObjects

/-- `InputObjects::is_empty`. -/
def isEmpty (inputs : InputObjects) : Bool := inputs.objects.isEmpty

/-- `InputObjects::filter_owned_objects`. -/
def filterOwnedObjects (inputs : InputObjects) : List ObjectRef :=
  inputs.objects.filterMap ObjectReadResult.getOwnedObjref

/-- `InputObjects::object_kinds`. -/
def objectKinds (inputs : InputObjects) : List InputObjectKind :=
  inputs.objects.map ObjectReadResult.inputObjectKind

/-- The entry `InputObjects::mutable_inputs` makes of one input: an owned
    object that is not immutable, or a shared object taken mutably that still
    exists, with its version, digest and owner. -/
def mutableInput (r : ObjectReadResult) : Option (Nat × ((Nat × Nat) × Owner)) :=
  match r.inputObjectKind, r.object with
  | .movePackage _, _ => none
  | .immOrOwnedMoveObject ref, .object o =>
    if o.isImmutable then none else some (ref.id, ((ref.version, ref.digest), o.owner))
  -- `unreachable!()`: excluded by `deleted_shared`
  | .immOrOwnedMoveObject _, .deletedSharedObject .. => none
  | .sharedMoveObject .., .deletedSharedObject .. => none
  | .sharedMoveObject _ _ mutable, .object o =>
    if mutable then some (o.id, ((o.version, o.digest), o.owner)) else none

/-- `InputObjects::mutable_inputs`, keyed by object id. -/
def mutableInputs (inputs : InputObjects) : List (Nat × ((Nat × Nat) × Owner)) :=
  Mango.Lib.collectMap (inputs.objects.filterMap mutableInput)

/-- `InputObjects::into_object_map`: the objects read, keyed by id. -/
def intoObjectMap (inputs : InputObjects) : List (Nat × Object) :=
  Mango.Lib.collectMap (inputs.objects.filterMap fun r => r.asObject.map (r.id, ·))

/-- Every mutable input is an object read. -/
theorem mutableInput_asObject {r : ObjectReadResult} {e : Nat × ((Nat × Nat) × Owner)}
    (h : mutableInput r = some e) : ∃ o, r.asObject = some o ∧ e.1 = r.id := by
  unfold mutableInput at h
  have hid := r.object_id
  unfold ObjectReadResult.id
  split at h
  · cases h
  · rename_i ref o hkind hobj
    refine ⟨o, by simp [ObjectReadResult.asObject, hobj], ?_⟩
    split at h
    · cases h
    · cases h
      simp [hkind, InputObjectKind.objectId]
  · cases h
  · cases h
  · rename_i _ _ mutable o hkind hobj
    refine ⟨o, by simp [ObjectReadResult.asObject, hobj], ?_⟩
    split at h
    · cases h
      exact hid o hobj
    · cases h

/-- The id of every mutable input names an object of the object map. -/
theorem mem_intoObjectMap_of_mem_mutableInputs (inputs : InputObjects) {id : Nat}
    (h : id ∈ inputs.mutableInputs.map (·.1)) : id ∈ inputs.intoObjectMap.map (·.1) := by
  rw [mutableInputs, Mango.Lib.mem_map_collectMap] at h
  rw [intoObjectMap, Mango.Lib.mem_map_collectMap]
  obtain ⟨e, he, rfl⟩ := List.mem_map.mp h
  obtain ⟨r, hr, hmut⟩ := List.mem_filterMap.mp he
  obtain ⟨o, ho, hid⟩ := mutableInput_asObject hmut
  refine List.mem_map.mpr ⟨(r.id, o), List.mem_filterMap.mpr ⟨r, hr, by simp [ho]⟩, ?_⟩
  exact hid.symm

/-- The version `InputObjects::lamport_timestamp` reads of one input: a Move
    object's version, or the version at which a shared object was deleted. -/
def inputVersion (r : ObjectReadResult) : Option Nat :=
  match r.object with
  | .object o => o.moveVersion?
  | .deletedSharedObject v _ => some v

/-- `InputObjects::lamport_timestamp`: the version of the objects a transaction
    writes, above every input and every object it may receive. -/
def lamportTimestamp (inputs : InputObjects) (receivingObjects : List ObjectRef) : Option Nat :=
  lamportIncrement (inputs.objects.filterMap inputVersion ++ receivingObjects.map ObjectRef.version)

end InputObjects

/-- `ReceivingObjectReadResultKind`: the object, or a marker that some other
    transaction received it at this version already. -/
inductive ReceivingObjectReadResultKind where
  | object (object : Object)
  | previouslyReceivedObject
  deriving DecidableEq, Repr

/-- `ReceivingObjectReadResult`. -/
structure ReceivingObjectReadResult where
  objectRef : ObjectRef
  object : ReceivingObjectReadResultKind
  deriving DecidableEq, Repr

end Mango.Core
