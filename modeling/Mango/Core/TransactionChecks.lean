/-
  Mango.Core.TransactionChecks

  The input checks a validator makes before it signs a transaction and again
  before it executes a certificate (`crates/mgo-transaction-checks/src/lib.rs`):
  `check_transaction_input` and `check_certificate_input`, the gas checks, the
  checks of each loaded input object against the kind of input it is, and at
  signing the checks of the objects the transaction may receive.

  The checks return the gas status and the checked objects; the model keeps
  whether they return `Ok`. Of the checks at signing, the run of the Move
  verifier over the packages a transaction publishes
  (`check_non_system_packages_to_be_published`) is left out, and so are the
  checks of each command's arguments in `validity_check`: both can only reject
  more. `InputAuthorization` says what the checks guarantee of the inputs of a
  transaction they accept; the last section proves it for every user
  transaction and every input the loaders can give, from one lemma per check.
-/
import Mango.Lib.Except
import Mango.Core.Transaction

namespace Mango.Core

open Mango.Lib

/-! ## Gas -/

/-- `gas_price_too_high`. -/
def gasPriceTooHigh (gasModelVersion : Nat) : Bool := 4 ≤ gasModelVersion

/-- `MgoGasStatus::new`: the gas price is at least the reference gas price and,
    from gas model version 4, below the maximum. -/
def gasStatusNew (gasPrice referenceGasPrice : Nat) (config : ProtocolConfig) :
    Except UserInputError Unit := do
  if gasPrice < referenceGasPrice then
    throw (.gasPriceUnderRGP gasPrice referenceGasPrice)
  if gasPriceTooHigh config.gasModelVersion && config.maxGasPrice ≤ gasPrice then
    throw (.gasPriceTooHigh config.maxGasPrice)

/-- `MgoCostTable::min_transaction_cost` for a gas price. -/
def minTransactionCost (config : ProtocolConfig) (gasPrice : Nat) : Nat :=
  if config.txnBaseCostAsMultiplier then config.baseTxCostFixed * gasPrice
  else config.baseTxCostFixed

/-- `get_gas_balance`: the value of a gas coin. -/
def getGasBalance (gasObject : Object) : Except UserInputError Nat :=
  match gasObject.data with
  | .move true value => .ok value
  | _ => .error (.invalidGasObject gasObject.id)

/-- `MgoGasStatusV2::check_gas_balance`: every gas object is owned by an address,
    the budget lies between the minimum transaction cost and the maximum, and
    the coins together hold the budget. -/
def checkGasBalance (config : ProtocolConfig) (gasPrice : Nat)
    (gasObjs : List ObjectReadResult) (gasBudget : Nat) : Except UserInputError Unit := do
  -- 1. All gas objects have an address owner
  forM gasObjs fun gasObject =>
    match gasObject.asObject with
    | some obj => if !obj.isAddressOwned then throw (.gasObjectNotOwnedObject obj.owner) else pure ()
    | none => throw .missingGasPayment
  -- 2. Gas budget is between min and max budget allowed
  if config.maxTxGas < gasBudget then
    throw (.gasBudgetTooHigh gasBudget config.maxTxGas)
  if gasBudget < minTransactionCost config gasPrice then
    throw (.gasBudgetTooLow gasBudget (minTransactionCost config gasPrice))
  -- 3. Gas balance (all gas coins together) is bigger or equal to budget
  let balances ← gasObjs.mapM fun gasObj =>
    match gasObj.asObject with
    | some obj => getGasBalance obj
    | none => .ok 0
  if balances.sum < gasBudget then
    throw (.gasBalanceTooLow balances.sum gasBudget)

/-- A `BTreeMap` collected from the pairs `(o.id(), o)` of `objects`, read at
    `id`: of several objects with one id the last is kept. -/
def btreeMapGet (objects : List ObjectReadResult) (id : Nat) : Option ObjectReadResult :=
  (objects.filter (·.id == id)).getLast?

/-- `check_gas`: a system transaction is not metered; otherwise every gas coin is
    among the loaded inputs and passes `check_gas_balance`. -/
def checkGas (objects : InputObjects) (config : ProtocolConfig) (referenceGasPrice : Nat)
    (gas : List ObjectRef) (gasBudget gasPrice : Nat) (txKind : TransactionKind) :
    Except UserInputError Unit := do
  if txKind.isSystemTx then return
  gasStatusNew gasPrice referenceGasPrice config
  -- check balance and coins consistency: load all gas coins
  let gasObjects ← gas.mapM fun objRef =>
    match btreeMapGet objects.objects objRef.id with
    | some obj => .ok obj
    | none => .error (.objectNotFound objRef.id (some objRef.version))
  checkGasBalance config gasPrice gasObjects gasBudget

/-! ## Objects -/

/-- `check_one_object`: a loaded object against the kind of input it is, with
    `owner` the address an owned object must belong to. The `assert_eq!` on the
    version of an owned input holds by `ObjectReadResult.owned_version`. -/
def checkOneObject (owner : Nat) (objectKind : InputObjectKind) (object : Object)
    (systemTransaction : Bool) : Except UserInputError Unit :=
  match objectKind with
  | .movePackage packageId =>
    if object.isPackage then .ok () else .error (.moveObjectAsPackage packageId)
  | .immOrOwnedMoveObject ⟨objectId, sequenceNumber, objectDigest⟩ => do
    if object.isPackage then throw (.movePackageAsObject objectId)
    if sequenceNumberMax ≤ sequenceNumber then throw .invalidSequenceNumber
    -- Check the digest matches - user could give a mismatched ObjectDigest
    if object.digest ≠ objectDigest then throw (.invalidObjectDigest objectId object.digest)
    match object.owner with
    | .immutable => pure ()
    | .addressOwner actualOwner =>
      if owner ≠ actualOwner then throw (.incorrectUserSignature objectId actualOwner owner)
    | .objectOwner parent => throw (.invalidChildObjectArgument object.id parent)
    -- A shared object given as an owned one
    | .shared _ => throw .notSharedObjectError
  | .sharedMoveObject id initialSharedVersion mutable =>
    -- The patterns for the clock, the authenticator state and the randomness
    -- object, in the order the code matches them.
    if id = mgoClockObjectId ∧ initialSharedVersion = mgoClockObjectSharedVersion ∧ mutable then
      if systemTransaction then .ok () else .error (.immutableParameterExpectedError mgoClockObjectId)
    else if id = mgoAuthenticatorStateObjectId then
      if systemTransaction then .ok () else .error (.inaccessibleSystemObject mgoAuthenticatorStateObjectId)
    else if id = mgoRandomnessStateObjectId ∧ mutable then
      if systemTransaction then .ok ()
      else .error (.immutableParameterExpectedError mgoRandomnessStateObjectId)
    else do
      if sequenceNumberMax ≤ object.version then throw .invalidSequenceNumber
      match object.owner with
      | .shared actualInitialSharedVersion =>
        if initialSharedVersion ≠ actualInitialSharedVersion then
          throw .sharedObjectStartingVersionMismatch
      -- When someone locks an object as shared it must be shared already.
      | _ => throw .notSharedObjectError

/-- The loop of `check_objects` that puts the id of each mutable input into the
    set `used`, and fails on the first id met twice. -/
def checkMutableUnique (used : List Nat) : List ObjectReadResult → Except UserInputError Unit
  | [] => .ok ()
  | object :: rest =>
    if object.isMutable then
      if object.id ∈ used then .error (.mutableObjectUsedMoreThanOnce object.id)
      else checkMutableUnique (object.id :: used) rest
    else checkMutableUnique used rest

/-- `check_objects`: no mutable object twice, some input unless at genesis, and
    each loaded object against its kind, owned by the gas owner if it is a gas
    coin and by the sender otherwise. A deleted shared object is not checked. -/
def checkObjects (transaction : TransactionData) (objects : InputObjects) :
    Except UserInputError Unit := do
  -- We require that mutable objects cannot show up more than once.
  checkMutableUnique [] objects.objects
  if !transaction.isGenesisTx && objects.isEmpty then
    throw .objectInputArityViolation
  let gasCoins := transaction.gas.map ObjectRef.id
  forM objects.objects fun object =>
    match object.object with
    | .object o =>
      let ownerAddress := if o.id ∈ gasCoins then transaction.gasOwner else transaction.sender
      checkOneObject ownerAddress object.inputObjectKind o transaction.isSystemTx
    -- We skip checking a deleted shared object because it no longer exists
    | .deletedSharedObject .. => .ok ()

/-! ## Receiving objects -/

/-- The error `check_receiving_objects` returns for an object it cannot receive
    at the reference given (not address-owned, or at another version or
    digest): every path of that branch fails. -/
def receivingObjectError (objectId version objectDigest : Nat) (object : Object) :
    UserInputError :=
  -- Version mismatch
  if object.version ≠ version then
    .objectVersionUnavailableForConsumption ⟨objectId, version, objectDigest⟩ object.version
  -- Tried to receive a package
  else if object.isPackage then .movePackageAsObject objectId
  -- Digest mismatch
  else if object.digest ≠ objectDigest then .invalidObjectDigest objectId object.digest
  else
    match object.owner with
    -- Not reached: such an object could be received.
    | .addressOwner _ => .objectNotFound objectId (some version)
    | .objectOwner owner => .invalidChildObjectArgument object.id owner
    | .shared _ => .notSharedObjectError
    | .immutable => .mutableParameterExpected objectId

/-- The loop of `check_receiving_objects`, with `objectsInTxn` the ids of the
    inputs and of the objects received so far. An object received before at the
    version named is let through at once. -/
def checkReceivingObjectsLoop (objectsInTxn : List Nat) :
    List ReceivingObjectReadResult → Except UserInputError Unit
  | [] => .ok ()
  | ⟨⟨objectId, version, objectDigest⟩, object⟩ :: rest =>
    if sequenceNumberMax ≤ version then .error .invalidSequenceNumber
    else
      match object with
      -- object was previously received
      | .previouslyReceivedObject => checkReceivingObjectsLoop objectsInTxn rest
      | .object object =>
        if !(object.owner.isAddressOwned && object.version == version &&
            object.digest == objectDigest) then
          .error (receivingObjectError objectId version objectDigest object)
        else if objectId ∈ objectsInTxn then .error .duplicateObjectRefInput
        else checkReceivingObjectsLoop (objectId :: objectsInTxn) rest

/-- `check_receiving_objects`. -/
def checkReceivingObjects (inputObjects : InputObjects)
    (receivingObjects : List ReceivingObjectReadResult) : Except UserInputError Unit :=
  checkReceivingObjectsLoop (inputObjects.objectKinds.map InputObjectKind.objectId) receivingObjects

/-! ## The checks at signing and at execution -/

/-- `check_transaction_input_inner`, the checks common to signing and execution;
    a nonempty `gasOverride` replaces the transaction's gas coins. -/
def checkTransactionInputInner (config : ProtocolConfig) (referenceGasPrice : Nat)
    (transaction : TransactionData) (inputObjects : InputObjects) (gasOverride : List ObjectRef) :
    Except MgoError Unit := do
  transaction.checkVersionSupported config
  let gas ← (if gasOverride.isEmpty then do
      transaction.validityCheck config
      pure transaction.gas
    else do
      transaction.validityCheckNoGasCheck config
      pure gasOverride).mapError .userInputError
  (checkGas inputObjects config referenceGasPrice gas transaction.gasData.budget
    transaction.gasData.price transaction.kind).mapError .userInputError
  (checkObjects transaction inputObjects).mapError .userInputError

/-- `check_transaction_input`, at signing: the common checks, then the objects
    the transaction may receive. -/
def checkTransactionInput (config : ProtocolConfig) (referenceGasPrice : Nat)
    (transaction : TransactionData) (inputObjects : InputObjects)
    (receivingObjects : List ReceivingObjectReadResult) : Except MgoError Unit := do
  checkTransactionInputInner config referenceGasPrice transaction inputObjects []
  (checkReceivingObjects inputObjects receivingObjects).mapError .userInputError

/-- `check_certificate_input`, at execution: the common checks only. -/
def checkCertificateInput (transaction : TransactionData) (inputObjects : InputObjects)
    (config : ProtocolConfig) (referenceGasPrice : Nat) : Except MgoError Unit :=
  checkTransactionInputInner config referenceGasPrice transaction inputObjects []

/-! ## What each check guarantees -/

section Specs

variable {config : ProtocolConfig} {referenceGasPrice : Nat}

/-- The loop over mutable inputs passes when their ids are distinct and new. -/
theorem checkMutableUnique_ok {used : List Nat} {l : List ObjectReadResult}
    (h : checkMutableUnique used l = .ok ()) :
    ((l.filter (·.isMutable)).map (·.id)).Nodup ∧
      ∀ x ∈ (l.filter (·.isMutable)).map (·.id), x ∉ used := by
  -- Induction on the inputs, with the ids seen so far growing.
  induction l generalizing used with
  | nil => simp
  | cons object rest ih =>
    unfold checkMutableUnique at h
    by_cases hm : object.isMutable = true
    · rw [if_pos hm] at h
      by_cases hu : object.id ∈ used
      · rw [if_pos hu] at h
        cases h
      · rw [if_neg hu] at h
        obtain ⟨hnd, hdisj⟩ := ih h
        rw [List.filter_cons_of_pos hm, List.map_cons]
        exact nodup_cons_fresh hu hnd hdisj
    · rw [if_neg hm] at h
      rw [List.filter_cons_of_neg hm]
      exact ih h

/-- `check_objects` passes: the mutable inputs have distinct ids, and every
    loaded object passes `check_one_object` against the owner it must have. -/
theorem checkObjects_ok {tx : TransactionData} {objects : InputObjects}
    (h : checkObjects tx objects = .ok ()) :
    ((objects.objects.filter (·.isMutable)).map (·.id)).Nodup ∧
      ∀ r ∈ objects.objects, ∀ o, r.object = .object o →
        checkOneObject (if o.id ∈ tx.gas.map ObjectRef.id then tx.gasOwner else tx.sender)
          r.inputObjectKind o tx.isSystemTx = .ok () := by
  unfold checkObjects at h
  obtain ⟨u, hunique, h⟩ := Except.bind_eq_ok.mp h
  refine ⟨(checkMutableUnique_ok hunique).1, ?_⟩
  dsimp only at h
  split at h
  · exact absurd h Except.throw_bind_ne_ok
  · intro r hr o ho
    have hr' := forM_ok_mem h r hr
    rw [ho] at hr'
    exact hr'

/-- An owned input that passes is the object its reference names, not a package,
    and immutable or owned by the address checked against. -/
theorem checkOneObject_owned {owner : Nat} {ref : ObjectRef} {o : Object} {sys : Bool}
    (h : checkOneObject owner (.immOrOwnedMoveObject ref) o sys = .ok ()) :
    o.isPackage = false ∧ o.digest = ref.digest ∧
      (o.owner = .immutable ∨ o.owner = .addressOwner owner) := by
  obtain ⟨objectId, sequenceNumber, objectDigest⟩ := ref
  simp only [checkOneObject] at h
  split at h
  · exact absurd h Except.throw_bind_ne_ok
  split at h
  · exact absurd h Except.throw_bind_ne_ok
  split at h
  · exact absurd h Except.throw_bind_ne_ok
  rename_i hpkg _ hdigest
  refine ⟨by simpa using hpkg, by simpa using hdigest, ?_⟩
  -- What is left is the match on the owner, where only two owners pass.
  split at h
  · exact .inl ‹_›
  · split at h
    · cases h
    · exact .inr (by simp_all)
  · cases h
  · cases h

/-- A shared input of a user transaction that passes is not one of the system
    objects reserved to system transactions, and is shared since the version it
    declares. -/
theorem checkOneObject_shared {owner id v : Nat} {m : Bool} {o : Object}
    (h : checkOneObject owner (.sharedMoveObject id v m) o false = .ok ()) :
    ¬ (id = mgoClockObjectId ∧ v = mgoClockObjectSharedVersion ∧ m = true) ∧
      id ≠ mgoAuthenticatorStateObjectId ∧ ¬ (id = mgoRandomnessStateObjectId ∧ m = true) ∧
      o.owner = .shared v := by
  simp only [checkOneObject] at h
  -- The three system-object patterns reject a user transaction.
  split at h
  · cases h
  split at h
  · cases h
  split at h
  · cases h
  refine ⟨‹_›, ‹_›, ‹_›, ?_⟩
  split at h
  · exact absurd h Except.throw_bind_ne_ok
  split at h
  · split at h
    · cases h
    · simp_all
  · cases h

/-- `check_gas_balance` passes only for gas objects owned by addresses. -/
theorem checkGasBalance_ok {gasPrice gasBudget : Nat} {gasObjs : List ObjectReadResult}
    (h : checkGasBalance config gasPrice gasObjs gasBudget = .ok ()) :
    ∀ r ∈ gasObjs, ∃ o, r.object = .object o ∧ o.isAddressOwned = true := by
  unfold checkGasBalance at h
  obtain ⟨u, howned, -⟩ := Except.bind_eq_ok.mp h
  intro r hr
  have hr' := forM_ok_mem howned r hr
  split at hr'
  · rename_i o ho
    refine ⟨o, ObjectReadResult.asObject_eq_some.mp ho, ?_⟩
    split at hr'
    · cases hr'
    · simpa using ‹¬ (!o.isAddressOwned) = true›
  · cases hr'

/-- `check_gas` of a user transaction passes only if each gas coin's id reads,
    in the map of the inputs, an object owned by an address. -/
theorem checkGas_ok {objects : InputObjects} {gas : List ObjectRef} {gasBudget gasPrice : Nat}
    {kind : TransactionKind} (hsys : kind.isSystemTx = false)
    (h : checkGas objects config referenceGasPrice gas gasBudget gasPrice kind = .ok ()) :
    ∀ g ∈ gas, ∃ r o, btreeMapGet objects.objects g.id = some r ∧ r.object = .object o ∧
      o.isAddressOwned = true := by
  unfold checkGas at h
  rw [hsys] at h
  obtain ⟨u, -, h⟩ := Except.bind_eq_ok.mp h
  obtain ⟨gasObjects, hload, hbalance⟩ := Except.bind_eq_ok.mp h
  intro g hg
  obtain ⟨r, hr, hget⟩ := mapM_ok_of_mem hload g hg
  split at hget
  · rename_i r' hr'
    cases hget
    obtain ⟨o, ho, howned⟩ := checkGasBalance_ok hbalance r hr
    exact ⟨r, o, hr', ho, howned⟩
  · cases hget

/-- The ids of the objects a transaction may receive that are read, not
    received before. -/
def readReceivingIds (l : List ReceivingObjectReadResult) : List Nat :=
  l.filterMap fun rr =>
    match rr.object with
    | .object _ => some rr.objectRef.id
    | .previouslyReceivedObject => none

/-- The receiving loop passes only when the objects it reads have distinct ids,
    none seen before; objects received before are not compared. -/
theorem checkReceivingObjectsLoop_ok {objectsInTxn : List Nat}
    {l : List ReceivingObjectReadResult} (h : checkReceivingObjectsLoop objectsInTxn l = .ok ()) :
    (readReceivingIds l).Nodup ∧ ∀ x ∈ readReceivingIds l, x ∉ objectsInTxn := by
  -- Induction on the receiving objects, with the ids seen so far growing.
  induction l generalizing objectsInTxn with
  | nil => simp [readReceivingIds]
  | cons rr rest ih =>
    obtain ⟨⟨objectId, version, objectDigest⟩, object⟩ := rr
    unfold checkReceivingObjectsLoop at h
    rw [if_neg (by intro hv; rw [if_pos hv] at h; cases h)] at h
    cases object with
    | previouslyReceivedObject =>
      -- Received before: let through, and not among the ids read.
      simpa [readReceivingIds] using ih h
    | object o =>
      dsimp only at h
      rw [if_neg (by intro hc; rw [if_pos hc] at h; cases h)] at h
      by_cases hdup : objectId ∈ objectsInTxn
      · rw [if_pos hdup] at h
        cases h
      · rw [if_neg hdup] at h
        obtain ⟨hnd, hdisj⟩ := ih h
        have hids : readReceivingIds (⟨⟨objectId, version, objectDigest⟩, .object o⟩ :: rest) =
            objectId :: readReceivingIds rest := by
          simp [readReceivingIds]
        rw [hids]
        exact nodup_cons_fresh hdup hnd hdisj

/-- The common checks, without a gas override, pass only if the gas check over
    the transaction's own gas coins and `check_objects` pass. -/
theorem checkTransactionInputInner_ok {tx : TransactionData} {inputs : InputObjects}
    (h : checkTransactionInputInner config referenceGasPrice tx inputs [] = .ok ()) :
    checkGas inputs config referenceGasPrice tx.gas tx.gasData.budget tx.gasData.price
        tx.kind = .ok () ∧ checkObjects tx inputs = .ok () := by
  unfold checkTransactionInputInner at h
  obtain ⟨u, -, h⟩ := Except.bind_eq_ok.mp h
  obtain ⟨gas, hgas, h⟩ := Except.bind_eq_ok.mp h
  obtain ⟨u', hcheckGas, hobjects⟩ := Except.bind_eq_ok.mp h
  -- Without an override the gas coins are the transaction's own.
  have hgas' : gas = tx.gas := by
    rw [List.isEmpty_nil, if_pos rfl, Except.mapError_eq_ok] at hgas
    obtain ⟨u'', -, hpure⟩ := Except.bind_eq_ok.mp hgas
    exact (Except.pure_eq_ok.mp hpure).symm
  rw [hgas'] at hcheckGas
  exact ⟨Except.mapError_eq_ok.mp hcheckGas, Except.mapError_eq_ok.mp hobjects⟩

end Specs

/-! ## What the checks guarantee of a user transaction -/

/-- What the input checks guarantee of the loaded inputs of a transaction they
    accept, at signing and at execution. -/
structure InputAuthorization (tx : TransactionData) (inputs : InputObjects) : Prop where
  /-- An address-owned owned input belongs to the gas owner if it is a gas coin,
      and to the sender otherwise. -/
  owner_matches : ∀ r ∈ inputs.objects, ∀ ref o a,
    r.inputObjectKind = .immOrOwnedMoveObject ref → r.object = .object o →
    o.owner = .addressOwner a → a = if ref.id ∈ tx.gas.map ObjectRef.id then tx.gasOwner else tx.sender
  /-- A gas coin's id among the inputs before the gas coins is not taken mutably there. -/
  gas_not_mutable : ∀ pre post, inputs.objects = pre ++ post →
    post.map (·.inputObjectKind) = tx.gas.map .immOrOwnedMoveObject →
    ∀ r ∈ pre, r.id ∈ tx.gas.map ObjectRef.id → r.isMutable = false
  /-- No owned input is owned by an object. -/
  not_child_object : ∀ r ∈ inputs.objects, ∀ ref o,
    r.inputObjectKind = .immOrOwnedMoveObject ref → r.object = .object o →
    o.owner.isChildObject = false
  /-- No id is taken mutably twice, gas coins included. -/
  mutable_unique : ((inputs.objects.filter (·.isMutable)).map (·.id)).Nodup
  /-- An owned input is the object of the digest it names, and not a package. -/
  owned_matches : ∀ r ∈ inputs.objects, ∀ ref o,
    r.inputObjectKind = .immOrOwnedMoveObject ref → r.object = .object o →
    o.digest = ref.digest ∧ o.isPackage = false
  /-- A shared input whose object exists is shared since the version it declares. -/
  shared_version : ∀ r ∈ inputs.objects, ∀ id v m o,
    r.inputObjectKind = .sharedMoveObject id v m → r.object = .object o → o.owner = .shared v
  /-- No shared input whose object exists takes the clock (at the version it is
      shared since) or the randomness object mutably, or the authenticator state
      at all. -/
  system_objects : ∀ r ∈ inputs.objects, ∀ id v m o,
    r.inputObjectKind = .sharedMoveObject id v m → r.object = .object o →
    ¬ (id = mgoClockObjectId ∧ v = mgoClockObjectSharedVersion ∧ m = true) ∧
      id ≠ mgoAuthenticatorStateObjectId ∧ ¬ (id = mgoRandomnessStateObjectId ∧ m = true)

/-- The last input with a given id lies in a suffix that has one. -/
theorem btreeMapGet_mem_of_append {pre post : List ObjectReadResult} {id : Nat}
    {e : ObjectReadResult} (hpost : ∃ x ∈ post, x.id = id)
    (h : btreeMapGet (pre ++ post) id = some e) : e ∈ post ∧ e.id = id := by
  obtain ⟨x, hx, hxid⟩ := hpost
  unfold btreeMapGet at h
  rw [List.filter_append, List.getLast?_append] at h
  -- The suffix's own last match wins.
  have hne : post.filter (·.id == id) ≠ [] :=
    List.ne_nil_of_mem (List.mem_filter.mpr ⟨hx, by simp [hxid]⟩)
  have hy := List.getLast?_eq_getLast hne
  rw [hy, Option.some_or] at h
  cases h
  have hmem := List.mem_filter.mp (List.mem_of_getLast? hy)
  exact ⟨hmem.1, by simpa using hmem.2⟩

section Authorization

variable {tx : TransactionData} {inputs : InputObjects}

/-- A gas coin is read as a mutable input among the gas inputs, so a second
    mutable read of its id would break `mutable_unique`. -/
theorem gas_not_mutable_of_checks {config : ProtocolConfig} {referenceGasPrice : Nat}
    (hsys : tx.isSystemTx = false)
    (hgas : checkGas inputs config referenceGasPrice tx.gas tx.gasData.budget tx.gasData.price
      tx.kind = .ok ())
    (hunique : ((inputs.objects.filter (·.isMutable)).map (·.id)).Nodup)
    (pre post : List ObjectReadResult) (hsplit : inputs.objects = pre ++ post)
    (hpost : post.map (·.inputObjectKind) = tx.gas.map .immOrOwnedMoveObject)
    (r : ObjectReadResult) (hr : r ∈ pre) (hrgas : r.id ∈ tx.gas.map ObjectRef.id) :
    r.isMutable = false := by
  obtain ⟨g, hg, hgid⟩ := List.mem_map.mp hrgas
  -- The gas inputs read `g` itself.
  have hx : ∃ x ∈ post, x.id = g.id := by
    have hk : InputObjectKind.immOrOwnedMoveObject g ∈ post.map (·.inputObjectKind) := by
      rw [hpost]
      exact List.mem_map_of_mem hg
    obtain ⟨x, hx, hxk⟩ := List.mem_map.mp hk
    exact ⟨x, hx, by simp [ObjectReadResult.id, hxk, InputObjectKind.objectId]⟩
  obtain ⟨e, o, hget, he, howned⟩ := checkGas_ok hsys hgas g hg
  rw [hsplit] at hget
  obtain ⟨hepost, heid⟩ := btreeMapGet_mem_of_append hx hget
  -- That read is mutable: it is an owned input whose object an address owns.
  have hemut : e.isMutable = true := by
    have hk : e.inputObjectKind ∈ tx.gas.map .immOrOwnedMoveObject := by
      rw [← hpost]
      exact List.mem_map_of_mem hepost
    obtain ⟨g', -, hg'⟩ := List.mem_map.mp hk
    have hnotimm : o.isImmutable = false := by
      cases hown : o.owner <;> simp_all [Object.isAddressOwned, Owner.isAddressOwned,
        Object.isImmutable, Owner.isImmutable]
    simp [ObjectReadResult.isMutable, ← hg', he, hnotimm]
  by_contra hrmut
  rw [Bool.not_eq_false] at hrmut
  rw [hsplit, List.filter_append, List.map_append] at hunique
  have hpre : r.id ∈ (pre.filter (·.isMutable)).map (·.id) :=
    List.mem_map_of_mem (List.mem_filter.mpr ⟨hr, hrmut⟩)
  have hpostm : e.id ∈ (post.filter (·.isMutable)).map (·.id) :=
    List.mem_map_of_mem (List.mem_filter.mpr ⟨hepost, hemut⟩)
  rw [heid, hgid] at hpostm
  exact List.disjoint_of_nodup_append hunique hpre hpostm

/-- The common checks of a user transaction give `InputAuthorization`. -/
theorem inputAuthorization_of_checks {config : ProtocolConfig} {referenceGasPrice : Nat}
    (hsys : tx.isSystemTx = false)
    (hgas : checkGas inputs config referenceGasPrice tx.gas tx.gasData.budget tx.gasData.price
      tx.kind = .ok ())
    (hobjects : checkObjects tx inputs = .ok ()) : InputAuthorization tx inputs := by
  obtain ⟨hunique, hone⟩ := checkObjects_ok hobjects
  -- Each owned input: its object has the input's id, so the owner checked against
  -- is the one the reference's id selects.
  have howned : ∀ r ∈ inputs.objects, ∀ ref o, r.inputObjectKind = .immOrOwnedMoveObject ref →
      r.object = .object o →
      o.isPackage = false ∧ o.digest = ref.digest ∧ (o.owner = .immutable ∨
        o.owner = .addressOwner (if ref.id ∈ tx.gas.map ObjectRef.id then tx.gasOwner
          else tx.sender)) := by
    intro r hr ref o hk ho
    have hid : o.id = ref.id := by
      rw [r.object_id o ho, hk]
      rfl
    have h := hone r hr o ho
    rw [hk, hid] at h
    exact checkOneObject_owned h
  have hshared : ∀ r ∈ inputs.objects, ∀ id v m o, r.inputObjectKind = .sharedMoveObject id v m →
      r.object = .object o →
      ¬ (id = mgoClockObjectId ∧ v = mgoClockObjectSharedVersion ∧ m = true) ∧
        id ≠ mgoAuthenticatorStateObjectId ∧ ¬ (id = mgoRandomnessStateObjectId ∧ m = true) ∧
        o.owner = .shared v := by
    intro r hr id v m o hk ho
    have h := hone r hr o ho
    rw [hk, show tx.isSystemTx = false from hsys] at h
    exact checkOneObject_shared h
  refine ⟨?_, gas_not_mutable_of_checks hsys hgas hunique, ?_, hunique, ?_, ?_, ?_⟩
  · intro r hr ref o a hk ho ha
    rcases (howned r hr ref o hk ho).2.2 with himm | hown
    · rw [ha] at himm
      cases himm
    · rw [ha] at hown
      exact Owner.addressOwner.inj hown
  · intro r hr ref o hk ho
    rcases (howned r hr ref o hk ho).2.2 with hown | hown <;> rw [hown] <;> rfl
  · intro r hr ref o hk ho
    obtain ⟨hpkg, hdigest, -⟩ := howned r hr ref o hk ho
    exact ⟨hdigest, hpkg⟩
  · intro r hr id v m o hk ho
    exact (hshared r hr id v m o hk ho).2.2.2
  · intro r hr id v m o hk ho
    obtain ⟨hclock, hauth, hrand, -⟩ := hshared r hr id v m o hk ho
    exact ⟨hclock, hauth, hrand⟩

end Authorization

/-- At signing, the objects read for receiving have distinct ids, none of them an
    input's or a gas coin's. -/
def ReceivingDisjoint (inputs : InputObjects) (receiving : List ReceivingObjectReadResult) :
    Prop :=
  (readReceivingIds receiving).Nodup ∧
    ∀ x ∈ readReceivingIds receiving, x ∉ inputs.objectKinds.map InputObjectKind.objectId

/-- The input checks at signing and at execution authorize the inputs of every
    user transaction they accept, and at signing the objects it reads for
    receiving are new. -/
theorem check_input_authorization (config : ProtocolConfig) (referenceGasPrice : Nat)
    (tx : TransactionData) (inputs : InputObjects) (receiving : List ReceivingObjectReadResult)
    (hsys : tx.isSystemTx = false) :
    (checkTransactionInput config referenceGasPrice tx inputs receiving = .ok () →
      InputAuthorization tx inputs ∧ ReceivingDisjoint inputs receiving) ∧
    (checkCertificateInput tx inputs config referenceGasPrice = .ok () →
      InputAuthorization tx inputs) := by
  constructor
  · intro h
    obtain ⟨u, hinner, hreceiving⟩ := Except.bind_eq_ok.mp h
    obtain ⟨hgas, hobjects⟩ := checkTransactionInputInner_ok hinner
    exact ⟨inputAuthorization_of_checks hsys hgas hobjects,
      checkReceivingObjectsLoop_ok (Except.mapError_eq_ok.mp hreceiving)⟩
  · intro h
    obtain ⟨hgas, hobjects⟩ := checkTransactionInputInner_ok h
    exact inputAuthorization_of_checks hsys hgas hobjects

/-- The limits of the current protocol version. -/
def exampleConfig : ProtocolConfig :=
  ⟨256, 1024, 2048, 16384, true, 50000000000, 1000, true, 8, 100000⟩

/-- Sender `1` calls package `2` on its object `20`, and pays with its coin `10`. -/
def callTransaction : TransactionData :=
  ⟨.programmableTransaction ⟨[.object (.immOrOwnedObject ⟨20, 5, 50⟩)], [.moveCall 2 []]⟩, 1,
    ⟨[⟨10, 3, 30⟩], 1, 1000, 2000000⟩⟩

/-- The inputs of `callTransaction` as a loader reads them. -/
def callInputs : InputObjects :=
  ⟨[.ofOwned ⟨20, 5, 50⟩ ⟨20, 5, .move false 0, .addressOwner 1, 50, 0, 0⟩ rfl rfl,
    .ofPackage 2 ⟨2, 1, .package, .immutable, 2, 0, 0⟩ rfl,
    .ofOwned ⟨10, 3, 30⟩ ⟨10, 3, .move true 5000000, .addressOwner 1, 30, 0, 0⟩ rfl rfl]⟩

example : callTransaction.inputObjects = .ok callInputs.objectKinds := by decide

/-- The call passes the checks at signing, and its inputs are authorized. -/
theorem check_input_authorization_call :
    callTransaction.isSystemTx = false ∧
      checkTransactionInput exampleConfig 1000 callTransaction callInputs [] = .ok () ∧
      InputAuthorization callTransaction callInputs ∧ ReceivingDisjoint callInputs [] := by
  have hok : checkTransactionInput exampleConfig 1000 callTransaction callInputs [] = .ok () := by
    decide
  exact ⟨rfl, hok,
    (check_input_authorization exampleConfig 1000 callTransaction callInputs [] rfl).1 hok⟩

/-- Sender `1` names its object `20` both as an input and, at an older version, as
    an object to receive; names its gas coin `10` also as an input, at a later
    version; and takes a shared object `30` declared shared since version `99`. -/
def overlapTransaction : TransactionData :=
  ⟨.programmableTransaction
    ⟨[.object (.immOrOwnedObject ⟨20, 5, 50⟩), .object (.receiving ⟨20, 2, 22⟩),
      .object (.immOrOwnedObject ⟨10, 4, 40⟩), .object (.sharedObject 30 99 true)],
      [.moveCall 2 []]⟩, 1,
    ⟨[⟨10, 3, 30⟩], 1, 1000, 2000000⟩⟩

/-- The inputs of `overlapTransaction` as the signing loader reads them: the coin
    was frozen at version `4`, and object `30` was deleted at version `12`. -/
def overlapInputs : InputObjects :=
  ⟨[.ofOwned ⟨20, 5, 50⟩ ⟨20, 5, .move false 0, .addressOwner 1, 50, 0, 0⟩ rfl rfl,
    .ofOwned ⟨10, 4, 40⟩ ⟨10, 4, .move true 5, .immutable, 40, 0, 0⟩ rfl rfl,
    .ofShared 30 99 true (.deletedSharedObject 12 555) (by rintro o ⟨⟩),
    .ofPackage 2 ⟨2, 1, .package, .immutable, 2, 0, 0⟩ rfl,
    .ofOwned ⟨10, 3, 30⟩ ⟨10, 3, .move true 5000000, .addressOwner 1, 30, 0, 0⟩ rfl rfl]⟩

/-- At signing the checks accept `overlapTransaction` when object `20` was
    received at version `2` before: its receiving object is one of its inputs,
    its gas coin is one of its non-gas inputs, and its shared input is no shared
    object at all. -/
theorem checks_accept_overlapping_inputs :
    checkTransactionInput exampleConfig 1000 overlapTransaction overlapInputs
        [⟨⟨20, 2, 22⟩, .previouslyReceivedObject⟩] = .ok () ∧
      overlapTransaction.inputObjects = .ok overlapInputs.objectKinds ∧
      overlapTransaction.kind.inputObjects =
        .ok [.immOrOwnedMoveObject ⟨20, 5, 50⟩, .immOrOwnedMoveObject ⟨10, 4, 40⟩,
          .sharedMoveObject 30 99 true, .movePackage 2] ∧
      overlapTransaction.gas = [⟨10, 3, 30⟩] ∧
      overlapTransaction.receivingObjects = [⟨20, 2, 22⟩] := by
  decide

end Mango.Core
