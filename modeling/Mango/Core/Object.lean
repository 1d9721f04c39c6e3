/-
  Mango.Core.Object

  Objects as the authority stores them and as transactions name them
  (`crates/mgo-types/src/object.rs`, `base_types.rs`, `lib.rs`): an object's
  identifier and version, its owner, whether it is a Move object or a package,
  and the references `(id, version, digest)` and keys `(id, version)` by which
  inputs and tables name it.

  Identifiers, addresses, digests and versions are `Nat` (32-byte values and
  `u64`s in the code). An object's digest hashes all of it; the model keeps
  the digest as a field, and asks of the hash only what the code relies on,
  that it tells apart the objects compared. Of an object's contents the model
  keeps what the modelled code reads: whether it is a package, and for a Move
  object whether its type is the gas coin and the coin's value.

  New versions come from `lamport_increment`: one more than the largest
  version a transaction reads.
-/
import Mango.Lib.List

namespace Mango.Core

open Mango.Lib

/-! ## Versions -/

/-- `u64::MAX`. -/
def u64Max : Nat := 2 ^ 64 - 1

/-- `SequenceNumber::MAX`, the largest version an input may name. -/
def sequenceNumberMax : Nat := 0x7fff_ffff_ffff_ffff

/-- `SequenceNumber::lamport_increment`: one more than the largest of `inputs`,
    folding `max` from `SequenceNumber::new()`, zero. `none` is its
    `assert_ne!(max_input.0, u64::MAX)` failing. -/
def lamportIncrement (inputs : List Nat) : Option Nat :=
  let maxInput := inputs.foldl max 0
  if maxInput = u64Max then none else some (maxInput + 1)

/-- The new version is above every version read. -/
theorem lamportIncrement_gt {inputs : List Nat} {v : Nat}
    (h : lamportIncrement inputs = some v) : ∀ x ∈ inputs, x < v := by
  intro x hx
  unfold lamportIncrement at h
  dsimp only at h
  rw [foldl_max_zero] at h
  split at h
  · cases h
  · rw [Option.some.injEq] at h
    obtain ⟨m, hm, hxm⟩ := le_max?_of_mem hx
    rw [hm, Option.getD_some] at h
    omega

/-! ## Owners and objects -/

/-- `Owner`. -/
inductive Owner where
  /-- Owned by one address, and mutable. -/
  | addressOwner (address : Nat)
  /-- Owned by one object (a dynamic field or a child), and mutable. -/
  | objectOwner (address : Nat)
  /-- Shared since `initialSharedVersion`. -/
  | shared (initialSharedVersion : Nat)
  | immutable
  deriving DecidableEq, Repr

namespace Owner

/-- `Owner::is_immutable`. -/
def isImmutable : Owner → Bool
  | .immutable => true
  | _ => false

/-- `Owner::is_address_owned`. -/
def isAddressOwned : Owner → Bool
  | .addressOwner _ => true
  | _ => false

/-- `Owner::is_child_object`. -/
def isChildObject : Owner → Bool
  | .objectOwner _ => true
  | _ => false

/-- `Owner::is_shared`. -/
def isShared : Owner → Bool
  | .shared _ => true
  | _ => false

end Owner

/-- `Data`, what the model keeps of an object's contents: a Move object, with
    whether its type is the gas coin (`MoveObjectType::is_gas_coin`) and the
    value `get_coin_value_unsafe` reads, or a package. -/
inductive Data where
  | move (isGasCoin : Bool) (coinValue : Nat)
  | package
  deriving DecidableEq, Repr

/-- `ObjectRef`, the tuple `(ObjectID, SequenceNumber, ObjectDigest)`. -/
structure ObjectRef where
  id : Nat
  version : Nat
  digest : Nat
  deriving DecidableEq, Repr

/-- `ObjectKey(ObjectID, SequenceNumber)`. -/
structure ObjectKey where
  id : Nat
  version : Nat
  deriving DecidableEq, Repr

/-- `ObjectKey::from(ObjectRef)`. -/
def ObjectRef.key (ref : ObjectRef) : ObjectKey := ⟨ref.id, ref.version⟩

/-- `Object`. The code keeps the identifier and the version inside `data`;
    `digest` is `Object::digest`, the hash of the whole object, and
    `storageRebate` the MGO paid for its storage, returned when it is deleted. -/
structure Object where
  id : Nat
  version : Nat
  data : Data
  owner : Owner
  digest : Nat
  previousTransaction : Nat
  storageRebate : Nat
  deriving DecidableEq, Repr

namespace Object

/-- `Object::is_immutable`. -/
def isImmutable (o : Object) : Bool := o.owner.isImmutable

/-- `Object::is_address_owned`. -/
def isAddressOwned (o : Object) : Bool := o.owner.isAddressOwned

/-- `Object::is_shared`. -/
def isShared (o : Object) : Bool := o.owner.isShared

/-- `Object::is_package`. -/
def isPackage (o : Object) : Bool :=
  match o.data with
  | .package => true
  | .move .. => false

/-- `object.data.try_as_move().map(MoveObject::version)`: the version of a Move
    object, nothing for a package. -/
def moveVersion? (o : Object) : Option Nat :=
  match o.data with
  | .move .. => some o.version
  | .package => none

/-- `Object::compute_object_reference`. -/
def computeObjectReference (o : Object) : ObjectRef := ⟨o.id, o.version, o.digest⟩

@[simp] theorem computeObjectReference_key (o : Object) :
    o.computeObjectReference.key = ⟨o.id, o.version⟩ := rfl

@[simp] theorem computeObjectReference_id (o : Object) : o.computeObjectReference.id = o.id := rfl

end Object

/-! ## System objects (`crates/mgo-types/src/lib.rs`) -/

/-- `OBJECT_START_VERSION`. -/
def objectStartVersion : Nat := 1

/-- `MGO_SYSTEM_STATE_OBJECT_ID`, `0x5`. -/
def mgoSystemStateObjectId : Nat := 5

/-- `MGO_CLOCK_OBJECT_ID`, `0x6`. -/
def mgoClockObjectId : Nat := 6

/-- `MGO_CLOCK_OBJECT_SHARED_VERSION`. -/
def mgoClockObjectSharedVersion : Nat := objectStartVersion

/-- `MGO_AUTHENTICATOR_STATE_OBJECT_ID`, `0x7`. -/
def mgoAuthenticatorStateObjectId : Nat := 7

/-- `MGO_RANDOMNESS_STATE_OBJECT_ID`, `0x8`. -/
def mgoRandomnessStateObjectId : Nat := 8

end Mango.Core
