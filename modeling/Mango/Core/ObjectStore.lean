/-
  Mango.Core.ObjectStore

  The authority's perpetual tables as the modelled code reads and writes them
  (`crates/mgo-core/src/authority/authority_store.rs`,
  `authority_store_tables.rs`, and the pass-through cache of
  `in_mem_execution_cache.rs` that forwards to them): the objects table keyed
  by `ObjectKey(id, version)`, whose entries are objects or the tombstones of
  deleted and wrapped objects; the per-epoch marker table keyed by
  `(epoch, ObjectKey)`; the owned-object lock table keyed by `ObjectRef`; and
  the effects of the transactions executed, by transaction digest.

  Every table is kept per object identifier as a version table
  (`Mango.Lib.VersionTable`), the lock table with the version and digest of
  a reference as its version. The objects table carries its key invariant:
  an object stored at `(id, v)` has identifier `id` and version `v`, which is
  what every read by key relies on, and which each write keeps by
  construction. The reads follow the code's: by key, the latest entry (the
  first entry a reverse scan from the identifier's largest key meets), and
  the markers of one epoch.
-/
import Mango.Lib.VersionTable
import Mango.Core.Transaction
import Mango.Core.Effects

namespace Mango.Core

open Mango.Lib

/-- `StoreObject`: what the objects table holds at a key. -/
inductive StoreObject where
  | value (o : Object)
  | deleted
  | wrapped
  deriving DecidableEq, Repr

/-- `MarkerValue`. -/
inductive MarkerValue where
  /-- The object was received at this version. -/
  | received
  /-- An owned object was deleted or wrapped at this version. -/
  | ownedDeleted
  /-- A shared object is deleted at this version, by the transaction with this
      digest or by one before it. -/
  | sharedDeleted (txDigest : Nat)
  deriving DecidableEq, Repr

/-- `LockDetails`: the transaction an owned object version is locked to, and in
    which epoch. -/
structure LockDetails where
  epoch : Nat
  txDigest : Nat
  deriving DecidableEq, Repr

/-- The perpetual tables. -/
structure ObjectStore where
  /-- `objects`, per identifier: version ↦ entry. -/
  objects : Nat → List (Nat × StoreObject)
  /-- `object_per_epoch_marker_table`, per epoch and identifier: version ↦ marker. -/
  markers : Nat → Nat → List (Nat × MarkerValue)
  /-- `owned_object_transaction_locks`, per identifier: (version, digest) ↦ lock,
      where `none` is a lock that exists but is not set. -/
  locks : Nat → List ((Nat × Nat) × Option LockDetails)
  /-- `executed_effects` and `effects`, by transaction digest. -/
  executedEffects : Nat → Option TransactionEffects
  /-- An object is stored under its own key. -/
  keyed : ∀ id v o, vget (objects id) v = some (.value o) → o.id = id ∧ o.version = v

namespace ObjectStore

variable (st : ObjectStore)

/-! ## Reads -/

/-- `get_object_by_key`: the object at a key, nothing for a tombstone. -/
def getObjectByKey (id version : Nat) : Option Object :=
  match vget (st.objects id) version with
  | some (.value o) => some o
  | _ => none

/-- `get_latest_object_or_tombstone`: the entry at the identifier's largest version. -/
def getLatestObjectOrTombstone (id : Nat) : Option (Nat × StoreObject) :=
  match vmax (st.objects id) with
  | some version => (vget (st.objects id) version).map fun entry => (version, entry)
  | none => none

/-- `get_object`: the latest entry, when it is an object. -/
def getObject (id : Nat) : Option Object :=
  match st.getLatestObjectOrTombstone id with
  | some (_, .value o) => some o
  | _ => none

/-- `load_package_object_from_object_store`, which `get_package_object` reads
    through its cache of packages (which never change). -/
def getPackageObject (packageId : Nat) : Except MgoError (Option Object) :=
  match st.getObject packageId with
  | some o =>
    if o.isPackage then .ok (some o)
    else .error (.badObjectType ("Package expected, Move object found: " ++ toString packageId))
  | none => .ok none

/-- `get_marker_value`. -/
def getMarkerValue (id version epoch : Nat) : Option MarkerValue :=
  vget (st.markers epoch id) version

/-- `get_deleted_shared_object_previous_tx_digest`. -/
def getDeletedSharedObjectPreviousTxDigest (id version epoch : Nat) : Option Nat :=
  match st.getMarkerValue id version epoch with
  | some (.sharedDeleted digest) => some digest
  | _ => none

/-- `have_received_object_at_version`. -/
def haveReceivedObjectAtVersion (id version epoch : Nat) : Bool :=
  match st.getMarkerValue id version epoch with
  | some .received => true
  | _ => false

/-- The lock row of an object reference: `none` when the row does not exist. -/
def getLock (ref : ObjectRef) : Option (Option LockDetails) :=
  vget (st.locks ref.id) (ref.version, ref.digest)

/-- `get_executed_effects`. -/
def getExecutedEffects (txDigest : Nat) : Option TransactionEffects :=
  st.executedEffects txDigest

/-! ## Writes

  Each write of the output batch, one table row at a time. -/

/-- Put an entry in the objects table, at a key it belongs under. -/
def insertStoreObject (id version : Nat) (entry : StoreObject)
    (h : ∀ o, entry = .value o → o.id = id ∧ o.version = version) : ObjectStore :=
  { st with
    objects := Function.update st.objects id (vset (st.objects id) version entry)
    keyed := by
      intro id' v o hget
      by_cases hid : id' = id
      · subst hid
        rw [Function.update_self, vget_vset] at hget
        split at hget
        · rename_i hv
          rw [hv]
          exact h o (Option.some.inj hget)
        · exact st.keyed id' v o hget
      · rw [Function.update_of_ne hid] at hget
        exact st.keyed id' v o hget }

/-- Write an object under its own key. -/
def insertObject (o : Object) : ObjectStore :=
  st.insertStoreObject o.id o.version (.value o) (by rintro o' ⟨⟩; exact ⟨rfl, rfl⟩)

/-- Write a tombstone: `deleted` for a deleted object, else a wrapped one. -/
def insertTombstone (id version : Nat) (deleted : Bool) : ObjectStore :=
  st.insertStoreObject id version (if deleted then .deleted else .wrapped)
    (by intro o h; split at h <;> cases h)

/-- Remove the entry at a key. -/
def deleteObject (id version : Nat) : ObjectStore :=
  { st with
    objects := Function.update st.objects id (verase (st.objects id) version)
    keyed := by
      intro id' v o hget
      by_cases hid : id' = id
      · subst hid
        rw [Function.update_self] at hget
        by_cases hv : v = version
        · rw [hv, vget_verase_self] at hget
          cases hget
        · rw [vget_verase_ne _ hv] at hget
          exact st.keyed id' v o hget
      · rw [Function.update_of_ne hid] at hget
        exact st.keyed id' v o hget }

/-- Put a marker of an epoch. -/
def insertMarker (epoch id version : Nat) (marker : MarkerValue) : ObjectStore :=
  { st with
    markers := Function.update st.markers epoch
      (Function.update (st.markers epoch) id (vset (st.markers epoch id) version marker)) }

/-- Put a row in the lock table. -/
def insertLock (ref : ObjectRef) (lock : Option LockDetails) : ObjectStore :=
  { st with
    locks := Function.update st.locks ref.id
      (vset (st.locks ref.id) (ref.version, ref.digest) lock) }

/-- Remove a row of the lock table. -/
def deleteLock (ref : ObjectRef) : ObjectStore :=
  { st with
    locks := Function.update st.locks ref.id (verase (st.locks ref.id) (ref.version, ref.digest)) }

/-- Record the effects of an executed transaction. -/
def insertExecutedEffects (txDigest : Nat) (effects : TransactionEffects) : ObjectStore :=
  { st with executedEffects := Function.update st.executedEffects txDigest (some effects) }

/-- Forget that a transaction was executed. -/
def deleteExecutedEffects (txDigest : Nat) : ObjectStore :=
  { st with executedEffects := Function.update st.executedEffects txDigest none }

/-! ## What each write changes

  One lemma per table per write, so that proofs about a batch of writes never
  unfold them. -/

section Frame

variable {st}

@[simp] theorem insertObject_markers (o : Object) : (st.insertObject o).markers = st.markers := rfl
@[simp] theorem insertObject_locks (o : Object) : (st.insertObject o).locks = st.locks := rfl
@[simp] theorem insertObject_executedEffects (o : Object) :
    (st.insertObject o).executedEffects = st.executedEffects := rfl
@[simp] theorem insertObject_objects (o : Object) :
    (st.insertObject o).objects =
      Function.update st.objects o.id (vset (st.objects o.id) o.version (.value o)) := rfl

@[simp] theorem insertTombstone_markers (id v : Nat) (d : Bool) :
    (st.insertTombstone id v d).markers = st.markers := rfl
@[simp] theorem insertTombstone_locks (id v : Nat) (d : Bool) :
    (st.insertTombstone id v d).locks = st.locks := rfl
@[simp] theorem insertTombstone_executedEffects (id v : Nat) (d : Bool) :
    (st.insertTombstone id v d).executedEffects = st.executedEffects := rfl
@[simp] theorem insertTombstone_objects (id v : Nat) (d : Bool) :
    (st.insertTombstone id v d).objects =
      Function.update st.objects id (vset (st.objects id) v (if d then .deleted else .wrapped)) :=
  rfl

@[simp] theorem deleteObject_markers (id v : Nat) : (st.deleteObject id v).markers = st.markers :=
  rfl
@[simp] theorem deleteObject_locks (id v : Nat) : (st.deleteObject id v).locks = st.locks := rfl
@[simp] theorem deleteObject_executedEffects (id v : Nat) :
    (st.deleteObject id v).executedEffects = st.executedEffects := rfl
@[simp] theorem deleteObject_objects (id v : Nat) :
    (st.deleteObject id v).objects = Function.update st.objects id (verase (st.objects id) v) := rfl

@[simp] theorem insertMarker_objects (e id v : Nat) (m : MarkerValue) :
    (st.insertMarker e id v m).objects = st.objects := rfl
@[simp] theorem insertMarker_locks (e id v : Nat) (m : MarkerValue) :
    (st.insertMarker e id v m).locks = st.locks := rfl
@[simp] theorem insertMarker_executedEffects (e id v : Nat) (m : MarkerValue) :
    (st.insertMarker e id v m).executedEffects = st.executedEffects := rfl
@[simp] theorem insertMarker_markers (e id v : Nat) (m : MarkerValue) :
    (st.insertMarker e id v m).markers = Function.update st.markers e
      (Function.update (st.markers e) id (vset (st.markers e id) v m)) := rfl

@[simp] theorem insertLock_objects (ref : ObjectRef) (l : Option LockDetails) :
    (st.insertLock ref l).objects = st.objects := rfl
@[simp] theorem insertLock_markers (ref : ObjectRef) (l : Option LockDetails) :
    (st.insertLock ref l).markers = st.markers := rfl
@[simp] theorem insertLock_executedEffects (ref : ObjectRef) (l : Option LockDetails) :
    (st.insertLock ref l).executedEffects = st.executedEffects := rfl
@[simp] theorem insertLock_locks (ref : ObjectRef) (l : Option LockDetails) :
    (st.insertLock ref l).locks =
      Function.update st.locks ref.id (vset (st.locks ref.id) (ref.version, ref.digest) l) := rfl

@[simp] theorem deleteLock_objects (ref : ObjectRef) : (st.deleteLock ref).objects = st.objects :=
  rfl
@[simp] theorem deleteLock_markers (ref : ObjectRef) : (st.deleteLock ref).markers = st.markers :=
  rfl
@[simp] theorem deleteLock_executedEffects (ref : ObjectRef) :
    (st.deleteLock ref).executedEffects = st.executedEffects := rfl
@[simp] theorem deleteLock_locks (ref : ObjectRef) :
    (st.deleteLock ref).locks =
      Function.update st.locks ref.id (verase (st.locks ref.id) (ref.version, ref.digest)) := rfl

@[simp] theorem insertExecutedEffects_objects (d : Nat) (e : TransactionEffects) :
    (st.insertExecutedEffects d e).objects = st.objects := rfl
@[simp] theorem insertExecutedEffects_markers (d : Nat) (e : TransactionEffects) :
    (st.insertExecutedEffects d e).markers = st.markers := rfl
@[simp] theorem insertExecutedEffects_locks (d : Nat) (e : TransactionEffects) :
    (st.insertExecutedEffects d e).locks = st.locks := rfl
@[simp] theorem insertExecutedEffects_executedEffects (d : Nat) (e : TransactionEffects) :
    (st.insertExecutedEffects d e).executedEffects =
      Function.update st.executedEffects d (some e) := rfl

@[simp] theorem deleteExecutedEffects_objects (d : Nat) :
    (st.deleteExecutedEffects d).objects = st.objects := rfl
@[simp] theorem deleteExecutedEffects_markers (d : Nat) :
    (st.deleteExecutedEffects d).markers = st.markers := rfl
@[simp] theorem deleteExecutedEffects_locks (d : Nat) :
    (st.deleteExecutedEffects d).locks = st.locks := rfl
@[simp] theorem deleteExecutedEffects_executedEffects (d : Nat) :
    (st.deleteExecutedEffects d).executedEffects = Function.update st.executedEffects d none := rfl

end Frame

/-! ## Reads by key -/

section Reads

variable {st}

end Reads

end ObjectStore

end Mango.Core
