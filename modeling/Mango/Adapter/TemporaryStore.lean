/-
  Mango.Adapter.TemporaryStore

  The store a transaction executes against (`mgo-adapter/src/temporary_store.rs`)
  and the results it gathers (`ExecutionResultsV2`, `crates/mgo-types/src/execution.rs`):
  the input objects, the lamport version the transaction writes at, the
  mutable inputs, and the objects written, modified, created and deleted.
  At the end of execution every mutable input is marked mutated, storage is
  tracked for every object written or only modified, and
  `check_mgo_conserved` checks that the rebates the modified objects held went
  to the sender's rebate and the non-refundable fee, and that the storage
  charged went into the rebates of the objects written.

  Maps and sets are lists with each key once, which `ExecutionResultsV2` and
  `TemporaryStore` carry as fields. The sizes of objects are a parameter
  (`objectSize`, the code's `object_size_for_gas_metering`). Left out: the
  events (dropped with the writes, hashed into the effects), the containers
  of wrapped objects and the authentication of mutated objects, which only
  check. An object's digest is a field of the model, which the version
  update does not recompute.
-/
import Mathlib
import Mango.Lib.VersionTable
import Mango.Lib.List
import Mango.Core.Transaction
import Mango.Adapter.Gas

namespace Mango.Adapter

open Mango.Lib Mango.Core

/-- `DynamicallyLoadedObjectMetadata`: an object as it was before the
    transaction modified it. -/
structure DynamicallyLoadedObjectMetadata where
  version : Nat
  digest : Nat
  owner : Owner
  storageRebate : Nat
  previousTransaction : Nat
  deriving DecidableEq, Repr

/-! ## Execution results -/

/-- `ExecutionResultsV2` without the events: the objects written, each under
    its own id, and the ids modified (inputs written, deleted or wrapped),
    created and deleted, each once. -/
structure ExecutionResultsV2 where
  writtenObjects : List (Nat × Object)
  modifiedObjects : List Nat
  createdObjectIds : List Nat
  deletedObjectIds : List Nat
  written_id : ∀ p ∈ writtenObjects, p.2.id = p.1
  written_nodup : (writtenObjects.map (·.1)).Nodup
  modified_nodup : modifiedObjects.Nodup
  created_nodup : createdObjectIds.Nodup
  deleted_nodup : deletedObjectIds.Nodup

namespace ExecutionResultsV2

/-- `ExecutionResultsV2::default()`. -/
def empty : ExecutionResultsV2 :=
  ⟨[], [], [], [], by simp, List.nodup_nil, List.nodup_nil, List.nodup_nil, List.nodup_nil⟩

/-- `drop_writes`: the writes, modifications, creations and deletions are
    dropped (and the events). -/
def dropWrites (_r : ExecutionResultsV2) : ExecutionResultsV2 := empty

variable (r : ExecutionResultsV2)

/-- `modified_objects.insert(id)`. -/
def insertModified (id : Nat) : ExecutionResultsV2 :=
  { r with modifiedObjects := r.modifiedObjects.insert id, modified_nodup := r.modified_nodup.insert }

/-- `written_objects.insert(id, object)`, with `id` the object's id. -/
def insertWritten (object : Object) : ExecutionResultsV2 :=
  { r with writtenObjects := vset r.writtenObjects object.id object
           written_id := by
             intro p hp
             rcases mem_vset.mp hp with rfl | ⟨hp, -⟩
             · rfl
             · exact r.written_id p hp
           written_nodup := nodup_map_vset r.written_nodup object.id object }

/-- `deleted_object_ids.insert(id)`. -/
def insertDeleted (id : Nat) : ExecutionResultsV2 :=
  { r with deletedObjectIds := r.deletedObjectIds.insert id, deleted_nodup := r.deleted_nodup.insert }

/-- The written objects replaced by objects of the same ids. -/
def setWrittenObjects (written : List (Nat × Object)) (hid : ∀ p ∈ written, p.2.id = p.1)
    (hkeys : written.map (·.1) = r.writtenObjects.map (·.1)) : ExecutionResultsV2 :=
  { r with writtenObjects := written, written_id := hid, written_nodup := hkeys ▸ r.written_nodup }

/-- What `update_version_and_previous_tx` makes of one written object: a Move
    object is written at the lamport version, a modified package (a system
    package) at its next version; a shared object created here is shared from
    the lamport version; and the transaction is its previous transaction. The
    code asserts that a created shared object's initial version is still blank;
    the model does not check it. -/
def updatedObject (lamportVersion prevTx id : Nat) (obj : Object) : Object :=
  let version := match obj.data with
    | .move .. => lamportVersion
    | .package => if id ∈ r.modifiedObjects then obj.version + 1 else obj.version
  let owner := match obj.owner with
    | .shared _ => if id ∈ r.createdObjectIds then .shared lamportVersion else obj.owner
    | owner => owner
  { obj with version := version, owner := owner, previousTransaction := prevTx }

/-- `update_version_and_previous_tx`. -/
def updateVersionAndPreviousTx (lamportVersion prevTx : Nat) : ExecutionResultsV2 :=
  r.setWrittenObjects
    (r.writtenObjects.map fun p => (p.1, r.updatedObject lamportVersion prevTx p.1 p.2))
    (by
      simp only [List.mem_map]
      rintro _ ⟨p, hp, rfl⟩
      exact r.written_id p hp)
    (by simp [List.map_map, Function.comp_def])

/-- `merge_results`: the written objects extended by the new ones, which
    replace those of the same id, and the sets of ids extended (and the
    events). -/
def mergeResults (newResults : ExecutionResultsV2) : ExecutionResultsV2 where
  writtenObjects := newResults.writtenObjects.foldl (fun m p => vset m p.1 p.2) r.writtenObjects
  modifiedObjects := newResults.modifiedObjects ∪ r.modifiedObjects
  createdObjectIds := newResults.createdObjectIds ∪ r.createdObjectIds
  deletedObjectIds := newResults.deletedObjectIds ∪ r.deletedObjectIds
  written_id := by
    intro p hp
    rcases mem_foldl_vset hp with hp | hp
    · exact newResults.written_id p hp
    · exact r.written_id p hp
  written_nodup := (foldl_vset_keys _ r.written_nodup).1
  modified_nodup := r.modified_nodup.union _
  created_nodup := r.created_nodup.union _
  deleted_nodup := r.deleted_nodup.union _

@[simp] theorem insertModified_modifiedObjects (id : Nat) :
    (r.insertModified id).modifiedObjects = r.modifiedObjects.insert id := rfl

@[simp] theorem insertModified_writtenObjects (id : Nat) :
    (r.insertModified id).writtenObjects = r.writtenObjects := rfl

@[simp] theorem insertModified_createdObjectIds (id : Nat) :
    (r.insertModified id).createdObjectIds = r.createdObjectIds := rfl

@[simp] theorem insertModified_deletedObjectIds (id : Nat) :
    (r.insertModified id).deletedObjectIds = r.deletedObjectIds := rfl

@[simp] theorem insertWritten_modifiedObjects (o : Object) :
    (r.insertWritten o).modifiedObjects = r.modifiedObjects := rfl

@[simp] theorem insertWritten_writtenObjects (o : Object) :
    (r.insertWritten o).writtenObjects = vset r.writtenObjects o.id o := rfl

@[simp] theorem insertWritten_createdObjectIds (o : Object) :
    (r.insertWritten o).createdObjectIds = r.createdObjectIds := rfl

@[simp] theorem insertWritten_deletedObjectIds (o : Object) :
    (r.insertWritten o).deletedObjectIds = r.deletedObjectIds := rfl

@[simp] theorem insertDeleted_modifiedObjects (id : Nat) :
    (r.insertDeleted id).modifiedObjects = r.modifiedObjects := rfl

@[simp] theorem insertDeleted_writtenObjects (id : Nat) :
    (r.insertDeleted id).writtenObjects = r.writtenObjects := rfl

@[simp] theorem insertDeleted_createdObjectIds (id : Nat) :
    (r.insertDeleted id).createdObjectIds = r.createdObjectIds := rfl

@[simp] theorem insertDeleted_deletedObjectIds (id : Nat) :
    (r.insertDeleted id).deletedObjectIds = r.deletedObjectIds.insert id := rfl

@[simp] theorem setWrittenObjects_writtenObjects (w : List (Nat × Object)) (hid hkeys) :
    (r.setWrittenObjects w hid hkeys).writtenObjects = w := rfl

@[simp] theorem setWrittenObjects_modifiedObjects (w : List (Nat × Object)) (hid hkeys) :
    (r.setWrittenObjects w hid hkeys).modifiedObjects = r.modifiedObjects := rfl

@[simp] theorem setWrittenObjects_createdObjectIds (w : List (Nat × Object)) (hid hkeys) :
    (r.setWrittenObjects w hid hkeys).createdObjectIds = r.createdObjectIds := rfl

@[simp] theorem setWrittenObjects_deletedObjectIds (w : List (Nat × Object)) (hid hkeys) :
    (r.setWrittenObjects w hid hkeys).deletedObjectIds = r.deletedObjectIds := rfl

@[simp] theorem mem_mergeResults_writtenObjects_keys (r' : ExecutionResultsV2) (id : Nat) :
    id ∈ (r.mergeResults r').writtenObjects.map (·.1) ↔
      id ∈ r'.writtenObjects.map (·.1) ∨ id ∈ r.writtenObjects.map (·.1) := by
  rw [mergeResults, (foldl_vset_keys _ r.written_nodup).2 id]
  exact Or.comm

@[simp] theorem mergeResults_modifiedObjects (r' : ExecutionResultsV2) :
    (r.mergeResults r').modifiedObjects = r'.modifiedObjects ∪ r.modifiedObjects := rfl

@[simp] theorem mergeResults_createdObjectIds (r' : ExecutionResultsV2) :
    (r.mergeResults r').createdObjectIds = r'.createdObjectIds ∪ r.createdObjectIds := rfl

@[simp] theorem mergeResults_deletedObjectIds (r' : ExecutionResultsV2) :
    (r.mergeResults r').deletedObjectIds = r'.deletedObjectIds ∪ r.deletedObjectIds := rfl

@[simp] theorem empty_writtenObjects : empty.writtenObjects = [] := rfl
@[simp] theorem empty_modifiedObjects : empty.modifiedObjects = [] := rfl
@[simp] theorem empty_createdObjectIds : empty.createdObjectIds = [] := rfl
@[simp] theorem empty_deletedObjectIds : empty.deletedObjectIds = [] := rfl

@[simp] theorem dropWrites_eq : r.dropWrites = empty := rfl

end ExecutionResultsV2

/-! ## The store -/

/-- `TemporaryStore`, with the backing store read only for the system packages
    a transaction modifies (`store.get_package_object`, which the code unwraps).
    The input objects and the mutable inputs are maps from the same inputs, so
    every mutable input is an input object, and an input object is keyed by its
    own id. -/
structure TemporaryStore where
  txDigest : Nat
  inputObjects : List (Nat × Object)
  lamportTimestamp : Nat
  mutableInputRefs : List (Nat × ((Nat × Nat) × Owner))
  executionResults : ExecutionResultsV2
  loadedRuntimeObjects : List (Nat × DynamicallyLoadedObjectMetadata)
  receivingObjects : List ObjectRef
  systemPackage : Nat → Object
  inputs_nodup : (inputObjects.map (·.1)).Nodup
  mutable_nodup : (mutableInputRefs.map (·.1)).Nodup
  mutable_input : ∀ id ∈ mutableInputRefs.map (·.1), id ∈ inputObjects.map (·.1)
  input_id : ∀ p ∈ inputObjects, p.2.id = p.1

namespace TemporaryStore

/-- An object read is keyed by its own id. -/
theorem intoObjectMap_id (inputs : InputObjects) : ∀ p ∈ inputs.intoObjectMap, p.2.id = p.1 := by
  -- a collected map holds pairs of the list it was collected from
  have hcollect : ∀ (l m : List (Nat × Object)), (∀ p ∈ m, p.2.id = p.1) →
      (∀ p ∈ l, p.2.id = p.1) → ∀ p ∈ l.foldl (fun m p => vset m p.1 p.2) m, p.2.id = p.1 := by
    intro l
    induction l with
    | nil => intro m hm _; simpa using hm
    | cons q rest ih =>
      intro m hm hl
      apply ih
      · intro p hp
        rcases mem_vset.mp hp with rfl | ⟨hp, -⟩
        · exact hl q List.mem_cons_self
        · exact hm p hp
      · exact fun p hp => hl p (List.mem_cons_of_mem _ hp)
  apply hcollect _ [] (by simp)
  intro p hp
  obtain ⟨r, -, hr⟩ := List.mem_filterMap.mp hp
  obtain ⟨o, ho, rfl⟩ := Option.map_eq_some_iff.mp hr
  exact r.object_id o (ObjectReadResult.asObject_eq_some.mp ho)

/-- `TemporaryStore::new`: nothing written yet, at the lamport version of the
    inputs and the objects to receive; `none` is the panic of a version at
    its maximum. -/
def new (inputObjects : InputObjects) (receivingObjects : List ObjectRef) (txDigest : Nat)
    (systemPackage : Nat → Object) : Option TemporaryStore := do
  let lamportTimestamp ← inputObjects.lamportTimestamp receivingObjects
  pure
    { txDigest := txDigest
      inputObjects := inputObjects.intoObjectMap
      lamportTimestamp := lamportTimestamp
      mutableInputRefs := inputObjects.mutableInputs
      executionResults := .empty
      loadedRuntimeObjects := []
      receivingObjects := receivingObjects
      systemPackage := systemPackage
      inputs_nodup := nodup_map_collectMap _
      mutable_nodup := nodup_map_collectMap _
      mutable_input := fun _ h => inputObjects.mem_intoObjectMap_of_mem_mutableInputs h
      input_id := intoObjectMap_id inputObjects }

variable (s : TemporaryStore)

/-- The store with other execution results. -/
def withResults (r : ExecutionResultsV2) : TemporaryStore := { s with executionResults := r }

/-- `mutate_input_object`. -/
def mutateInputObject (object : Object) : TemporaryStore :=
  s.withResults ((s.executionResults.insertModified object.id).insertWritten object)

/-- `delete_input_object`. -/
def deleteInputObject (id : Nat) : TemporaryStore :=
  s.withResults ((s.executionResults.insertModified id).insertDeleted id)

/-- `drop_writes`. -/
def dropWrites : TemporaryStore := s.withResults s.executionResults.dropWrites

/-- `record_execution_results`: the results of a programmable transaction merged
    into those the store holds, as it may run more than once. -/
def recordExecutionResults (results : ExecutionResultsV2) : TemporaryStore :=
  s.withResults (s.executionResults.mergeResults results)

/-- `read_object`: the object written, else the input object. -/
def readObject (id : Nat) : Option Object :=
  match vget s.executionResults.writtenObjects id with
  | some object => some object
  | none => vget s.inputObjects id

/-- `ensure_active_inputs_mutated`: every mutable input not modified yet is
    written back as it was read. -/
def ensureActiveInputsMutated : TemporaryStore :=
  let toBeUpdated := s.mutableInputRefs.filterMap fun p =>
    if p.1 ∈ s.executionResults.modifiedObjects then none
    -- `self.input_objects[id]`, an input object by `mutable_input`
    else vget s.inputObjects p.1
  toBeUpdated.foldl (fun store object => store.mutateInputObject object) s

/-- The metadata `get_object_modified_at` gives a modified object: a mutable
    input as it was read, else a child object as it was loaded, else the system
    package the backing store holds. -/
def modifiedAtMetadata (objectId : Nat) : DynamicallyLoadedObjectMetadata :=
  match vget s.mutableInputRefs objectId, vget s.inputObjects objectId with
  | some ((version, digest), owner), some object =>
    ⟨version, digest, owner, object.storageRebate, object.previousTransaction⟩
  -- a mutable input is an input object (`mutable_input`)
  | _, _ =>
    match vget s.loadedRuntimeObjects objectId with
    | some metadata => metadata
    | none =>
      let obj := s.systemPackage objectId
      ⟨obj.version, obj.digest, obj.owner, obj.storageRebate, obj.previousTransaction⟩

/-- `get_object_modified_at`: the metadata of an object the transaction
    modified, nothing for any other. -/
def getObjectModifiedAt (objectId : Nat) : Option DynamicallyLoadedObjectMetadata :=
  if objectId ∈ s.executionResults.modifiedObjects then some (s.modifiedAtMetadata objectId)
  else none

/-- The loop of `collect_storage_and_rebate` over the written objects, each with
    the rebate it held before: track its storage, and give it its new cost as
    its rebate. -/
def trackWrittenObjects (objectSize : Object → Nat) (gc : GasCharger) :
    List ((Nat × Object) × Nat) → List (Nat × Object) × GasCharger
  | [] => ([], gc)
  | ((id, object), oldStorageRebate) :: rest =>
    let tracked := gc.trackStorageMutation object.id (objectSize object) oldStorageRebate
    let written := trackWrittenObjects objectSize tracked.1 rest
    ((id, { object with storageRebate := tracked.2 }) :: written.1, written.2)

/-- The loop keeps the ids of the written objects. -/
theorem trackWrittenObjects_keys (objectSize : Object → Nat) (gc : GasCharger)
    (l : List ((Nat × Object) × Nat)) :
    (trackWrittenObjects objectSize gc l).1.map (·.1) = l.map (·.1.1) := by
  induction l generalizing gc with
  | nil => rfl
  | cons e rest ih =>
    obtain ⟨⟨id, object⟩, old⟩ := e
    simp [trackWrittenObjects, ih]

/-- The loop changes only the rebates of the written objects. -/
theorem trackWrittenObjects_mem (objectSize : Object → Nat) (gc : GasCharger)
    (l : List ((Nat × Object) × Nat)) :
    ∀ p ∈ (trackWrittenObjects objectSize gc l).1,
      ∃ e ∈ l, p.1 = e.1.1 ∧ p.2 = { e.1.2 with storageRebate := p.2.storageRebate } := by
  induction l generalizing gc with
  | nil => simp [trackWrittenObjects]
  | cons e rest ih =>
    obtain ⟨⟨id, object⟩, old⟩ := e
    intro p hp
    simp only [trackWrittenObjects, List.mem_cons] at hp
    rcases hp with rfl | hp
    · exact ⟨((id, object), old), List.mem_cons_self, rfl, rfl⟩
    · obtain ⟨e, he, hkey, hobj⟩ := ih _ p hp
      exact ⟨e, List.mem_cons_of_mem _ he, hkey, hobj⟩

/-- The loop changes only the rebates of the written objects: their contents stay. -/
theorem trackWrittenObjects_data (objectSize : Object → Nat) (gc : GasCharger)
    (l : List ((Nat × Object) × Nat)) :
    (trackWrittenObjects objectSize gc l).1.map (fun p => (p.1, p.2.data)) =
      l.map fun e => (e.1.1, e.1.2.data) := by
  induction l generalizing gc with
  | nil => rfl
  | cons e rest ih =>
    obtain ⟨⟨id, object⟩, old⟩ := e
    simp [trackWrittenObjects, ih]

/-- The loop only tracks storage. -/
theorem trackWrittenObjects_tracked (objectSize : Object → Nat) (gc : GasCharger)
    (l : List ((Nat × Object) × Nat)) :
    GasCharger.Tracked gc (trackWrittenObjects objectSize gc l).2 := by
  induction l generalizing gc with
  | nil => exact .refl gc
  | cons e rest ih =>
    obtain ⟨⟨id, object⟩, old⟩ := e
    exact (GasCharger.tracked_trackStorageMutation gc _ _ _).trans (ih _)

/-- What the loop tracks on a metered meter: the old rebate of each object, and
    the new cost of each, which the object is written with. -/
theorem trackWrittenObjects_spec (objectSize : Object → Nat) (gc : GasCharger)
    (hcharge : gc.gasStatus.charge = true) (l : List ((Nat × Object) × Nat)) :
    (trackWrittenObjects objectSize gc l).2.gasStatus.storageRebate =
        gc.gasStatus.storageRebate + (l.map (·.2)).sum ∧
      (trackWrittenObjects objectSize gc l).2.gasStatus.storageGasUnits =
        gc.gasStatus.storageGasUnits +
          ((trackWrittenObjects objectSize gc l).1.map (·.2.storageRebate)).sum := by
  induction l generalizing gc with
  | nil => exact ⟨by simp [trackWrittenObjects], by simp [trackWrittenObjects]⟩
  | cons e rest ih =>
    obtain ⟨⟨id, object⟩, old⟩ := e
    -- the head is tracked first, the rest from the charger it leaves
    have hstep := GasCharger.tracked_trackStorageMutation gc object.id (objectSize object) old
    obtain ⟨hR, hC⟩ := ih _ (hstep.charge.trans hcharge)
    have hR₀ := gc.gasStatus.trackStorageMutation_storageRebate hcharge object.id (objectSize object) old
    have hC₀ := gc.gasStatus.trackStorageMutation_storageGasUnits hcharge object.id (objectSize object) old
    constructor
    · simp only [trackWrittenObjects, List.map_cons, List.sum_cons]
      rw [hR, GasCharger.trackStorageMutation_fst_gasStatus, hR₀]
      omega
    · simp only [trackWrittenObjects, List.map_cons, List.sum_cons]
      rw [hC, GasCharger.trackStorageMutation_fst_gasStatus, hC₀,
        GasCharger.trackStorageMutation_snd]
      omega

/-- `collect_rebate`: every object modified and not written (deleted or
    wrapped) gives back the rebate it held, at no cost. -/
def collectRebate (gc : GasCharger) : GasCharger :=
  s.executionResults.modifiedObjects.foldl (fun gc objectId =>
    if (vget s.executionResults.writtenObjects objectId).isSome then gc
    else
      match s.getObjectModifiedAt objectId with
      | some metadata => (gc.trackStorageMutation objectId 0 metadata.storageRebate).1
      -- `unwrap`: a modified object has its metadata
      | none => gc) gc

/-- The rebates the written objects held before, as `collect_storage_and_rebate`
    reads them: nothing for an object not modified. -/
def oldStorageRebates : List Nat :=
  s.executionResults.writtenObjects.map fun p =>
    ((s.getObjectModifiedAt p.1).map (·.storageRebate)).getD 0

theorem length_oldStorageRebates :
    s.oldStorageRebates.length = s.executionResults.writtenObjects.length := by
  simp [oldStorageRebates]

/-- `collect_rebate` only tracks storage, at no cost. -/
theorem collectRebate_tracked (gc : GasCharger) :
    GasCharger.Tracked gc (s.collectRebate gc) ∧
      (s.collectRebate gc).gasStatus.storageGasUnits = gc.gasStatus.storageGasUnits := by
  unfold collectRebate
  generalize s.executionResults.modifiedObjects = L
  induction L generalizing gc with
  | nil => exact ⟨.refl gc, rfl⟩
  | cons m rest ih =>
    rw [List.foldl_cons]
    refine ⟨GasCharger.Tracked.trans ?_ (ih _).1, (ih _).2.trans ?_⟩
    · -- one object: its rebate tracked, or nothing
      split
      · exact .refl gc
      · split
        · exact GasCharger.tracked_trackStorageMutation gc _ _ _
        · exact .refl gc
    · split
      · rfl
      · split
        · exact gc.gasStatus.trackStorageMutation_zero_storageGasUnits _ _
        · rfl

/-- What `collect_rebate` tracks on a metered meter: the rebates of the objects
    modified and not written. -/
theorem collectRebate_spec (gc : GasCharger) (hcharge : gc.gasStatus.charge = true) :
    (s.collectRebate gc).gasStatus.storageRebate = gc.gasStatus.storageRebate +
      ((s.executionResults.modifiedObjects.filter
        (· ∉ s.executionResults.writtenObjects.map (·.1))).map
          fun m => (s.modifiedAtMetadata m).storageRebate).sum := by
  unfold collectRebate
  -- the loop runs over modified objects only, each with its metadata
  have hmeta : ∀ m ∈ s.executionResults.modifiedObjects,
      s.getObjectModifiedAt m = some (s.modifiedAtMetadata m) :=
    fun m hm => by simp [getObjectModifiedAt, hm]
  generalize s.executionResults.modifiedObjects = L at hmeta ⊢
  induction L generalizing gc with
  | nil => simp
  | cons m rest ih =>
    rw [List.foldl_cons]
    by_cases hw : (vget s.executionResults.writtenObjects m).isSome
    · -- written: nothing to give back
      have hmem : m ∈ s.executionResults.writtenObjects.map (·.1) := (vget_isSome_iff _ _).mp hw
      simp only [hw, if_true]
      rw [ih gc hcharge fun m' hm' => hmeta m' (List.mem_cons_of_mem _ hm')]
      simp [hmem]
    · -- deleted or wrapped: its rebate comes back
      have hmem : m ∉ s.executionResults.writtenObjects.map (·.1) :=
        fun h => hw ((vget_isSome_iff _ _).mpr h)
      have hstep := GasCharger.tracked_trackStorageMutation gc m 0 (s.modifiedAtMetadata m).storageRebate
      have hR₀ := gc.gasStatus.trackStorageMutation_storageRebate hcharge m 0
        (s.modifiedAtMetadata m).storageRebate
      simp only [hw, Bool.false_eq_true, if_false, hmeta m List.mem_cons_self]
      rw [ih _ (hstep.charge.trans hcharge) fun m' hm' => hmeta m' (List.mem_cons_of_mem _ hm'),
        GasCharger.trackStorageMutation_fst_gasStatus, hR₀]
      simp [hmem]
      omega

/-- `collect_storage_and_rebate`: track every written object at its new size
    against its old rebate and give it its new cost as its rebate; then
    `collect_rebate`. -/
def collectStorageAndRebate (objectSize : Object → Nat) (gc : GasCharger) :
    TemporaryStore × GasCharger :=
  let tracked := trackWrittenObjects objectSize gc
    (s.executionResults.writtenObjects.zip s.oldStorageRebates)
  let s' := s.withResults (s.executionResults.setWrittenObjects tracked.1
    (by
      intro p hp
      obtain ⟨e, he, hkey, hobj⟩ := trackWrittenObjects_mem objectSize gc _ p hp
      rw [hobj, hkey]
      exact s.executionResults.written_id e.1 (List.of_mem_zip he).1)
    (by
    rw [trackWrittenObjects_keys,
      show (fun e : (Nat × Object) × Nat => e.1.1) = (·.1) ∘ Prod.fst from rfl, ← List.map_map,
      List.map_fst_zip (by rw [length_oldStorageRebates])]))
  (s', s'.collectRebate tracked.2)

/-- `get_modified_objects`: each modified object with its metadata and what was
    written of it, then each object written and not modified. -/
def getModifiedObjects : List (Nat × Option DynamicallyLoadedObjectMetadata × Option Object) :=
  s.executionResults.modifiedObjects.map (fun id =>
      (id, s.getObjectModifiedAt id, vget s.executionResults.writtenObjects id)) ++
    s.executionResults.writtenObjects.filterMap fun p =>
      if p.1 ∈ s.executionResults.modifiedObjects then none else some (p.1, none, some p.2)

/-- The rebates of the modified objects, as they were before the transaction. -/
def totalInputRebate : Nat :=
  (s.getModifiedObjects.map fun e => (e.2.1.map (·.storageRebate)).getD 0).sum

/-- The rebates of the objects written. -/
def totalOutputRebate : Nat :=
  (s.getModifiedObjects.map fun e => (e.2.2.map (·.storageRebate)).getD 0).sum

/-- `check_mgo_conserved`: without storage charges the input rebates are the
    output rebates with the sender's rebate and the non-refundable fee; with
    them, the input rebates are the sender's rebate with the fee, and the
    storage charged is the output rebates. -/
def checkMgoConserved (simpleConservationChecks : Bool) (gasSummary : GasCostSummary) :
    Except ExecutionError Unit :=
  if !simpleConservationChecks then .ok ()
  else if gasSummary.storageCost = 0 then
    if s.totalInputRebate ≠
        s.totalOutputRebate + gasSummary.storageRebate + gasSummary.nonRefundableStorageFee then
      .error (.invariantViolation ("MGO conservation failed -- no storage charges in gas summary " ++
        "and total storage input rebate " ++ toString s.totalInputRebate ++ " not equal  " ++
        "to total storage output rebate " ++ toString s.totalOutputRebate))
    else .ok ()
  else if s.totalInputRebate ≠ gasSummary.storageRebate + gasSummary.nonRefundableStorageFee then
    .error (.invariantViolation ("MGO conservation failed -- " ++ toString s.totalInputRebate ++
      " MGO in storage rebate field of input objects, " ++
      toString gasSummary.nonRefundableStorageFee ++
      " MGO in tx storage rebate or tx non-refundable storage rebate"))
  else if gasSummary.storageCost ≠ s.totalOutputRebate then
    .error (.invariantViolation ("MGO conservation failed -- " ++ toString gasSummary.storageCost ++
      " MGO charged for storage, " ++ toString s.totalOutputRebate ++
      " MGO in storage rebate field of output objects"))
  else .ok ()

/-- `update_object_version_and_prev_tx`. -/
def updateObjectVersionAndPrevTx : TemporaryStore :=
  s.withResults (s.executionResults.updateVersionAndPreviousTx s.lamportTimestamp s.txDigest)

/-! ### Reading the store -/

@[simp] theorem withResults_executionResults (r : ExecutionResultsV2) :
    (s.withResults r).executionResults = r := rfl

@[simp] theorem withResults_inputObjects (r : ExecutionResultsV2) :
    (s.withResults r).inputObjects = s.inputObjects := rfl

@[simp] theorem withResults_mutableInputRefs (r : ExecutionResultsV2) :
    (s.withResults r).mutableInputRefs = s.mutableInputRefs := rfl

@[simp] theorem withResults_lamportTimestamp (r : ExecutionResultsV2) :
    (s.withResults r).lamportTimestamp = s.lamportTimestamp := rfl

@[simp] theorem withResults_txDigest (r : ExecutionResultsV2) :
    (s.withResults r).txDigest = s.txDigest := rfl

@[simp] theorem withResults_receivingObjects (r : ExecutionResultsV2) :
    (s.withResults r).receivingObjects = s.receivingObjects := rfl

@[simp] theorem withResults_loadedRuntimeObjects (r : ExecutionResultsV2) :
    (s.withResults r).loadedRuntimeObjects = s.loadedRuntimeObjects := rfl

@[simp] theorem withResults_modifiedAtMetadata (r : ExecutionResultsV2) :
    (s.withResults r).modifiedAtMetadata = s.modifiedAtMetadata := rfl

@[simp] theorem withResults_withResults (r r' : ExecutionResultsV2) :
    (s.withResults r).withResults r' = s.withResults r' := rfl

@[simp] theorem recordExecutionResults_executionResults (r : ExecutionResultsV2) :
    (s.recordExecutionResults r).executionResults = s.executionResults.mergeResults r := rfl

@[simp] theorem recordExecutionResults_mutableInputRefs (r : ExecutionResultsV2) :
    (s.recordExecutionResults r).mutableInputRefs = s.mutableInputRefs := rfl

/-- An object read is the object of its id. -/
theorem readObject_id {id : Nat} {o : Object} (h : s.readObject id = some o) : o.id = id := by
  unfold readObject at h
  split at h
  · rename_i object hw
    rw [Option.some_inj] at h
    rw [← h]
    exact s.executionResults.written_id (id, object) (mem_of_vget_eq_some hw)
  · exact s.input_id (id, o) (mem_of_vget_eq_some h)

/-- After recording, an object the new results wrote reads as written, and any
    other as before. -/
theorem readObject_recordExecutionResults (r : ExecutionResultsV2) (id : Nat) :
    (s.recordExecutionResults r).readObject id =
      match vget r.writtenObjects id with
      | some object => some object
      | none => s.readObject id := by
  simp only [readObject, recordExecutionResults, withResults_executionResults,
    withResults_inputObjects, ExecutionResultsV2.mergeResults,
    vget_foldl_vset r.written_nodup]
  cases vget r.writtenObjects id <;> rfl

theorem getObjectModifiedAt_of_mem {id : Nat} (h : id ∈ s.executionResults.modifiedObjects) :
    s.getObjectModifiedAt id = some (s.modifiedAtMetadata id) := by
  simp [getObjectModifiedAt, h]

/-- A mutable input that is an input object has the rebate it was read with. -/
theorem modifiedAtMetadata_of_mutable {id : Nat} {ref : (Nat × Nat) × Owner} {o : Object}
    (href : vget s.mutableInputRefs id = some ref) (ho : vget s.inputObjects id = some o) :
    (s.modifiedAtMetadata id).storageRebate = o.storageRebate := by
  simp [modifiedAtMetadata, href, ho]

/-! ### What the conservation check adds up -/

/-- The input rebates are the rebates the modified objects were read with. -/
theorem totalInputRebate_eq : s.totalInputRebate =
    (s.executionResults.modifiedObjects.map fun id => (s.modifiedAtMetadata id).storageRebate).sum := by
  unfold totalInputRebate getModifiedObjects
  rw [List.map_append, List.sum_append, List.map_map]
  -- the objects written and not modified read as new
  have hnew : ((s.executionResults.writtenObjects.filterMap fun p =>
      if p.1 ∈ s.executionResults.modifiedObjects then none else some (p.1, none, some p.2)).map
        fun (e : Nat × Option DynamicallyLoadedObjectMetadata × Option Object) =>
          (e.2.1.map (·.storageRebate)).getD 0).sum = 0 := by
    apply List.sum_eq_zero
    intro x hx
    obtain ⟨e, he, rfl⟩ := List.mem_map.mp hx
    obtain ⟨p, -, hp⟩ := List.mem_filterMap.mp he
    split at hp
    · cases hp
    · cases hp
      rfl
  rw [hnew, Nat.add_zero]
  congr 1
  apply List.map_congr_left
  intro id hid
  simp [getObjectModifiedAt_of_mem s hid]

/-- The objects written and not modified, as `get_modified_objects` lists them,
    hold the rebates of those objects. -/
theorem sum_new_rebates (W : List (Nat × Object)) (M : List Nat) :
    ((W.filterMap fun p => if p.1 ∈ M then none else
        some (p.1, (none : Option DynamicallyLoadedObjectMetadata), some p.2)).map
      fun e => (e.2.2.map (·.storageRebate)).getD 0).sum =
      ((W.filter fun p => p.1 ∉ M).map (·.2.storageRebate)).sum := by
  induction W with
  | nil => rfl
  | cons p rest ih =>
    by_cases hp : p.1 ∈ M <;> simp [hp, ih]

/-- The output rebates are the rebates of the objects written. -/
theorem totalOutputRebate_eq :
    s.totalOutputRebate = (s.executionResults.writtenObjects.map (·.2.storageRebate)).sum := by
  have hW := s.executionResults.written_nodup
  have hM := s.executionResults.modified_nodup
  -- the rebate an object is written with, by its id
  let f : Nat → Nat := fun k => ((vget s.executionResults.writtenObjects k).map (·.storageRebate)).getD 0
  have hf : ∀ p ∈ s.executionResults.writtenObjects, f p.1 = p.2.storageRebate := by
    intro p hp
    simp [f, vget_of_mem_nodup hW hp]
  have hmodified : (s.executionResults.modifiedObjects.map fun id =>
      ((vget s.executionResults.writtenObjects id).map (·.storageRebate)).getD 0) =
      s.executionResults.modifiedObjects.map fun k =>
        if k ∈ s.executionResults.writtenObjects.map (·.1) then f k else 0 := by
    apply List.map_congr_left
    intro k _
    by_cases hk : k ∈ s.executionResults.writtenObjects.map (·.1)
    · simp [hk, f]
    · have hnone : vget s.executionResults.writtenObjects k = none := by
        rw [← Option.not_isSome_iff_eq_none, vget_isSome_iff]
        exact hk
      simp [hk, hnone]
  have hnew : ((s.executionResults.writtenObjects.filter fun p =>
      p.1 ∉ s.executionResults.modifiedObjects).map (·.2.storageRebate)).sum =
      (((s.executionResults.writtenObjects.map (·.1)).filter
        (· ∉ s.executionResults.modifiedObjects)).map f).sum := by
    rw [List.filter_map, List.map_map]
    congr 1
    apply List.map_congr_left
    intro p hp
    exact (hf p (List.mem_of_mem_filter hp)).symm
  calc s.totalOutputRebate
      = (s.executionResults.modifiedObjects.map fun k =>
            if k ∈ s.executionResults.writtenObjects.map (·.1) then f k else 0).sum +
          (((s.executionResults.writtenObjects.map (·.1)).filter
            (· ∉ s.executionResults.modifiedObjects)).map f).sum := by
        unfold totalOutputRebate getModifiedObjects
        rw [List.map_append, List.sum_append, List.map_map, sum_new_rebates, hnew, ← hmodified]
        rfl
    _ = ((s.executionResults.writtenObjects.map (·.1)).map f).sum :=
        sum_ite_mem_add_sum_filter_not_mem f hM hW
    _ = (s.executionResults.writtenObjects.map (·.2.storageRebate)).sum := by
        rw [List.map_map]
        congr 1
        apply List.map_congr_left
        exact hf

/-! ### Mutating the inputs -/

section Ensure

/-- Mutating objects of distinct ids one after another: each is written and
    modified, and nothing else changes. -/
theorem foldl_mutateInputObject (L : List Object) (hL : (L.map (·.id)).Nodup)
    (st : TemporaryStore) :
    ∃ r, L.foldl (fun store object => store.mutateInputObject object) st = st.withResults r ∧
      (∀ id, id ∈ r.modifiedObjects ↔
        id ∈ st.executionResults.modifiedObjects ∨ id ∈ L.map (·.id)) ∧
      (∀ o ∈ L, vget r.writtenObjects o.id = some o) ∧
      (∀ id, id ∉ L.map (·.id) →
        vget r.writtenObjects id = vget st.executionResults.writtenObjects id) ∧
      r.createdObjectIds = st.executionResults.createdObjectIds ∧
      r.deletedObjectIds = st.executionResults.deletedObjectIds := by
  induction L generalizing st with
  | nil => exact ⟨st.executionResults, rfl, by simp, by simp, by simp, rfl, rfl⟩
  | cons o rest ih =>
    rw [List.map_cons, List.nodup_cons] at hL
    obtain ⟨r, hfold, hmod, hnew, hold, hcreated, hdeleted⟩ := ih hL.2 (st.mutateInputObject o)
    refine ⟨r, by rw [List.foldl_cons, hfold]; rfl, ?_, ?_, ?_, hcreated, hdeleted⟩
    · intro id
      rw [hmod id]
      simp [mutateInputObject, List.mem_insert_iff]
      tauto
    · intro o' ho'
      rcases List.mem_cons.mp ho' with rfl | ho'
      · rw [hold o'.id hL.1]
        simp [mutateInputObject]
      · exact hnew o' ho'
    · intro id hid
      rw [List.map_cons, List.mem_cons, not_or] at hid
      rw [hold id hid.2]
      simp [mutateInputObject, vget_vset_ne _ _ hid.1]

/-- Deleting inputs one after another: each is modified and deleted, and
    nothing is written. -/
theorem foldl_deleteInputObject (L : List ObjectRef) (st : TemporaryStore) :
    ∃ r, L.foldl (fun store ref => store.deleteInputObject ref.id) st = st.withResults r ∧
      (∀ id, id ∈ r.modifiedObjects ↔
        id ∈ st.executionResults.modifiedObjects ∨ id ∈ L.map (·.id)) ∧
      (∀ id, id ∈ r.deletedObjectIds ↔
        id ∈ st.executionResults.deletedObjectIds ∨ id ∈ L.map (·.id)) ∧
      r.writtenObjects = st.executionResults.writtenObjects ∧
      r.createdObjectIds = st.executionResults.createdObjectIds := by
  induction L generalizing st with
  | nil => exact ⟨st.executionResults, rfl, by simp, by simp, rfl, rfl⟩
  | cons ref rest ih =>
    obtain ⟨r, hfold, hmod, hdel, hwritten, hcreated⟩ := ih (st.deleteInputObject ref.id)
    refine ⟨r, by rw [List.foldl_cons, hfold]; rfl, ?_, ?_, hwritten, hcreated⟩
    · intro id
      rw [hmod id]
      simp [deleteInputObject, List.mem_insert_iff]
      tauto
    · intro id
      rw [hdel id]
      simp [deleteInputObject, List.mem_insert_iff]
      tauto

/-- The inputs `ensure_active_inputs_mutated` writes back: the mutable inputs
    not modified yet, each keyed by its id, each once. -/
theorem toBeUpdated_ids (st : TemporaryStore) :
    (st.mutableInputRefs.filterMap fun p =>
        if p.1 ∈ st.executionResults.modifiedObjects then none else vget st.inputObjects p.1).map
      (·.id) =
    (st.mutableInputRefs.filter fun p => p.1 ∉ st.executionResults.modifiedObjects).map (·.1) := by
  rw [List.map_filterMap]
  -- every mutable input reads an input object of its own id
  have hid : ∀ p ∈ st.mutableInputRefs,
      ((if p.1 ∈ st.executionResults.modifiedObjects then none else vget st.inputObjects p.1).map
        (·.id)) = if p.1 ∈ st.executionResults.modifiedObjects then none else some p.1 := by
    intro p hp
    split
    · rfl
    · obtain ⟨o, ho⟩ := Option.isSome_iff_exists.mp
        ((vget_isSome_iff _ _).mpr (st.mutable_input p.1 (List.mem_map_of_mem hp)))
      rw [ho, Option.map_some, st.input_id (p.1, o) (mem_of_vget_eq_some ho)]
  rw [List.filterMap_congr hid]
  clear hid
  induction st.mutableInputRefs with
  | nil => rfl
  | cons p rest ih =>
    by_cases hp : p.1 ∈ st.executionResults.modifiedObjects
    · simp [hp, ih]
    · simp [hp, ih]

/-- What `ensure_active_inputs_mutated` does: every mutable input is modified,
    and those not modified before are written as they were read. -/
theorem ensureActiveInputsMutated_spec (st : TemporaryStore) :
    ∃ r, st.ensureActiveInputsMutated = st.withResults r ∧
      (∀ id, id ∈ r.modifiedObjects ↔
        id ∈ st.executionResults.modifiedObjects ∨ id ∈ st.mutableInputRefs.map (·.1)) ∧
      (∀ id, id ∈ st.mutableInputRefs.map (·.1) → id ∉ st.executionResults.modifiedObjects →
        vget r.writtenObjects id = vget st.inputObjects id) ∧
      (∀ id, (id ∈ st.mutableInputRefs.map (·.1) → id ∈ st.executionResults.modifiedObjects) →
        vget r.writtenObjects id = vget st.executionResults.writtenObjects id) ∧
      r.createdObjectIds = st.executionResults.createdObjectIds ∧
      r.deletedObjectIds = st.executionResults.deletedObjectIds := by
  have hids := toBeUpdated_ids st
  have hnodup : ((st.mutableInputRefs.filterMap fun p =>
      if p.1 ∈ st.executionResults.modifiedObjects then none else vget st.inputObjects p.1).map
        (·.id)).Nodup := by
    rw [hids]
    exact st.mutable_nodup.sublist ((List.filter_sublist).map _)
  -- an id is written back exactly when it is a mutable input not modified
  have hmem : ∀ id, id ∈ (st.mutableInputRefs.filterMap fun p =>
      if p.1 ∈ st.executionResults.modifiedObjects then none else vget st.inputObjects p.1).map
        (·.id) ↔ id ∈ st.mutableInputRefs.map (·.1) ∧ id ∉ st.executionResults.modifiedObjects := by
    intro id
    rw [hids]
    simp only [List.mem_map, List.mem_filter, decide_eq_true_eq]
    constructor
    · rintro ⟨p, ⟨hp, hpm⟩, rfl⟩
      exact ⟨⟨p, hp, rfl⟩, hpm⟩
    · rintro ⟨⟨p, hp, rfl⟩, hpm⟩
      exact ⟨p, ⟨hp, hpm⟩, rfl⟩
  obtain ⟨r, hfold, hmod, hnew, hold, hcreated, hdeleted⟩ :=
    foldl_mutateInputObject _ hnodup st
  refine ⟨r, hfold, ?_, ?_, ?_, hcreated, hdeleted⟩
  · intro id
    rw [hmod id, hmem id]
    tauto
  · intro id hid hnot
    obtain ⟨o, ho⟩ := Option.isSome_iff_exists.mp ((vget_isSome_iff _ _).mpr (st.mutable_input id hid))
    obtain ⟨p, hp, rfl⟩ := List.mem_map.mp hid
    have hoid : o.id = p.1 := st.input_id (p.1, o) (mem_of_vget_eq_some ho)
    have hoL : o ∈ st.mutableInputRefs.filterMap fun p =>
        if p.1 ∈ st.executionResults.modifiedObjects then none else vget st.inputObjects p.1 :=
      List.mem_filterMap.mpr ⟨p, hp, by simp [hnot, ho]⟩
    rw [ho, ← hnew o hoL, hoid]
  · intro id hid
    apply hold id
    rw [hmem id]
    rintro ⟨hin, hnot⟩
    exact hnot (hid hin)

/-- An object written by the transaction is modified. -/
def WrittenModified (st : TemporaryStore) (id : Nat) : Prop :=
  id ∈ st.executionResults.writtenObjects.map (·.1) → id ∈ st.executionResults.modifiedObjects

/-- Where a written object is modified, mutating the inputs reads the same. -/
theorem readObject_ensureActiveInputsMutated {st : TemporaryStore} {id : Nat}
    (hwm : st.WrittenModified id) : st.ensureActiveInputsMutated.readObject id = st.readObject id := by
  obtain ⟨r, heq, _, hnew, hold, _, _⟩ := ensureActiveInputsMutated_spec st
  rw [heq]
  by_cases hback : id ∈ st.mutableInputRefs.map (·.1) ∧ id ∉ st.executionResults.modifiedObjects
  · -- written back as read: it was not written before
    have hnone : vget st.executionResults.writtenObjects id = none := by
      rw [← Option.not_isSome_iff_eq_none, vget_isSome_iff]
      exact fun hw => hback.2 (hwm hw)
    have hr := hnew id hback.1 hback.2
    simp only [readObject, withResults_executionResults, withResults_inputObjects, hr, hnone]
    split <;> simp_all
  · have hr : vget r.writtenObjects id = vget st.executionResults.writtenObjects id :=
      hold id fun hin => by
        by_contra hnot
        exact hback ⟨hin, hnot⟩
    simp only [readObject, withResults_executionResults, withResults_inputObjects, hr]

/-- Mutating the inputs keeps written objects modified. -/
theorem writtenModified_ensureActiveInputsMutated {st : TemporaryStore} {id : Nat}
    (hwm : st.WrittenModified id) : st.ensureActiveInputsMutated.WrittenModified id := by
  obtain ⟨r, heq, hmod, hnew, hold, _, _⟩ := ensureActiveInputsMutated_spec st
  rw [heq]
  intro hw
  simp only [withResults_executionResults] at hw ⊢
  rw [hmod id]
  by_cases hin : id ∈ st.mutableInputRefs.map (·.1)
  · exact .inr hin
  · have hr := hold id fun h => absurd h hin
    rw [← vget_isSome_iff, hr, vget_isSome_iff] at hw
    exact .inl (hwm hw)

end Ensure

/-! ### Collecting storage -/

section Collect

variable (objectSize : Object → Nat) (gc : GasCharger)

@[simp] theorem collectStorageAndRebate_modifiedObjects :
    (s.collectStorageAndRebate objectSize gc).1.executionResults.modifiedObjects =
      s.executionResults.modifiedObjects := rfl

@[simp] theorem collectStorageAndRebate_createdObjectIds :
    (s.collectStorageAndRebate objectSize gc).1.executionResults.createdObjectIds =
      s.executionResults.createdObjectIds := rfl

@[simp] theorem collectStorageAndRebate_deletedObjectIds :
    (s.collectStorageAndRebate objectSize gc).1.executionResults.deletedObjectIds =
      s.executionResults.deletedObjectIds := rfl

theorem collectStorageAndRebate_writtenObjects :
    (s.collectStorageAndRebate objectSize gc).1.executionResults.writtenObjects =
      (trackWrittenObjects objectSize gc
        (s.executionResults.writtenObjects.zip s.oldStorageRebates)).1 := rfl

theorem collectStorageAndRebate_snd :
    (s.collectStorageAndRebate objectSize gc).2 =
      (s.collectStorageAndRebate objectSize gc).1.collectRebate
        (trackWrittenObjects objectSize gc
          (s.executionResults.writtenObjects.zip s.oldStorageRebates)).2 := rfl

@[simp] theorem collectStorageAndRebate_inputObjects :
    (s.collectStorageAndRebate objectSize gc).1.inputObjects = s.inputObjects := rfl

@[simp] theorem collectStorageAndRebate_mutableInputRefs :
    (s.collectStorageAndRebate objectSize gc).1.mutableInputRefs = s.mutableInputRefs := rfl

@[simp] theorem collectStorageAndRebate_lamportTimestamp :
    (s.collectStorageAndRebate objectSize gc).1.lamportTimestamp = s.lamportTimestamp := rfl

@[simp] theorem collectStorageAndRebate_txDigest :
    (s.collectStorageAndRebate objectSize gc).1.txDigest = s.txDigest := rfl

@[simp] theorem collectStorageAndRebate_modifiedAtMetadata :
    (s.collectStorageAndRebate objectSize gc).1.modifiedAtMetadata = s.modifiedAtMetadata := rfl

/-- The old rebates of the written objects: what a modified object was read
    with, nothing for a new one. -/
theorem oldStorageRebates_eq : s.oldStorageRebates =
    (s.executionResults.writtenObjects.map (·.1)).map fun k =>
      if k ∈ s.executionResults.modifiedObjects then (s.modifiedAtMetadata k).storageRebate else 0 := by
  rw [oldStorageRebates, List.map_map]
  apply List.map_congr_left
  intro p _
  by_cases hk : p.1 ∈ s.executionResults.modifiedObjects
  · simp [getObjectModifiedAt, hk]
  · simp [getObjectModifiedAt, hk]

/-- Collecting keeps the ids of the written objects and their contents. -/
theorem collectStorageAndRebate_written_data :
    (s.collectStorageAndRebate objectSize gc).1.executionResults.writtenObjects.map
        (fun p => (p.1, p.2.data)) =
      s.executionResults.writtenObjects.map fun p => (p.1, p.2.data) := by
  rw [collectStorageAndRebate_writtenObjects, trackWrittenObjects_data,
    show (fun e : (Nat × Object) × Nat => (e.1.1, e.1.2.data)) =
      (fun p : Nat × Object => (p.1, p.2.data)) ∘ Prod.fst from rfl,
    ← List.map_map, List.map_fst_zip (by rw [length_oldStorageRebates])]

/-- Collecting keeps the ids of the written objects. -/
theorem collectStorageAndRebate_written_keys :
    (s.collectStorageAndRebate objectSize gc).1.executionResults.writtenObjects.map (·.1) =
      s.executionResults.writtenObjects.map (·.1) := by
  have h := congrArg (List.map Prod.fst) (s.collectStorageAndRebate_written_data objectSize gc)
  simpa [List.map_map, Function.comp_def] using h

/-- Mutating the inputs and collecting storage change only the execution results. -/
theorem ensureActiveInputsMutated_collect_eq :
    ∃ r, (s.ensureActiveInputsMutated.collectStorageAndRebate objectSize gc).1 = s.withResults r := by
  obtain ⟨r, hens, -⟩ := ensureActiveInputsMutated_spec s
  exact ⟨_, by rw [hens]; rfl⟩

/-- `collect_storage_and_rebate` only tracks storage. -/
theorem collectStorageAndRebate_tracked :
    GasCharger.Tracked gc (s.collectStorageAndRebate objectSize gc).2 := by
  rw [collectStorageAndRebate_snd]
  exact (trackWrittenObjects_tracked objectSize gc _).trans (collectRebate_tracked _ _).1

/-- Collecting reads the same contents. -/
theorem readObject_collectStorageAndRebate (id : Nat) :
    ((s.collectStorageAndRebate objectSize gc).1.readObject id).map (·.data) =
      (s.readObject id).map (·.data) := by
  have h := congrArg (fun l => vget l id) (s.collectStorageAndRebate_written_data objectSize gc)
  simp only [vget_map_snd] at h
  unfold readObject
  simp only [collectStorageAndRebate_inputObjects]
  cases hw : vget (s.collectStorageAndRebate objectSize gc).1.executionResults.writtenObjects id <;>
    cases hw' : vget s.executionResults.writtenObjects id <;> simp_all

/-- Collecting keeps written objects modified. -/
theorem writtenModified_collectStorageAndRebate {id : Nat} (hwm : s.WrittenModified id) :
    (s.collectStorageAndRebate objectSize gc).1.WrittenModified id := by
  intro hw
  rw [collectStorageAndRebate_written_keys] at hw
  exact hwm hw

/-- What `collect_storage_and_rebate` does on a metered meter: it tracks the
    rebates of all the objects modified, which are the input rebates, and the
    new costs of the objects written, which become their rebates. -/
theorem collectStorageAndRebate_spec (hcharge : gc.gasStatus.charge = true) :
    (s.collectStorageAndRebate objectSize gc).2.gasStatus.storageRebate =
        gc.gasStatus.storageRebate + s.totalInputRebate ∧
      (s.collectStorageAndRebate objectSize gc).2.gasStatus.storageGasUnits =
        gc.gasStatus.storageGasUnits + (s.collectStorageAndRebate objectSize gc).1.totalOutputRebate := by
  have htr₁ := trackWrittenObjects_tracked objectSize gc
    (s.executionResults.writtenObjects.zip s.oldStorageRebates)
  obtain ⟨hR₁, hC₁⟩ := trackWrittenObjects_spec objectSize gc hcharge
    (s.executionResults.writtenObjects.zip s.oldStorageRebates)
  -- `collect_rebate` then runs on the store with the written objects tracked
  have hR₂ := collectRebate_spec (s.collectStorageAndRebate objectSize gc).1
    (trackWrittenObjects objectSize gc (s.executionResults.writtenObjects.zip s.oldStorageRebates)).2
    (htr₁.charge.trans hcharge)
  have hC₂ := (collectRebate_tracked (s.collectStorageAndRebate objectSize gc).1
    (trackWrittenObjects objectSize gc (s.executionResults.writtenObjects.zip s.oldStorageRebates)).2).2
  have holds : ((s.executionResults.writtenObjects.zip s.oldStorageRebates).map (·.2)) =
      s.oldStorageRebates := List.map_snd_zip (by rw [length_oldStorageRebates])
  constructor
  · rw [collectStorageAndRebate_snd, hR₂, hR₁, holds, collectStorageAndRebate_written_keys, collectStorageAndRebate_modifiedObjects,
      collectStorageAndRebate_modifiedAtMetadata, s.oldStorageRebates_eq, Nat.add_assoc,
      sum_ite_mem_add_sum_filter_not_mem _ s.executionResults.written_nodup
        s.executionResults.modified_nodup, s.totalInputRebate_eq]
  · rw [collectStorageAndRebate_snd, hC₂, hC₁, totalOutputRebate_eq, collectStorageAndRebate_writtenObjects]

end Collect

end TemporaryStore

end Mango.Adapter
