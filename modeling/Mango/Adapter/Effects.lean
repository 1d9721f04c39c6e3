/-
  Mango.Adapter.Effects

  The effects a transaction's store produces (`into_effects` of
  `mgo-adapter/src/temporary_store.rs`). Every written Move object takes the
  transaction's lamport version, which is above every version the transaction
  read, and the transaction as its previous one; a shared object created here
  is shared from the lamport version. The objects the transaction touched are
  listed once each, as created, mutated, unwrapped, deleted, unwrapped then
  deleted or wrapped: in the effects of version 1 (`into_effects_v1`) by the
  three sets of the results, in those of version 2 (`get_object_changes`,
  `into_effects_v2`) by the one change of each object.

  The effects are made from the store `charge_gas` leaves. On every path of
  `charge_gas` that store has every mutable input modified and keeps the
  consistency of the results that execution checks
  (`check_execution_results_consistency`, `check_invariants`), so every mutable
  input is listed once, at the version it was read at.
-/
import Mathlib
import Mango.Core.Effects
import Mango.Adapter.Conservation

namespace Mango.Adapter

open Mango.Lib Mango.Core

-- ============================================================================
-- The effects of a store
-- ============================================================================

namespace TemporaryStore

variable (s : TemporaryStore)

/-- The change `get_object_changes` records of one id: the object as it was
    before, the object written, and whether its id was created or deleted. -/
def objectChange (id : Nat) : EffectsObjectChange :=
  EffectsObjectChange.new ((s.getObjectModifiedAt id).map fun m => ((m.version, m.digest), m.owner))
    (vget s.executionResults.writtenObjects id) (decide (id ∈ s.executionResults.createdObjectIds))
    (decide (id ∈ s.executionResults.deletedObjectIds))

/-- The ids `get_object_changes` collects in a `BTreeSet`: those created,
    deleted, modified and written, each once, in order. -/
def changedIds : List Nat :=
  (s.executionResults.createdObjectIds ++ s.executionResults.deletedObjectIds ++
    s.executionResults.modifiedObjects ++ s.executionResults.writtenObjects.map (·.1)).dedup.insertionSort
    (· ≤ ·)

/-- `get_object_changes`. -/
def getObjectChanges : List (Nat × EffectsObjectChange) :=
  s.changedIds.map fun id => (id, s.objectChange id)

/-- `into_effects` with effects of version 2, after
    `update_object_version_and_prev_tx`. -/
def intoEffectsV2 (sharedObjectRefs : List SharedInput) (transactionDigest : Nat) : TransactionEffects :=
  let st := s.updateObjectVersionAndPrevTx
  TransactionEffects.new sharedObjectRefs transactionDigest st.lamportTimestamp st.getObjectChanges

/-- `into_effects` with effects of version 1, after
    `update_object_version_and_prev_tx`: a written object is mutated when it
    was modified, else created or unwrapped; a modified object not written is
    deleted or wrapped; a deleted object not modified was unwrapped and
    deleted. `none` is the panic of `written_objects[&coin_id]` on a gas coin
    not written. -/
def intoEffectsV1 (transactionDigest : Nat) (gasCoin : Option Nat) : Option TransactionEffectsV1 :=
  let st := s.updateObjectVersionAndPrevTx
  let results := st.executionResults
  let lamportVersion := st.lamportTimestamp
  let updatedGasObjectInfo : Option (ObjectRef × Owner) := match gasCoin with
    | some coinId => (vget results.writtenObjects coinId).map fun object =>
        (object.computeObjectReference, object.owner)
    | none => some (⟨0, 0, 0⟩, .addressOwner 0)
  -- a modified object has its metadata: the `unwrap` of the second loop holds
  let notWritten := results.modifiedObjects.filter (· ∉ results.writtenObjects.map (·.1))
  updatedGasObjectInfo.map fun updatedGasObjectInfo =>
    { transactionDigest := transactionDigest
      modifiedAtVersions :=
        results.writtenObjects.filterMap (fun p => (st.getObjectModifiedAt p.1).map (p.1, ·.version)) ++
          notWritten.map fun id => (id, (st.modifiedAtMetadata id).version)
      created := results.writtenObjects.filterMap fun p =>
        if (st.getObjectModifiedAt p.1).isSome then none
        else if p.1 ∈ results.createdObjectIds then some (p.2.computeObjectReference, p.2.owner) else none
      mutated := results.writtenObjects.filterMap fun p =>
        if (st.getObjectModifiedAt p.1).isSome then some (p.2.computeObjectReference, p.2.owner) else none
      unwrapped := results.writtenObjects.filterMap fun p =>
        if (st.getObjectModifiedAt p.1).isSome then none
        else if p.1 ∈ results.createdObjectIds then none else some (p.2.computeObjectReference, p.2.owner)
      deleted := notWritten.filterMap fun id =>
        if id ∈ results.deletedObjectIds then some ⟨id, lamportVersion, objectDigestDeleted⟩ else none
      unwrappedThenDeleted := (results.deletedObjectIds.filter (· ∉ results.modifiedObjects)).map fun id =>
        ⟨id, lamportVersion, objectDigestDeleted⟩
      wrapped := notWritten.filterMap fun id =>
        if id ∈ results.deletedObjectIds then none else some ⟨id, lamportVersion, objectDigestWrapped⟩
      gasObject := updatedGasObjectInfo }

-- ============================================================================
-- Updating versions
-- ============================================================================

@[simp] theorem updateObjectVersionAndPrevTx_modifiedObjects :
    s.updateObjectVersionAndPrevTx.executionResults.modifiedObjects = s.executionResults.modifiedObjects := rfl

@[simp] theorem updateObjectVersionAndPrevTx_createdObjectIds :
    s.updateObjectVersionAndPrevTx.executionResults.createdObjectIds =
      s.executionResults.createdObjectIds := rfl

@[simp] theorem updateObjectVersionAndPrevTx_deletedObjectIds :
    s.updateObjectVersionAndPrevTx.executionResults.deletedObjectIds =
      s.executionResults.deletedObjectIds := rfl

@[simp] theorem updateObjectVersionAndPrevTx_lamportTimestamp :
    s.updateObjectVersionAndPrevTx.lamportTimestamp = s.lamportTimestamp := rfl

@[simp] theorem updateObjectVersionAndPrevTx_mutableInputRefs :
    s.updateObjectVersionAndPrevTx.mutableInputRefs = s.mutableInputRefs := rfl

@[simp] theorem updateObjectVersionAndPrevTx_inputObjects :
    s.updateObjectVersionAndPrevTx.inputObjects = s.inputObjects := rfl

@[simp] theorem updateObjectVersionAndPrevTx_modifiedAtMetadata :
    s.updateObjectVersionAndPrevTx.modifiedAtMetadata = s.modifiedAtMetadata := rfl

@[simp] theorem getObjectModifiedAt_isSome (id : Nat) :
    (s.getObjectModifiedAt id).isSome = decide (id ∈ s.executionResults.modifiedObjects) := by
  unfold getObjectModifiedAt
  split <;> simp_all

@[simp] theorem updateObjectVersionAndPrevTx_getObjectModifiedAt :
    s.updateObjectVersionAndPrevTx.getObjectModifiedAt = s.getObjectModifiedAt := rfl

theorem updateObjectVersionAndPrevTx_writtenObjects :
    s.updateObjectVersionAndPrevTx.executionResults.writtenObjects =
      s.executionResults.writtenObjects.map fun p =>
        (p.1, s.executionResults.updatedObject s.lamportTimestamp s.txDigest p.1 p.2) := rfl

/-- The update keeps the ids of the written objects. -/
@[simp] theorem updateObjectVersionAndPrevTx_written_keys :
    s.updateObjectVersionAndPrevTx.executionResults.writtenObjects.map (·.1) =
      s.executionResults.writtenObjects.map (·.1) := by
  simp [updateObjectVersionAndPrevTx_writtenObjects, List.map_map, Function.comp_def]

/-- What the update writes: every object at the lamport version (a package at
    its own), with the transaction as its previous one, and a shared object
    created here shared from the lamport version. -/
theorem updatedObject_spec (r : ExecutionResultsV2) (lamportVersion prevTx id : Nat) (obj : Object) :
    let updated := r.updatedObject lamportVersion prevTx id obj
    updated.data = obj.data ∧ (obj.isPackage = false → updated.version = lamportVersion) ∧
      updated.previousTransaction = prevTx ∧
      (id ∈ r.createdObjectIds → ∀ v, updated.owner = .shared v → v = lamportVersion) := by
  intro updated
  refine ⟨rfl, ?_, rfl, ?_⟩
  · intro hmove
    simp only [updated, ExecutionResultsV2.updatedObject]
    cases hdata : obj.data with
    | move => rfl
    | package => simp [Object.isPackage, hdata] at hmove
  · intro hcreated v hv
    simp only [updated, ExecutionResultsV2.updatedObject] at hv
    -- only a shared owner becomes shared, and then at the lamport version
    cases howner : obj.owner <;> simp_all

/-- (a) Every written Move object is at the lamport version. -/
theorem version_of_mem_updated {p : Nat × Object}
    (hp : p ∈ s.updateObjectVersionAndPrevTx.executionResults.writtenObjects) (hmove : p.2.isPackage = false) :
    p.2.version = s.lamportTimestamp := by
  rw [updateObjectVersionAndPrevTx_writtenObjects] at hp
  obtain ⟨q, -, rfl⟩ := List.mem_map.mp hp
  obtain ⟨hdata, hversion, -, -⟩ := updatedObject_spec s.executionResults s.lamportTimestamp s.txDigest q.1 q.2
  apply hversion
  simpa [Object.isPackage, hdata] using hmove

/-- (e) Every written object has the transaction as its previous one. -/
theorem previousTransaction_of_mem_updated {p : Nat × Object}
    (hp : p ∈ s.updateObjectVersionAndPrevTx.executionResults.writtenObjects) :
    p.2.previousTransaction = s.txDigest := by
  rw [updateObjectVersionAndPrevTx_writtenObjects] at hp
  obtain ⟨q, -, rfl⟩ := List.mem_map.mp hp
  exact (updatedObject_spec s.executionResults s.lamportTimestamp s.txDigest q.1 q.2).2.2.1

/-- (d) A shared object created here is shared from the lamport version. -/
theorem sharedVersion_of_mem_updated {p : Nat × Object}
    (hp : p ∈ s.updateObjectVersionAndPrevTx.executionResults.writtenObjects)
    (hcreated : p.1 ∈ s.executionResults.createdObjectIds) {v : Nat} (hv : p.2.owner = .shared v) :
    v = s.lamportTimestamp := by
  rw [updateObjectVersionAndPrevTx_writtenObjects] at hp
  obtain ⟨q, -, rfl⟩ := List.mem_map.mp hp
  exact (updatedObject_spec s.executionResults s.lamportTimestamp s.txDigest q.1 q.2).2.2.2 hcreated v hv

/-- (a) The lamport version of a new store is above every version its inputs
    were read at and every version it may receive. -/
theorem new_lamportTimestamp_gt {inputs : InputObjects} {receivingObjects : List ObjectRef}
    {txDigest : Nat} {systemPackage : Nat → Object}
    (h : TemporaryStore.new inputs receivingObjects txDigest systemPackage = some s) :
    (∀ r ∈ inputs.objects, ∀ v, InputObjects.inputVersion r = some v → v < s.lamportTimestamp) ∧
      ∀ ref ∈ s.receivingObjects, ref.version < s.lamportTimestamp := by
  unfold TemporaryStore.new at h
  obtain ⟨lamport, hlamport, hs⟩ := Option.bind_eq_some_iff.mp h
  cases hs
  have hgt := lamportIncrement_gt hlamport
  refine ⟨fun r hr v hv => hgt v (List.mem_append_left _ (List.mem_filterMap.mpr ⟨r, hr, hv⟩)),
    fun ref href => hgt ref.version (List.mem_append_right _ (List.mem_map_of_mem href))⟩

/-- A new store holds no results yet, so dropping its writes keeps it. -/
theorem new_dropWrites {inputs : InputObjects} {receivingObjects : List ObjectRef}
    {txDigest : Nat} {systemPackage : Nat → Object}
    (h : TemporaryStore.new inputs receivingObjects txDigest systemPackage = some s) :
    s.dropWrites = s := by
  unfold TemporaryStore.new at h
  obtain ⟨lamport, -, hs⟩ := Option.bind_eq_some_iff.mp h
  cases hs
  rfl

-- ============================================================================
-- The effects of version 2
-- ============================================================================

theorem nodup_changedIds : s.changedIds.Nodup :=
  (List.nodup_dedup _).perm (List.perm_insertionSort _ _).symm

theorem mem_changedIds {id : Nat} : id ∈ s.changedIds ↔
    id ∈ s.executionResults.createdObjectIds ∨ id ∈ s.executionResults.deletedObjectIds ∨
      id ∈ s.executionResults.modifiedObjects ∨ id ∈ s.executionResults.writtenObjects.map (·.1) := by
  simp [changedIds, List.mem_insertionSort, List.mem_dedup]

/-- `get_object_changes` records one change per id. -/
theorem nodup_getObjectChanges_keys : (s.getObjectChanges.map (·.1)).Nodup := by
  simpa [getObjectChanges, List.map_map, Function.comp_def] using s.nodup_changedIds

theorem objectChange_outputState (id : Nat) : (s.objectChange id).outputState =
    match vget s.executionResults.writtenObjects id with
    | some o => if o.isPackage then .packageWrite o.version o.digest else .objectWrite o.digest o.owner
    | none => .notExist := rfl

theorem objectChange_idOperation (id : Nat) : (s.objectChange id).idOperation =
    if id ∈ s.executionResults.createdObjectIds then .created
    else if id ∈ s.executionResults.deletedObjectIds then .deleted else .none := by
  simp [objectChange, EffectsObjectChange.new]

/-- A modified object not created was there before: its change is a mutation
    when it is written, else a deletion or a wrapping. -/
theorem kind_objectChange_of_modified {id : Nat} (hmod : id ∈ s.executionResults.modifiedObjects)
    (hcreated : id ∉ s.executionResults.createdObjectIds) :
    (s.objectChange id).kind = if (vget s.executionResults.writtenObjects id).isSome then 1
      else if id ∈ s.executionResults.deletedObjectIds then 3 else 5 := by
  have hin : (s.objectChange id).inputState = .exist (s.modifiedAtMetadata id).version
      (s.modifiedAtMetadata id).digest (s.modifiedAtMetadata id).owner := by
    simp [objectChange, EffectsObjectChange.new, getObjectModifiedAt, hmod]
  unfold EffectsObjectChange.kind
  rw [hin, objectChange_outputState, objectChange_idOperation, if_neg hcreated]
  cases hw : vget s.executionResults.writtenObjects id with
  | some o => by_cases hp : o.isPackage <;> simp [hp]
  | none => by_cases hd : id ∈ s.executionResults.deletedObjectIds <;> simp [hd]

/-- The metadata of a mutable input is the reference it was read with. -/
theorem modifiedAtMetadata_of_mutableInputRefs {id version digest : Nat} {owner : Owner}
    (href : (id, ((version, digest), owner)) ∈ s.mutableInputRefs) :
    (s.modifiedAtMetadata id).version = version := by
  have hget : vget s.mutableInputRefs id = some ((version, digest), owner) :=
    vget_of_mem_nodup s.mutable_nodup href
  obtain ⟨o, ho⟩ := Option.isSome_iff_exists.mp
    ((vget_isSome_iff _ _).mpr (s.mutable_input id (List.mem_map_of_mem href)))
  simp [modifiedAtMetadata, hget, ho]

/-- Every mutable input listed once among the mutated, deleted and wrapped
    objects, at the version it was read at. -/
def MutableListedOnce (mutableInputRefs : List (Nat × ((Nat × Nat) × Owner)))
    (modifiedAtVersions : List (Nat × Nat)) (mutated deleted wrapped : List Nat) : Prop :=
  ∀ id version digest owner, (id, ((version, digest), owner)) ∈ mutableInputRefs →
    (id, version) ∈ modifiedAtVersions ∧ (mutated ++ deleted ++ wrapped).count id = 1

/-- A shared object created here shared from the lamport version. -/
def CreatedSharedAt (created : List (ObjectRef × Owner)) (lamportVersion : Nat) : Prop :=
  ∀ ref v, (ref, Owner.shared v) ∈ created → v = lamportVersion

/-- (b) With every mutable input modified and none created, effects of
    version 2 list every mutable input once, at its version. -/
theorem intoEffectsV2_mutableListedOnce (sharedObjectRefs : List SharedInput) (transactionDigest : Nat)
    (hall : ∀ id ∈ s.mutableInputRefs.map (·.1), id ∈ s.executionResults.modifiedObjects)
    (hcreated : ∀ id ∈ s.executionResults.createdObjectIds, id ∉ s.mutableInputRefs.map (·.1)) :
    let e := s.intoEffectsV2 sharedObjectRefs transactionDigest
    MutableListedOnce s.mutableInputRefs e.modifiedAtVersions (e.mutated.map (·.1.id))
      (e.deleted.map (·.id)) (e.wrapped.map (·.id)) := by
  intro e id version digest owner href
  have hmut : id ∈ s.mutableInputRefs.map (·.1) := List.mem_map_of_mem href
  have hmod := hall id hmut
  have hnot : id ∉ s.executionResults.createdObjectIds := fun h => hcreated id h hmut
  -- the one change of the input, on the updated store
  have hmem : (id, s.updateObjectVersionAndPrevTx.objectChange id) ∈ e.changedObjects :=
    List.mem_map.mpr ⟨id, (mem_changedIds _).mpr (.inr (.inr (.inl hmod))), rfl⟩
  have hnodup : (e.changedObjects.map (·.1)).Nodup := nodup_getObjectChanges_keys _
  have hkind := s.updateObjectVersionAndPrevTx.kind_objectChange_of_modified hmod hnot
  constructor
  · -- its change was there before, at the version of its reference
    apply List.mem_filterMap.mpr
    refine ⟨_, hmem, ?_⟩
    simp [objectChange, EffectsObjectChange.new, getObjectModifiedAt, hmod,
      s.modifiedAtMetadata_of_mutableInputRefs href]
  · rw [List.count_append, List.count_append, TransactionEffects.mutated_ids,
      TransactionEffects.deleted_ids, TransactionEffects.wrapped_ids,
      TransactionEffects.count_idsOfKind hnodup hmem, TransactionEffects.count_idsOfKind hnodup hmem,
      TransactionEffects.count_idsOfKind hnodup hmem, hkind]
    split
    · simp
    · split <;> simp

/-- (c) Effects of version 2 list every object touched under one kind. -/
theorem intoEffectsV2_pairwise_disjoint (sharedObjectRefs : List SharedInput) (transactionDigest : Nat) :
    let e := s.intoEffectsV2 sharedObjectRefs transactionDigest
    List.Pairwise List.Disjoint [e.created.map (·.1.id), e.mutated.map (·.1.id),
      e.unwrapped.map (·.1.id), e.deleted.map (·.id), e.unwrappedThenDeleted.map (·.id),
      e.wrapped.map (·.id)] :=
  TransactionEffects.pairwise_disjoint_ids (nodup_getObjectChanges_keys _)

/-- (d) Effects of version 2 list a created shared object as shared from the
    lamport version. -/
theorem intoEffectsV2_createdSharedAt (sharedObjectRefs : List SharedInput) (transactionDigest : Nat) :
    let e := s.intoEffectsV2 sharedObjectRefs transactionDigest
    CreatedSharedAt e.created e.lamportVersion := by
  intro e ref v href
  obtain ⟨change, hmem, hop, hout⟩ := e.mem_created href
  obtain ⟨id, -, hc⟩ := List.mem_map.mp hmem
  simp only [Prod.mk.injEq] at hc
  obtain ⟨-, rfl⟩ := hc
  -- created here, and written as a Move object with its owner
  have hcreated : id ∈ s.executionResults.createdObjectIds := by
    rw [objectChange_idOperation] at hop
    by_contra hnot
    rw [if_neg (by simpa using hnot)] at hop
    split at hop <;> cases hop
  rcases hout with ⟨digest, hout⟩ | ⟨howner, -⟩
  · rw [objectChange_outputState] at hout
    cases hw : vget s.updateObjectVersionAndPrevTx.executionResults.writtenObjects id with
    | none => simp [hw] at hout
    | some o =>
      rw [hw] at hout
      by_cases hp : o.isPackage
      · simp [hp] at hout
      · simp only [hp, Bool.false_eq_true, if_false, ObjectOut.objectWrite.injEq] at hout
        exact s.sharedVersion_of_mem_updated (mem_of_vget_eq_some hw) hcreated hout.2
  · cases howner

-- ============================================================================
-- The effects of version 1
-- ============================================================================

/-- Effects of version 1 are made when the gas coin, if any, is written. -/
theorem intoEffectsV1_isSome (transactionDigest : Nat) {gasCoin : Option Nat}
    (hgas : ∀ coinId, gasCoin = some coinId → coinId ∈ s.executionResults.writtenObjects.map (·.1)) :
    (s.intoEffectsV1 transactionDigest gasCoin).isSome := by
  unfold intoEffectsV1
  cases gasCoin with
  | none => rfl
  | some coinId =>
    have hkey : coinId ∈ s.updateObjectVersionAndPrevTx.executionResults.writtenObjects.map (·.1) := by
      rw [updateObjectVersionAndPrevTx_written_keys]
      exact hgas coinId rfl
    obtain ⟨o, ho⟩ := Option.isSome_iff_exists.mp ((vget_isSome_iff _ _).mpr hkey)
    simp [ho]

/-- The list of effects of version 1 an id falls in, numbered as
    `EffectsObjectChange.kind`: a written id is mutated, created or unwrapped;
    a modified one not written is deleted or wrapped; a deleted one neither
    written nor modified was unwrapped and deleted. -/
def kindV1 (id : Nat) : Nat :=
  if id ∈ s.executionResults.writtenObjects.map (·.1) then
    if id ∈ s.executionResults.modifiedObjects then 1
    else if id ∈ s.executionResults.createdObjectIds then 0 else 2
  else if id ∈ s.executionResults.modifiedObjects then
    if id ∈ s.executionResults.deletedObjectIds then 3 else 5
  else if id ∈ s.executionResults.deletedObjectIds then 4 else 6

section V1

variable {s} {transactionDigest : Nat} {gasCoin : Option Nat} {e : TransactionEffectsV1}
  (h : s.intoEffectsV1 transactionDigest gasCoin = some e)
include h

/-- The mutated objects of effects of version 1 are the written ones modified. -/
theorem intoEffectsV1_mutated_ids : e.mutated.map (·.1.id) =
    (s.executionResults.writtenObjects.map (·.1)).filter (· ∈ s.executionResults.modifiedObjects) := by
  dsimp only [intoEffectsV1] at h
  obtain ⟨g, -, h⟩ := Option.map_eq_some_iff.mp h
  cases h
  dsimp only
  rw [← updateObjectVersionAndPrevTx_written_keys, List.filter_map]
  apply map_filterMap_eq_map_filter
  intro p hp
  by_cases hm : p.1 ∈ s.executionResults.modifiedObjects
  · simp [hm, s.updateObjectVersionAndPrevTx.executionResults.written_id p hp]
  · simp [hm]

/-- The created objects of effects of version 1 are the written ones neither
    modified nor unwrapped. -/
theorem intoEffectsV1_created_ids : e.created.map (·.1.id) =
    (s.executionResults.writtenObjects.map (·.1)).filter
      (fun id => id ∉ s.executionResults.modifiedObjects ∧ id ∈ s.executionResults.createdObjectIds) := by
  dsimp only [intoEffectsV1] at h
  obtain ⟨g, -, h⟩ := Option.map_eq_some_iff.mp h
  cases h
  dsimp only
  rw [← updateObjectVersionAndPrevTx_written_keys, List.filter_map]
  apply map_filterMap_eq_map_filter
  intro p hp
  by_cases hm : p.1 ∈ s.executionResults.modifiedObjects
  · simp [hm]
  · by_cases hc : p.1 ∈ s.executionResults.createdObjectIds
    · simp [hm, hc, s.updateObjectVersionAndPrevTx.executionResults.written_id p hp]
    · simp [hm, hc]

/-- The unwrapped objects of effects of version 1 are the written ones neither
    modified nor created. -/
theorem intoEffectsV1_unwrapped_ids : e.unwrapped.map (·.1.id) =
    (s.executionResults.writtenObjects.map (·.1)).filter
      (fun id => id ∉ s.executionResults.modifiedObjects ∧ id ∉ s.executionResults.createdObjectIds) := by
  dsimp only [intoEffectsV1] at h
  obtain ⟨g, -, h⟩ := Option.map_eq_some_iff.mp h
  cases h
  dsimp only
  rw [← updateObjectVersionAndPrevTx_written_keys, List.filter_map]
  apply map_filterMap_eq_map_filter
  intro p hp
  by_cases hm : p.1 ∈ s.executionResults.modifiedObjects
  · simp [hm]
  · by_cases hc : p.1 ∈ s.executionResults.createdObjectIds
    · simp [hm, hc]
    · simp [hm, hc, s.updateObjectVersionAndPrevTx.executionResults.written_id p hp]

/-- The deleted objects of effects of version 1 are the modified ones not
    written, deleted. -/
theorem intoEffectsV1_deleted_ids : e.deleted.map (·.id) =
    (s.executionResults.modifiedObjects.filter (· ∉ s.executionResults.writtenObjects.map (·.1))).filter
      (· ∈ s.executionResults.deletedObjectIds) := by
  dsimp only [intoEffectsV1] at h
  obtain ⟨g, -, h⟩ := Option.map_eq_some_iff.mp h
  cases h
  simp only [updateObjectVersionAndPrevTx_written_keys]
  apply map_filterMap_eq_filter
  intro id _
  by_cases hd : id ∈ s.executionResults.deletedObjectIds <;> simp [hd]

/-- The wrapped objects of effects of version 1 are the modified ones not
    written, not deleted. -/
theorem intoEffectsV1_wrapped_ids : e.wrapped.map (·.id) =
    (s.executionResults.modifiedObjects.filter (· ∉ s.executionResults.writtenObjects.map (·.1))).filter
      (· ∉ s.executionResults.deletedObjectIds) := by
  dsimp only [intoEffectsV1] at h
  obtain ⟨g, -, h⟩ := Option.map_eq_some_iff.mp h
  cases h
  simp only [updateObjectVersionAndPrevTx_written_keys]
  apply map_filterMap_eq_filter
  intro id _
  by_cases hd : id ∈ s.executionResults.deletedObjectIds <;> simp [hd]

/-- The objects unwrapped then deleted in effects of version 1 are the deleted
    ones not modified. -/
theorem intoEffectsV1_unwrappedThenDeleted_ids : e.unwrappedThenDeleted.map (·.id) =
    s.executionResults.deletedObjectIds.filter (· ∉ s.executionResults.modifiedObjects) := by
  dsimp only [intoEffectsV1] at h
  obtain ⟨g, -, h⟩ := Option.map_eq_some_iff.mp h
  cases h
  simp only [List.map_map, Function.comp_def, List.map_id']
  rfl

/-- Effects of version 1 record a modified object at the version it was
    modified at, in the first loop when it is written, else in the second. -/
theorem intoEffectsV1_modifiedAt {id : Nat} (hmod : id ∈ s.executionResults.modifiedObjects) :
    (id, (s.modifiedAtMetadata id).version) ∈ e.modifiedAtVersions := by
  dsimp only [intoEffectsV1] at h
  obtain ⟨g, -, h⟩ := Option.map_eq_some_iff.mp h
  cases h
  by_cases hw : id ∈ s.executionResults.writtenObjects.map (·.1)
  · rw [← updateObjectVersionAndPrevTx_written_keys] at hw
    obtain ⟨p, hp, rfl⟩ := List.mem_map.mp hw
    exact List.mem_append_left _ (List.mem_filterMap.mpr ⟨p, hp, by simp [getObjectModifiedAt, hmod]⟩)
  · apply List.mem_append_right
    exact List.mem_map.mpr ⟨id, by simpa [List.mem_filter] using And.intro hmod hw, rfl⟩

/-- (b) With every mutable input modified, effects of version 1 list every
    mutable input once, at the version it was read at. -/
theorem intoEffectsV1_mutableListedOnce
    (hall : ∀ id ∈ s.mutableInputRefs.map (·.1), id ∈ s.executionResults.modifiedObjects) :
    MutableListedOnce s.mutableInputRefs e.modifiedAtVersions (e.mutated.map (·.1.id))
      (e.deleted.map (·.id)) (e.wrapped.map (·.id)) := by
  intro id version digest owner href
  have hmod := hall id (List.mem_map_of_mem href)
  refine ⟨s.modifiedAtMetadata_of_mutableInputRefs href ▸ intoEffectsV1_modifiedAt h hmod, ?_⟩
  rw [intoEffectsV1_mutated_ids h, intoEffectsV1_deleted_ids h, intoEffectsV1_wrapped_ids h,
    List.count_append, List.count_append]
  have hwritten := (s.executionResults.written_nodup).filter
    (· ∈ s.executionResults.modifiedObjects)
  have hnotWritten := (s.executionResults.modified_nodup).filter
    (· ∉ s.executionResults.writtenObjects.map (·.1))
  -- a written input is mutated; one not written is deleted or wrapped
  by_cases hw : id ∈ s.executionResults.writtenObjects.map (·.1)
  · rw [List.count_eq_one_of_mem hwritten (by simp [hw, hmod]),
      List.count_eq_zero_of_not_mem (by simp [hw]), List.count_eq_zero_of_not_mem (by simp [hw])]
  · rw [List.count_eq_zero_of_not_mem (by simp [hw])]
    by_cases hd : id ∈ s.executionResults.deletedObjectIds
    · rw [List.count_eq_one_of_mem (hnotWritten.filter _) (by simp [hw, hmod, hd]),
        List.count_eq_zero_of_not_mem (by simp [hd])]
    · rw [List.count_eq_zero_of_not_mem (by simp [hd]),
        List.count_eq_one_of_mem (hnotWritten.filter _) (by simp [hw, hmod, hd])]

/-- (d) Effects of version 1 list a created shared object as shared from the
    lamport version. -/
theorem intoEffectsV1_createdSharedAt :
    CreatedSharedAt e.created s.updateObjectVersionAndPrevTx.lamportTimestamp := by
  intro ref v href
  dsimp only [intoEffectsV1] at h
  obtain ⟨g, -, h⟩ := Option.map_eq_some_iff.mp h
  cases h
  obtain ⟨p, hp, hsel⟩ := List.mem_filterMap.mp href
  -- selected by the branch of a created object not modified
  split at hsel
  · cases hsel
  · split at hsel
    next hc => exact s.sharedVersion_of_mem_updated hp hc (Prod.mk.inj (Option.some.inj hsel)).2
    · cases hsel

/-- (c) With no object both written and deleted, effects of version 1 list
    every object touched under one kind. -/
theorem intoEffectsV1_pairwise_disjoint
    (hwritten : ∀ id ∈ s.executionResults.writtenObjects.map (·.1), id ∉ s.executionResults.deletedObjectIds) :
    List.Pairwise List.Disjoint [e.created.map (·.1.id), e.mutated.map (·.1.id),
      e.unwrapped.map (·.1.id), e.deleted.map (·.id), e.unwrappedThenDeleted.map (·.id),
      e.wrapped.map (·.id)] := by
  rw [intoEffectsV1_created_ids h, intoEffectsV1_mutated_ids h, intoEffectsV1_unwrapped_ids h,
    intoEffectsV1_deleted_ids h, intoEffectsV1_unwrappedThenDeleted_ids h, intoEffectsV1_wrapped_ids h]
  apply pairwise_disjoint_of_kind s.kindV1
  intro i hi id hmem
  -- each list is cut out of the written, the modified or the deleted ids by
  -- the guards of its branch, and these fix the kind
  rcases i with _ | _ | _ | _ | _ | _ | i
  · simp at hmem; simp [kindV1, hmem]
  · simp at hmem; simp [kindV1, hmem]
  · simp at hmem; simp [kindV1, hmem]
  · simp at hmem; simp [kindV1, hmem]
  · simp at hmem
    -- deleted and not modified, hence not written
    have hw : id ∉ s.executionResults.writtenObjects.map (·.1) := fun hw => hwritten id hw hmem.1
    simp [kindV1, hw, hmem]
  · simp at hmem; simp [kindV1, hmem]
  · exact absurd hi (by simp)

end V1

-- ============================================================================
-- The store `charge_gas` leaves
-- ============================================================================

/-- Results as execution leaves them (`check_execution_results_consistency`,
    `check_invariants`): no id created is a mutable input, as created ids are
    fresh; no object is both written and deleted; and a mutable input deleted
    is modified. -/
structure Consistent (st : TemporaryStore) : Prop where
  createdFresh : ∀ id ∈ st.executionResults.createdObjectIds, id ∉ st.mutableInputRefs.map (·.1)
  writtenDeleted : ∀ id ∈ st.executionResults.writtenObjects.map (·.1),
    id ∉ st.executionResults.deletedObjectIds
  deletedModified : ∀ id ∈ st.executionResults.deletedObjectIds, id ∈ st.mutableInputRefs.map (·.1) →
    id ∈ st.executionResults.modifiedObjects

/-- Every mutable input modified, as `check_invariants` asserts. -/
def InputsMutated (st : TemporaryStore) : Prop :=
  ∀ id ∈ st.mutableInputRefs.map (·.1), id ∈ st.executionResults.modifiedObjects

section Consistent

variable {st : TemporaryStore}

/-- `ensure_active_inputs_mutated` keeps the results consistent and modifies
    every mutable input: one it writes back was not modified, so not deleted. -/
theorem Consistent.ensureActiveInputsMutated (h : st.Consistent) :
    st.ensureActiveInputsMutated.Consistent ∧ st.ensureActiveInputsMutated.InputsMutated := by
  obtain ⟨r, heq, hmod, -, hold, hcreated, hdeleted⟩ := ensureActiveInputsMutated_spec st
  rw [heq]
  refine ⟨⟨?_, ?_, ?_⟩, ?_⟩
  · intro id hid
    rw [withResults_executionResults, hcreated] at hid
    exact h.createdFresh id hid
  · intro id hw hd
    rw [withResults_executionResults] at hw hd
    rw [hdeleted] at hd
    by_cases hback : id ∈ st.mutableInputRefs.map (·.1) ∧ id ∉ st.executionResults.modifiedObjects
    · exact hback.2 (h.deletedModified id hd hback.1)
    · have hr : vget r.writtenObjects id = vget st.executionResults.writtenObjects id :=
        hold id fun hin => by
          by_contra hnot
          exact hback ⟨hin, hnot⟩
      rw [← vget_isSome_iff, hr, vget_isSome_iff] at hw
      exact h.writtenDeleted id hw hd
  · intro id _ hin
    exact (hmod id).mpr (.inr hin)
  · intro id hin
    exact (hmod id).mpr (.inr hin)

/-- Collecting storage keeps the ids of every kind. -/
theorem Consistent.collectStorageAndRebate (h : st.Consistent) (objectSize : Object → Nat)
    (gc : GasCharger) : (st.collectStorageAndRebate objectSize gc).1.Consistent := by
  refine ⟨?_, ?_, ?_⟩
  · exact h.createdFresh
  · rw [collectStorageAndRebate_written_keys]
    exact h.writtenDeleted
  · exact h.deletedModified

theorem InputsMutated.collectStorageAndRebate (h : st.InputsMutated) (objectSize : Object → Nat)
    (gc : GasCharger) : (st.collectStorageAndRebate objectSize gc).1.InputsMutated := h

/-- Paying from an input not deleted keeps the results consistent. -/
theorem Consistent.mutateInputObject (h : st.Consistent) {o : Object}
    (hd : o.id ∉ st.executionResults.deletedObjectIds) : (st.mutateInputObject o).Consistent := by
  simp only [TemporaryStore.mutateInputObject]
  refine ⟨?_, ?_, ?_⟩
  · exact h.createdFresh
  · intro id hw
    simp only [withResults_executionResults, ExecutionResultsV2.insertWritten_writtenObjects,
      ExecutionResultsV2.insertModified_writtenObjects, mem_map_vset] at hw
    rcases hw with rfl | hw
    · exact hd
    · exact h.writtenDeleted id hw
  · intro id hdel hin
    simp only [withResults_executionResults, ExecutionResultsV2.insertWritten_modifiedObjects,
      ExecutionResultsV2.insertModified_modifiedObjects, List.mem_insert_iff]
    exact .inr (h.deletedModified id hdel hin)

theorem InputsMutated.mutateInputObject (h : st.InputsMutated) (o : Object) :
    (st.mutateInputObject o).InputsMutated := by
  intro id hin
  simp only [TemporaryStore.mutateInputObject, withResults_executionResults,
    ExecutionResultsV2.insertWritten_modifiedObjects, ExecutionResultsV2.insertModified_modifiedObjects,
    List.mem_insert_iff]
  exact .inr (h id hin)

/-- The results right after smashing are consistent: nothing is created, only
    the gas coin is written, and only other coins are deleted. -/
theorem consistent_of_smashedResults {gasCoins : List ObjectRef} {gasId budget : Nat}
    {r : ExecutionResultsV2} (hsm : GasCharger.SmashedResults st gasCoins gasId budget r) :
    (st.withResults r).Consistent := by
  refine ⟨?_, ?_, ?_⟩
  · intro id hid
    simp [hsm.created] at hid
  · intro id hw hd
    obtain ⟨p, hp, rfl⟩ := List.mem_map.mp hw
    exact (hsm.deleted p.1 hd).2 (hsm.written p hp).1
  · intro id hd _
    exact (hsm.deleted id hd).1

/-- Recording results keeps a store consistent when the results are consistent
    with its inputs, write nothing it deleted, and delete nothing it wrote. -/
theorem Consistent.recordExecutionResults (h : st.Consistent) {r : ExecutionResultsV2}
    (hr : (st.withResults r).Consistent)
    (hwd : ∀ id ∈ r.writtenObjects.map (·.1), id ∉ st.executionResults.deletedObjectIds)
    (hdw : ∀ id ∈ r.deletedObjectIds, id ∉ st.executionResults.writtenObjects.map (·.1)) :
    (st.recordExecutionResults r).Consistent := by
  refine ⟨?_, ?_, ?_⟩
  · intro id hid
    simp only [recordExecutionResults_executionResults, ExecutionResultsV2.mergeResults_createdObjectIds,
      List.mem_union_iff, recordExecutionResults_mutableInputRefs] at hid ⊢
    rcases hid with hid | hid
    · exact hr.createdFresh id hid
    · exact h.createdFresh id hid
  · intro id hw hd
    simp only [recordExecutionResults_executionResults, ExecutionResultsV2.mem_mergeResults_writtenObjects_keys,
      ExecutionResultsV2.mergeResults_deletedObjectIds, List.mem_union_iff] at hw hd
    -- each object written and each id deleted comes from one of the two results
    rcases hw with hw | hw <;> rcases hd with hd | hd
    · exact hr.writtenDeleted id hw hd
    · exact hwd id hw hd
    · exact hdw id hd hw
    · exact h.writtenDeleted id hw hd
  · intro id hd hin
    simp only [recordExecutionResults_executionResults, ExecutionResultsV2.mergeResults_deletedObjectIds,
      ExecutionResultsV2.mergeResults_modifiedObjects, List.mem_union_iff,
      recordExecutionResults_mutableInputRefs] at hd hin ⊢
    rcases hd with hd | hd
    · exact .inl (hr.deletedModified id hd hin)
    · exact .inr (h.deletedModified id hd hin)

end Consistent

/-- What the effects of a store say, of either version: the written Move
    objects at the lamport version and after the transaction, every mutable
    input listed once at the version it was read at, the ids of each kind
    apart, and a created shared object shared from the lamport version. -/
structure EffectsVersioned (st : TemporaryStore) : Prop where
  writtenVersion : ∀ p ∈ st.updateObjectVersionAndPrevTx.executionResults.writtenObjects,
    p.2.isPackage = false → p.2.version = st.lamportTimestamp
  previousTransaction : ∀ p ∈ st.updateObjectVersionAndPrevTx.executionResults.writtenObjects,
    p.2.previousTransaction = st.txDigest
  v2 : ∀ sharedObjectRefs transactionDigest,
    let e := st.intoEffectsV2 sharedObjectRefs transactionDigest
    e.lamportVersion = st.lamportTimestamp ∧
      MutableListedOnce st.mutableInputRefs e.modifiedAtVersions (e.mutated.map (·.1.id))
        (e.deleted.map (·.id)) (e.wrapped.map (·.id)) ∧
      List.Pairwise List.Disjoint [e.created.map (·.1.id), e.mutated.map (·.1.id),
        e.unwrapped.map (·.1.id), e.deleted.map (·.id), e.unwrappedThenDeleted.map (·.id),
        e.wrapped.map (·.id)] ∧
      CreatedSharedAt e.created e.lamportVersion
  v1 : ∀ transactionDigest gasCoin e, st.intoEffectsV1 transactionDigest gasCoin = some e →
    MutableListedOnce st.mutableInputRefs e.modifiedAtVersions (e.mutated.map (·.1.id))
        (e.deleted.map (·.id)) (e.wrapped.map (·.id)) ∧
      List.Pairwise List.Disjoint [e.created.map (·.1.id), e.mutated.map (·.1.id),
        e.unwrapped.map (·.1.id), e.deleted.map (·.id), e.unwrappedThenDeleted.map (·.id),
        e.wrapped.map (·.id)] ∧
      CreatedSharedAt e.created st.lamportTimestamp

/-- A consistent store with every mutable input modified makes such effects. -/
theorem Consistent.effectsVersioned {st : TemporaryStore} (h : st.Consistent) (hm : st.InputsMutated) :
    st.EffectsVersioned where
  writtenVersion _ hp hmove := st.version_of_mem_updated hp hmove
  previousTransaction _ hp := st.previousTransaction_of_mem_updated hp
  v2 sharedObjectRefs transactionDigest :=
    ⟨rfl, st.intoEffectsV2_mutableListedOnce sharedObjectRefs transactionDigest hm h.createdFresh,
      st.intoEffectsV2_pairwise_disjoint sharedObjectRefs transactionDigest,
      st.intoEffectsV2_createdSharedAt sharedObjectRefs transactionDigest⟩
  v1 _ _ _ he := ⟨intoEffectsV1_mutableListedOnce he hm, intoEffectsV1_pairwise_disjoint he h.writtenDeleted,
    intoEffectsV1_createdSharedAt he⟩

end TemporaryStore

namespace GasCharger

open TemporaryStore

variable {α : Type}

/-- `charge_gas` without gas coins mutates the inputs, collects storage, and
    charges nothing. -/
theorem chargeGas_of_unpaid (objectSize : Object → Nat) {gc : GasCharger} (st : TemporaryStore)
    (executionResult : Except ExecutionError α) (h : gc.smashedGasCoin = none) :
    chargeGas objectSize gc st executionResult =
      some ((st.ensureActiveInputsMutated.collectStorageAndRebate objectSize gc).2,
        (st.ensureActiveInputsMutated.collectStorageAndRebate objectSize gc).1, executionResult, default) := by
  have hc : (st.ensureActiveInputsMutated.collectStorageAndRebate objectSize gc).2.smashedGasCoin = none :=
    (st.ensureActiveInputsMutated.collectStorageAndRebate_tracked objectSize gc).smashedGasCoin.trans h
  simp [chargeGas, h, hc]

/-- Gas paid from coins that passed the balance check and were smashed into
    `gasId`: the gas coin is written exactly where modified, and a successful
    execution leaves it funded. -/
structure PaidGas (gc : GasCharger) (st : TemporaryStore) (executionResult : Except ExecutionError α)
    (gasId : Nat) : Prop where
  rate : gc.gasStatus.rebateRate ≤ basisPoints
  pay : GasPayment gc.gasCoins gc.gasStatus.gasBudget st
  head : gc.gasCoins.head?.map (·.id) = some gasId
  smashed : gc.smashedGasCoin = some gasId
  writtenModified : st.WrittenModified gasId
  gasWritten : gasId ∈ st.executionResults.modifiedObjects →
    gasId ∈ st.executionResults.writtenObjects.map (·.1)
  reserve : executionResult.isOk = true → Funded st gasId gc.gasStatus.gasBudget

/-- What the results of a programmable transaction are when the store `st`
    records them, the transaction paying with `gasCoins` for `budget`: the
    part of execution this model does not run (`ObjectRuntime::finish`,
    `ExecutionContext::finish`). An object is written or deleted, never both;
    created ids are fresh; every mutable input is marked modified, so one
    deleted is; the coins smashed away are no inputs of the transaction, so
    none is written; and the gas coin is neither wrapped nor destroyed, is
    written exactly when modified, and after a successful run holds the budget
    again (`refund_max_gas_budget`). -/
structure RuntimeResults (st : TemporaryStore) (gasCoins : List ObjectRef) (budget : Nat)
    (success : Bool) (r : ExecutionResultsV2) : Prop where
  consistent : (st.withResults r).Consistent
  otherCoins : ∀ ref ∈ gasCoins.tail, ref.id ∉ r.writtenObjects.map (·.1)
  gasNotDeleted : ∀ ref ∈ gasCoins.head?, ref.id ∉ r.deletedObjectIds
  gasWritten : ∀ ref ∈ gasCoins.head?,
    ref.id ∈ r.modifiedObjects ↔ ref.id ∈ r.writtenObjects.map (·.1)
  refunded : success = true → ∀ ref ∈ gasCoins.head?, ∀ o, (ref.id, o) ∈ r.writtenObjects →
    ∃ v, o.data = .move true v ∧ budget ≤ v

section Runtime

variable {st : TemporaryStore} {gasCoins : List ObjectRef} {budget gasId : Nat} {success : Bool}
  {rs r : ExecutionResultsV2}

/-- A coin among the paid ones other than the first is one of the rest. -/
theorem mem_tail_of_ne_head {id : Nat} (hhead : gasCoins.head?.map (·.id) = some gasId)
    (hmem : id ∈ gasCoins.map (·.id)) (hne : id ≠ gasId) : ∃ ref ∈ gasCoins.tail, ref.id = id := by
  cases gasCoins with
  | nil => cases hhead
  | cons primary rest =>
    simp only [List.head?_cons, Option.map_some, Option.some.injEq] at hhead
    rcases List.mem_cons.mp hmem with h | h
    · exact absurd (h.trans hhead) hne
    · exact List.mem_map.mp h

/-- The results of a transaction recorded over those of the smash keep the
    store consistent: the runtime writes none of the coins the smash deleted,
    and deletes not the one coin the smash wrote. -/
theorem RuntimeResults.consistent_recordExecutionResults
    (hrt : RuntimeResults st gasCoins budget success r)
    (hsm : SmashedResults st gasCoins gasId budget rs)
    (hhead : gasCoins.head?.map (·.id) = some gasId) :
    ((st.withResults rs).recordExecutionResults r).Consistent := by
  refine (consistent_of_smashedResults hsm).recordExecutionResults hrt.consistent ?_ ?_
  · intro id hw hd
    obtain ⟨hmod, hne⟩ := hsm.deleted id hd
    obtain ⟨ref, href, hrefid⟩ := mem_tail_of_ne_head hhead (hsm.modified id hmod) hne
    exact hrt.otherCoins ref href (hrefid ▸ hw)
  · intro id hd hw
    obtain ⟨p, hp, rfl⟩ := List.mem_map.mp hw
    obtain ⟨ref, href, hrefid⟩ := Option.map_eq_some_iff.mp hhead
    rw [(hsm.written p hp).1, ← hrefid] at hd
    exact hrt.gasNotDeleted ref href hd

/-- The results without a smash, as a transaction with no gas coins has them,
    keep the store consistent. -/
theorem RuntimeResults.consistent_record_empty (hrt : RuntimeResults st gasCoins budget success r) :
    ((st.withResults .empty).recordExecutionResults r).Consistent :=
  Consistent.recordExecutionResults ⟨by simp, by simp, by simp⟩ hrt.consistent (by simp) (by simp)

/-- After a successful run the gas coin of the recorded store holds the budget. -/
theorem RuntimeResults.funded (hrt : RuntimeResults st gasCoins budget true r)
    (hsm : SmashedResults st gasCoins gasId budget rs)
    (hhead : gasCoins.head?.map (·.id) = some gasId) :
    Funded ((st.withResults rs).recordExecutionResults r) gasId budget := by
  obtain ⟨ref, href, hrefid⟩ := Option.map_eq_some_iff.mp hhead
  cases hw : vget r.writtenObjects gasId with
  | some o =>
    -- written by the run: refunded
    have hmem : (ref.id, o) ∈ r.writtenObjects := hrefid ▸ mem_of_vget_eq_some hw
    obtain ⟨v, hdata, hle⟩ := hrt.refunded rfl ref href o hmem
    exact ⟨o, true, v, by rw [readObject_recordExecutionResults, hw], hdata, hle⟩
  | none =>
    -- not written by the run: as the smash left it
    refine hsm.funded.of_readObject ?_
    rw [readObject_recordExecutionResults, hw]

/-- Gas paid from the coins that passed the balance check, once smashed and
    with the results of the run recorded over those of the smash. -/
theorem RuntimeResults.paidGas {gc : GasCharger} {executionResult : Except ExecutionError α}
    (hrt : RuntimeResults st gc.gasCoins gc.gasStatus.gasBudget executionResult.isOk r)
    (hsm : SmashedResults st gc.gasCoins gasId gc.gasStatus.gasBudget rs)
    (hpay : GasPayment gc.gasCoins gc.gasStatus.gasBudget st)
    (hrate : gc.gasStatus.rebateRate ≤ basisPoints) (hhead : gc.gasCoins.head?.map (·.id) = some gasId)
    (hsmashed : gc.smashedGasCoin = some gasId) :
    PaidGas gc ((st.withResults rs).recordExecutionResults r) executionResult gasId := by
  obtain ⟨ref, href, hrefid⟩ := Option.map_eq_some_iff.mp hhead
  have hgas := hrt.gasWritten ref href
  rw [hrefid] at hgas
  refine ⟨hrate, hpay.withResults _, hhead, hsmashed, ?_, ?_, ?_⟩
  · -- written by the run, or by the smash: modified by the same
    intro hw
    simp only [recordExecutionResults_executionResults, ExecutionResultsV2.mem_mergeResults_writtenObjects_keys,
      ExecutionResultsV2.mergeResults_modifiedObjects, List.mem_union_iff] at hw ⊢
    rcases hw with hw | hw
    · exact .inl (hgas.mpr hw)
    · exact .inr (hsm.writtenModified hw)
  · intro hm
    simp only [recordExecutionResults_executionResults, ExecutionResultsV2.mem_mergeResults_writtenObjects_keys,
      ExecutionResultsV2.mergeResults_modifiedObjects, List.mem_union_iff] at hm ⊢
    rcases hm with hm | hm
    · exact .inl (hgas.mp hm)
    · exact .inr (hsm.gas_written hm)
  · intro hok
    rw [hok] at hrt
    exact hrt.funded hsm hhead

end Runtime

/-- A state `charge_gas` of paid gas reaches before it pays from the gas coin:
    the executed store with other results, consistent, every mutable input
    modified, and the gas coin kept and not deleted. -/
structure Ready (st : TemporaryStore) (gasId : Nat) (gc' : GasCharger) (st' : TemporaryStore) : Prop where
  smashed : gc'.smashedGasCoin = some gasId
  consistent : st'.Consistent
  mutated : st'.InputsMutated
  gasNotDeleted : gasId ∉ st'.executionResults.deletedObjectIds
  results : ∃ r, st' = st.withResults r

section Ready

variable {st X : TemporaryStore} {gasId : Nat}

/-- Mutating the inputs of a consistent store whose gas coin is not deleted and
    collecting storage is ready. -/
theorem ready_of_collect (objectSize : Object → Nat) {gc : GasCharger} (hc : X.Consistent)
    (hgas : gasId ∉ X.executionResults.deletedObjectIds) (hsmashed : gc.smashedGasCoin = some gasId)
    (hX : ∃ r, X = st.withResults r) :
    Ready st gasId (X.ensureActiveInputsMutated.collectStorageAndRebate objectSize gc).2
      (X.ensureActiveInputsMutated.collectStorageAndRebate objectSize gc).1 := by
  obtain ⟨hens, hmut⟩ := hc.ensureActiveInputsMutated
  obtain ⟨r, heq, -, -, -, -, hdeleted⟩ := ensureActiveInputsMutated_spec X
  refine ⟨(X.ensureActiveInputsMutated.collectStorageAndRebate_tracked objectSize gc).smashedGasCoin.trans
      hsmashed, hens.collectStorageAndRebate objectSize gc, hmut.collectStorageAndRebate objectSize gc, ?_, ?_⟩
  · rw [collectStorageAndRebate_deletedObjectIds, heq, withResults_executionResults, hdeleted]
    exact hgas
  · obtain ⟨rX, rfl⟩ := hX
    obtain ⟨r', hr'⟩ := (st.withResults rX).ensureActiveInputsMutated_collect_eq objectSize gc
    exact ⟨r', hr'⟩

/-- Mutating the inputs of a consistent store whose gas coin is not deleted and
    collecting the input rebates alone is ready. -/
theorem ready_of_collectRebate {gc : GasCharger} (hc : X.Consistent)
    (hgas : gasId ∉ X.executionResults.deletedObjectIds) (hsmashed : gc.smashedGasCoin = some gasId)
    (hX : ∃ r, X = st.withResults r) :
    Ready st gasId (X.ensureActiveInputsMutated.collectRebate gc) X.ensureActiveInputsMutated := by
  obtain ⟨hens, hmut⟩ := hc.ensureActiveInputsMutated
  obtain ⟨r, heq, -, -, -, -, hdeleted⟩ := ensureActiveInputsMutated_spec X
  refine ⟨(X.ensureActiveInputsMutated.collectRebate_tracked gc).1.smashedGasCoin.trans hsmashed, hens, hmut,
    ?_, ?_⟩
  · rw [heq, withResults_executionResults, hdeleted]
    exact hgas
  · obtain ⟨rX, rfl⟩ := hX
    exact ⟨r, heq⟩

end Ready

/-- Every path of `charge_gas` from paid gas leaves a consistent store with
    every mutable input modified and the gas coin written: the executed store
    when execution succeeded and storage was charged, else the store reset to
    the smashed coins, whose results are consistent by construction. -/
theorem chargeGas_consistent_of_paid (objectSize : Object → Nat) {gc : GasCharger} {st : TemporaryStore}
    (executionResult : Except ExecutionError α) {gasId : Nat} (hpaid : PaidGas gc st executionResult gasId)
    (hcons : executionResult.isOk = true → st.Consistent) :
    ∃ gc' st' res sm, chargeGas objectSize gc st executionResult = some (gc', st', res, sm) ∧
      gc'.smashedGasCoin = some gasId ∧ gasId ∈ st'.executionResults.writtenObjects.map (·.1) ∧
      st'.Consistent ∧ st'.InputsMutated ∧ ∃ r, st' = st.withResults r := by
  obtain ⟨gc', st', res', sm, o, o', hcharge, hready, -, -, -, ho, hded⟩ :=
    chargeGas_charged objectSize executionResult (Ready st gasId) hpaid.rate hpaid.pay hpaid.head
      hpaid.smashed hpaid.writtenModified hpaid.reserve
      (fun hX hok _ =>
        -- the executed store: its gas coin, modified, is written, so not deleted
        have hc := hcons hok
        have hmut := hX.mem_mutableInputRefs
        ready_of_collect objectSize hc
          (fun hd => hc.writtenDeleted gasId (hpaid.gasWritten (hc.deletedModified gasId hd hmut)) hd)
          hX.smashedGasCoin ⟨_, rfl⟩)
      (fun _ Y r hY _ hsm ⟨rY, hrY⟩ _ =>
        ready_of_collect objectSize (consistent_of_smashedResults hsm) (fun hd => (hsm.deleted gasId hd).2 rfl)
          hY.smashedGasCoin ⟨r, by rw [hrY]; rfl⟩)
      (fun _ Z r hZ hsm ⟨rZ, hrZ⟩ =>
        ready_of_collectRebate (consistent_of_smashedResults hsm) (fun hd => (hsm.deleted gasId hd).2 rfl)
          hZ.smashedGasCoin ⟨r, by rw [hrZ]; rfl⟩)
  have hoid : o'.id = gasId := (deductGas_id_storageRebate hded).1.trans (st'.readObject_id ho)
  obtain ⟨r, rfl⟩ := hready.results
  refine ⟨gc', _, res', sm, hcharge, hready.smashed, ?_,
    hready.consistent.mutateInputObject (hoid ▸ hready.gasNotDeleted), hready.mutated.mutateInputObject o',
    _, rfl⟩
  simp [TemporaryStore.mutateInputObject, mem_map_vset, hoid]

end GasCharger

namespace TemporaryStore

open GasCharger

/-- Charging a store made by `TemporaryStore::new` and given results, on any
    path of `charge_gas` (without gas coins; or paid, successful or not, reset
    after an abort or a bucketize error, charged again after a storage
    out-of-gas), leaves a store whose effects of either version are versioned:
    every written Move object at the lamport version, which is above every
    version read and every version received; every mutable input listed once,
    as mutated, deleted or wrapped, at the version it was read at; the ids of
    each kind apart; a created shared object shared from the lamport version;
    every written object with the transaction as its previous one; and the gas
    coin effects of version 1 read written. The results are taken consistent
    where `charge_gas` keeps them. -/
theorem chargeGas_effectsVersioned {α : Type} (objectSize : Object → Nat) (gc : GasCharger) (st0 : TemporaryStore)
    (r : ExecutionResultsV2) (executionResult : Except ExecutionError α) {inputs : InputObjects}
    {receivingObjects : List ObjectRef} {txDigest : Nat} {systemPackage : Nat → Object}
    (hnew : TemporaryStore.new inputs receivingObjects txDigest systemPackage = some st0)
    (hgas : gc.smashedGasCoin = none ∨ ∃ gasId, PaidGas gc (st0.withResults r) executionResult gasId)
    (hcons : gc.smashedGasCoin = none ∨ executionResult.isOk = true → (st0.withResults r).Consistent) :
    ∃ gc' st' res sm, chargeGas objectSize gc (st0.withResults r) executionResult = some (gc', st', res, sm) ∧
      (∀ o ∈ inputs.objects, ∀ v, InputObjects.inputVersion o = some v → v < st'.lamportTimestamp) ∧
      (∀ ref ∈ st'.receivingObjects, ref.version < st'.lamportTimestamp) ∧
      st'.EffectsVersioned ∧
      ∀ transactionDigest, (st'.intoEffectsV1 transactionDigest gc'.smashedGasCoin).isSome := by
  obtain ⟨hinputs, hreceiving⟩ := st0.new_lamportTimestamp_gt hnew
  -- every path leaves the new store with other results, consistent and with
  -- its inputs mutated
  suffices h : ∃ gc' st' res sm,
      chargeGas objectSize gc (st0.withResults r) executionResult = some (gc', st', res, sm) ∧
      (∃ r', st' = st0.withResults r') ∧ st'.Consistent ∧ st'.InputsMutated ∧
      ∀ transactionDigest, (st'.intoEffectsV1 transactionDigest gc'.smashedGasCoin).isSome by
    obtain ⟨gc', st', res, sm, hcharge, ⟨r', rfl⟩, hc, hm, hv1⟩ := h
    exact ⟨gc', _, res, sm, hcharge, hinputs, hreceiving, hc.effectsVersioned hm, hv1⟩
  rcases hgas with hnone | ⟨gasId, hpaid⟩
  · -- no gas coins: the store as executed, with its inputs mutated
    obtain ⟨hens, hmut⟩ := (hcons (.inl hnone)).ensureActiveInputsMutated
    obtain ⟨r', hr'⟩ := (st0.withResults r).ensureActiveInputsMutated_collect_eq objectSize gc
    have hsmashed : ((st0.withResults r).ensureActiveInputsMutated.collectStorageAndRebate objectSize
        gc).2.smashedGasCoin = none :=
      ((st0.withResults r).ensureActiveInputsMutated.collectStorageAndRebate_tracked objectSize
        gc).smashedGasCoin.trans hnone
    refine ⟨_, _, _, _, chargeGas_of_unpaid objectSize _ executionResult hnone, ⟨r', hr'⟩,
      hens.collectStorageAndRebate objectSize gc, hmut.collectStorageAndRebate objectSize gc,
      fun transactionDigest => ?_⟩
    rw [hsmashed]
    exact intoEffectsV1_isSome _ transactionDigest fun _ h => by cases h
  · obtain ⟨gc', st', res, sm, hcharge, hsmashed, hw, hc, hm, r', rfl⟩ :=
      chargeGas_consistent_of_paid objectSize executionResult hpaid fun hok => hcons (.inr hok)
    refine ⟨gc', _, res, sm, hcharge, ⟨r', rfl⟩, hc, hm, fun transactionDigest => ?_⟩
    rw [hsmashed]
    exact intoEffectsV1_isSome _ transactionDigest fun _ h => Option.some.inj h ▸ hw

/-- Effects object versioning. A transaction whose inputs `TemporaryStore::new`
    makes a store of, paying with coins that passed the balance check (or with
    none, as a system transaction), has its coins smashed by a charger made by
    `GasCharger::new`; then whatever results its programmable transaction
    records, as the runtime makes them, and whatever its outcome, `charge_gas`
    charges it on one of its paths and leaves a store whose effects of either
    version are versioned: every written Move object at the lamport version,
    which is above every version read and every version received; every
    mutable input listed once, as mutated, deleted or wrapped, at the version
    it was read at; the ids of each kind apart; a created shared object shared
    from the lamport version; every written object with the transaction as
    its previous one; and the gas coin effects of version 1 read written. A
    run that records nothing is the empty results. -/
theorem into_effects_versioned {α : Type} (objectSize : Object → Nat) {inputs : InputObjects}
    {receivingObjects : List ObjectRef} {txDigest : Nat} {systemPackage : Nat → Object}
    {st0 : TemporaryStore} (hnew : TemporaryStore.new inputs receivingObjects txDigest systemPackage = some st0)
    (gasCoins : List ObjectRef) (gasStatus : MgoGasStatus) (gasModelVersion : Nat)
    (hpay : GasPayment gasCoins gasStatus.gasBudget st0) (hrate : gasStatus.rebateRate ≤ basisPoints)
    (executionResult : Except ExecutionError α) :
    ∃ gc₁ st₁, (GasCharger.new txDigest gasCoins gasStatus gasModelVersion).smashGas st0 = some (gc₁, st₁) ∧
      ∀ r, RuntimeResults st0 gasCoins gasStatus.gasBudget executionResult.isOk r →
      ∃ gc' st' res sm,
        chargeGas objectSize gc₁ (st₁.recordExecutionResults r) executionResult = some (gc', st', res, sm) ∧
        (∀ o ∈ inputs.objects, ∀ v, InputObjects.inputVersion o = some v → v < st'.lamportTimestamp) ∧
        (∀ ref ∈ st'.receivingObjects, ref.version < st'.lamportTimestamp) ∧
        st'.EffectsVersioned ∧
        ∀ transactionDigest, (st'.intoEffectsV1 transactionDigest gc'.smashedGasCoin).isSome := by
  let gc := GasCharger.new txDigest gasCoins gasStatus gasModelVersion
  have hdrop := st0.new_dropWrites hnew
  cases hcoins : gasCoins with
  | nil =>
    -- no gas coins: nothing is smashed, and nothing paid
    subst hcoins
    refine ⟨gc, st0, rfl, fun r hrt => ?_⟩
    have hempty : st0.withResults .empty = st0 := hdrop
    have hcons : (st0.recordExecutionResults r).Consistent := by
      have h := hrt.consistent_record_empty
      rwa [hempty] at h
    exact chargeGas_effectsVersioned objectSize gc st0 _ executionResult hnew (.inl rfl) fun _ => hcons
  | cons primary rest =>
    subst hcoins
    have hhead : gc.gasCoins.head?.map (·.id) = some primary.id := rfl
    have hpay' : GasPayment gc.gasCoins gc.gasStatus.gasBudget st0 := hpay
    obtain ⟨c, rs, hsmash, hc, hsm⟩ := smashGas_dropWrites_spec hpay' hhead
    rw [hdrop] at hsmash
    refine ⟨_, _, hsmash, fun r hrt => ?_⟩
    have hcons := hrt.consistent_recordExecutionResults hsm hhead
    have hgas : c = none ∨ ∃ gasId, PaidGas { gc with smashedGasCoin := c }
        ((st0.withResults rs).recordExecutionResults r) executionResult gasId := by
      rcases hc with hc | hc
      · -- a lone `ObjectID::ZERO`: left unsmashed, and charged nothing
        exact .inl hc
      · -- smashed into the first coin, which pays
        exact .inr ⟨primary.id, hrt.paidGas hsm hpay hrate hhead hc⟩
    exact chargeGas_effectsVersioned objectSize { gc with smashedGasCoin := c } st0 (rs.mergeResults r)
      executionResult hnew hgas fun _ => hcons

/-- Sender `1` pays with its coins `10` and `11`, and owns `12` and `13`. -/
def twoCoinInputs : InputObjects :=
  ⟨[.newFromGasObject ⟨10, 3, .move true 1500000, .addressOwner 1, 30, 0, 400⟩,
    .newFromGasObject ⟨11, 3, .move true 1000000, .addressOwner 1, 31, 0, 300⟩,
    .newFromGasObject ⟨12, 5, .move false 0, .addressOwner 1, 32, 0, 500⟩,
    .newFromGasObject ⟨13, 2, .move false 0, .addressOwner 1, 33, 0, 200⟩]⟩

/-- The store `TemporaryStore::new` makes of `twoCoinInputs`. -/
def twoCoinStore : TemporaryStore :=
  (TemporaryStore.new twoCoinInputs [] 9 paidStore.systemPackage).get rfl

/-- A run that refunds the budget to the gas coin `10`, gives `13` to sender
    `2`, deletes `12` and creates `20` for sender `2`. -/
def twoCoinRun : ExecutionResultsV2 where
  writtenObjects := [(10, ⟨10, 3, .move true 2500000, .addressOwner 1, 30, 0, 400⟩),
    (13, ⟨13, 2, .move false 0, .addressOwner 2, 33, 0, 200⟩),
    (20, ⟨20, 0, .move false 0, .addressOwner 2, 0, 0, 0⟩)]
  modifiedObjects := [10, 12, 13]
  createdObjectIds := [20]
  deletedObjectIds := [12]
  written_id := by decide
  written_nodup := by decide
  modified_nodup := by decide
  created_nodup := by decide
  deleted_nodup := by decide

/-- The coins `10` and `11` pass the balance check for a budget of 2000000. -/
theorem twoCoinStore_gasPayment :
    GasPayment [⟨10, 3, 30⟩, ⟨11, 3, 31⟩] paidCharger.gasStatus.gasBudget twoCoinStore := by
  refine ⟨?_, by decide, by decide, by decide⟩
  intro ref href
  simp only [List.mem_cons, List.not_mem_nil, or_false] at href
  rcases href with rfl | rfl
  · exact ⟨1500000, rfl⟩
  · exact ⟨1000000, rfl⟩

/-- `twoCoinRun` is what the runtime records for a successful run. -/
theorem twoCoinRun_runtimeResults :
    RuntimeResults twoCoinStore [⟨10, 3, 30⟩, ⟨11, 3, 31⟩] paidCharger.gasStatus.gasBudget true twoCoinRun := by
  refine ⟨⟨by decide, by decide, by decide⟩, by decide, by decide, by decide, ?_⟩
  intro _ ref href o ho
  simp only [List.head?_cons, Option.mem_def, Option.some.injEq] at href
  subst href
  simp only [twoCoinRun, List.mem_cons, Prod.mk.injEq, List.not_mem_nil, or_false] at ho
  rcases ho with ⟨-, rfl⟩ | ⟨h, -⟩ | ⟨h, -⟩
  · exact ⟨2500000, rfl, by decide⟩
  · cases h
  · cases h

/-- Two coins smashed, a run that writes, deletes and creates, and its success:
    the effects are versioned. -/
theorem into_effects_versioned_two_coins :
    ∃ gc₁ st₁, (GasCharger.new 9 [⟨10, 3, 30⟩, ⟨11, 3, 31⟩] paidCharger.gasStatus 5).smashGas twoCoinStore =
        some (gc₁, st₁) ∧
      ∃ gc' st' res sm, chargeGas (fun _ => 100) gc₁ (st₁.recordExecutionResults twoCoinRun)
          (.ok () : Except ExecutionError Unit) = some (gc', st', res, sm) ∧
        (∀ o ∈ twoCoinInputs.objects, ∀ v, InputObjects.inputVersion o = some v →
          v < st'.lamportTimestamp) ∧
        (∀ ref ∈ st'.receivingObjects, ref.version < st'.lamportTimestamp) ∧
        st'.EffectsVersioned ∧
        ∀ transactionDigest, (st'.intoEffectsV1 transactionDigest gc'.smashedGasCoin).isSome := by
  obtain ⟨gc₁, st₁, hsmash, h⟩ := into_effects_versioned (fun _ => 100) (Option.some_get _).symm
    [⟨10, 3, 30⟩, ⟨11, 3, 31⟩] paidCharger.gasStatus 5 twoCoinStore_gasPayment (by decide)
    (.ok () : Except ExecutionError Unit)
  exact ⟨gc₁, st₁, hsmash, h twoCoinRun twoCoinRun_runtimeResults⟩

end TemporaryStore

end Mango.Adapter
