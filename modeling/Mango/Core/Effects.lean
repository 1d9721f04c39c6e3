/-
  Mango.Core.Effects

  Transaction effects as the authority stores and reads them
  (`crates/mgo-types/src/effects/effects_v2.rs`, `object_change.rs`): the
  lamport version a transaction writes at, one change per object it touched
  (what the object was before, what it is after, and whether its id was
  created or deleted), and how it used each shared input it left unchanged.
  The accessors of `TransactionEffectsAPI` that the store reads (the objects
  modified, written, deleted and wrapped, the tombstones, the shared inputs)
  are computed from those two lists as the code computes them.

  Of the effects the model leaves out the execution status, the gas summary,
  the events digest and the dependencies: none of the modelled code reads
  them. The store keys tables by digests the model takes as numbers; a
  tombstone's digest is the byte the code repeats in it.
-/
import Mathlib
import Mango.Core.Object

namespace Mango.Core

/-- `ObjectDigest::OBJECT_DIGEST_DELETED`, `[99; 32]`. -/
def objectDigestDeleted : Nat := 99

/-- `ObjectDigest::OBJECT_DIGEST_WRAPPED`, `[88; 32]`. -/
def objectDigestWrapped : Nat := 88

/-- `ObjectIn`: the object before the transaction, if it existed at the root. -/
inductive ObjectIn where
  | notExist
  /-- The old version, digest and owner. -/
  | exist (version digest : Nat) (owner : Owner)
  deriving DecidableEq, Repr

/-- `ObjectOut`: the object after the transaction. -/
inductive ObjectOut where
  | notExist
  /-- A Move object written at the lamport version, with its digest and owner. -/
  | objectWrite (digest : Nat) (owner : Owner)
  /-- A package, which keeps a version of its own. -/
  | packageWrite (version digest : Nat)
  deriving DecidableEq, Repr

/-- `IDOperation`. -/
inductive IDOperation where
  | none
  | created
  | deleted
  deriving DecidableEq, Repr

/-- `EffectsObjectChange`. -/
structure EffectsObjectChange where
  inputState : ObjectIn
  outputState : ObjectOut
  idOperation : IDOperation
  deriving DecidableEq, Repr

/-- `EffectsObjectChange::new`, from the metadata of the object as it was
    modified, the object written, and whether its id was created or deleted. -/
def EffectsObjectChange.new (modifiedAt : Option ((Nat × Nat) × Owner)) (written : Option Object)
    (idCreated idDeleted : Bool) : EffectsObjectChange where
  inputState := match modifiedAt with
    | some ((version, digest), owner) => .exist version digest owner
    | none => .notExist
  outputState := match written with
    | some o => if o.isPackage then .packageWrite o.version o.digest else .objectWrite o.digest o.owner
    | none => .notExist
  idOperation := if idCreated then .created else if idDeleted then .deleted else .none

/-- Which list of `TransactionEffectsAPI` a change falls in: created (0),
    mutated (1), unwrapped (2), deleted (3), unwrapped then deleted (4),
    wrapped (5), or none of them (6). -/
def EffectsObjectChange.kind (change : EffectsObjectChange) : Nat :=
  match change.inputState, change.outputState, change.idOperation with
  | .notExist, .objectWrite .., .created => 0
  | .notExist, .packageWrite .., .created => 0
  | .exist .., .objectWrite .., _ => 1
  | .exist .., .packageWrite .., _ => 1
  | .notExist, .objectWrite .., .none => 2
  | .exist .., .notExist, .deleted => 3
  | .notExist, .notExist, .deleted => 4
  | .exist .., .notExist, .none => 5
  | _, _, _ => 6

/-- `UnchangedSharedKind`: a shared input the transaction did not change. -/
inductive UnchangedSharedKind where
  /-- Read, at this version and digest. -/
  | readOnlyRoot (version digest : Nat)
  /-- Taken mutably, but deleted before, at this version. -/
  | mutateDeleted (version : Nat)
  /-- Read, but deleted before, at this version. -/
  | readDeleted (version : Nat)
  deriving DecidableEq, Repr

/-- `InputSharedObject`: how a transaction used one shared input. -/
inductive InputSharedObject where
  | mutate (ref : ObjectRef)
  | readOnly (ref : ObjectRef)
  | readDeleted (id version : Nat)
  | mutateDeleted (id version : Nat)
  deriving DecidableEq, Repr

/-- `SharedInput`: a shared input as execution loaded it, existing or deleted. -/
inductive SharedInput where
  | existing (ref : ObjectRef)
  /-- The id, the version it was deleted at, whether it is taken mutably, and
      the digest of the transaction that deleted it. -/
  | deleted (id version : Nat) (mutable : Bool) (digest : Nat)
  deriving DecidableEq, Repr

/-- `TransactionEffectsV2`, with the fields the store reads. -/
structure TransactionEffects where
  transactionDigest : Nat
  lamportVersion : Nat
  changedObjects : List (Nat × EffectsObjectChange)
  unchangedSharedObjects : List (Nat × UnchangedSharedKind)
  deriving DecidableEq, Repr

/-- `TransactionEffectsV1` as `new_from_execution_v1` makes it, with the fields
    the modelled code fills from the store: the transaction, the versions the
    modified objects had, the six lists of objects changed, and the gas object. -/
structure TransactionEffectsV1 where
  transactionDigest : Nat
  modifiedAtVersions : List (Nat × Nat)
  created : List (ObjectRef × Owner)
  mutated : List (ObjectRef × Owner)
  unwrapped : List (ObjectRef × Owner)
  deleted : List ObjectRef
  unwrappedThenDeleted : List ObjectRef
  wrapped : List ObjectRef
  gasObject : ObjectRef × Owner
  deriving DecidableEq, Repr

namespace TransactionEffects

/-- `TransactionEffectsV2::new`: a shared input is listed as unchanged when no
    change names it, and a deleted one always. -/
def new (sharedObjects : List SharedInput) (transactionDigest lamportVersion : Nat)
    (changedObjects : List (Nat × EffectsObjectChange)) : TransactionEffects where
  transactionDigest := transactionDigest
  lamportVersion := lamportVersion
  changedObjects := changedObjects
  unchangedSharedObjects := sharedObjects.filterMap fun
    | .existing ⟨id, version, digest⟩ =>
      if changedObjects.any (·.1 == id) then none else some (id, .readOnlyRoot version digest)
    | .deleted id version mutable _ =>
      if mutable then some (id, .mutateDeleted version) else some (id, .readDeleted version)

variable (e : TransactionEffects)

/-- `modified_at_versions`: every object that existed before, at its old version. -/
def modifiedAtVersions : List (Nat × Nat) :=
  e.changedObjects.filterMap fun (id, change) =>
    match change.inputState with
    | .exist version _ _ => some (id, version)
    | .notExist => none

/-- `input_shared_objects`: the shared inputs it changed, then those it did not. -/
def inputSharedObjects : List InputSharedObject :=
  e.changedObjects.filterMap (fun (id, change) =>
    match change.inputState with
    | .exist version digest (.shared _) => some (.mutate ⟨id, version, digest⟩)
    | _ => none) ++
  e.unchangedSharedObjects.map fun (id, kind) =>
    match kind with
    | .readOnlyRoot version digest => .readOnly ⟨id, version, digest⟩
    | .mutateDeleted version => .mutateDeleted id version
    | .readDeleted version => .readDeleted id version

/-- `created`. -/
def created : List (ObjectRef × Owner) :=
  e.changedObjects.filterMap fun (id, change) =>
    match change.inputState, change.outputState, change.idOperation with
    | .notExist, .objectWrite digest owner, .created => some (⟨id, e.lamportVersion, digest⟩, owner)
    | .notExist, .packageWrite version digest, .created => some (⟨id, version, digest⟩, .immutable)
    | _, _, _ => none

/-- `mutated`. -/
def mutated : List (ObjectRef × Owner) :=
  e.changedObjects.filterMap fun (id, change) =>
    match change.inputState, change.outputState with
    | .exist .., .objectWrite digest owner => some (⟨id, e.lamportVersion, digest⟩, owner)
    | .exist .., .packageWrite version digest => some (⟨id, version, digest⟩, .immutable)
    | _, _ => none

/-- `unwrapped`. -/
def unwrapped : List (ObjectRef × Owner) :=
  e.changedObjects.filterMap fun (id, change) =>
    match change.inputState, change.outputState, change.idOperation with
    | .notExist, .objectWrite digest owner, .none => some (⟨id, e.lamportVersion, digest⟩, owner)
    | _, _, _ => none

/-- `deleted`. -/
def deleted : List ObjectRef :=
  e.changedObjects.filterMap fun (id, change) =>
    match change.inputState, change.outputState, change.idOperation with
    | .exist .., .notExist, .deleted => some ⟨id, e.lamportVersion, objectDigestDeleted⟩
    | _, _, _ => none

/-- `unwrapped_then_deleted`. -/
def unwrappedThenDeleted : List ObjectRef :=
  e.changedObjects.filterMap fun (id, change) =>
    match change.inputState, change.outputState, change.idOperation with
    | .notExist, .notExist, .deleted => some ⟨id, e.lamportVersion, objectDigestDeleted⟩
    | _, _, _ => none

/-- `wrapped`. -/
def wrapped : List ObjectRef :=
  e.changedObjects.filterMap fun (id, change) =>
    match change.inputState, change.outputState, change.idOperation with
    | .exist .., .notExist, .none => some ⟨id, e.lamportVersion, objectDigestWrapped⟩
    | _, _, _ => none

/-- `all_changed_objects`: mutated, created and unwrapped. -/
def allChangedObjects : List (ObjectRef × Owner) :=
  e.mutated ++ e.created ++ e.unwrapped

/-- `all_tombstones`: deleted, unwrapped then deleted, and wrapped. -/
def allTombstones : List (Nat × Nat) :=
  (e.deleted ++ e.unwrappedThenDeleted ++ e.wrapped).map fun r => (r.id, r.version)

/-- `deleted_mutably_accessed_shared_objects`. -/
def deletedMutablyAccessedSharedObjects : List Nat :=
  e.inputSharedObjects.filterMap fun
    | .mutateDeleted id _ => some id
    | _ => none

/-! ### The kinds of change -/

/-- The ids of the changes of one kind, in the order of the changes. -/
def idsOfKind (k : Nat) : List Nat :=
  e.changedObjects.filterMap fun p => if p.2.kind = k then some p.1 else none

theorem created_ids : e.created.map (·.1.id) = e.idsOfKind 0 := by
  unfold created idsOfKind
  rw [List.map_filterMap]
  apply List.filterMap_congr
  rintro ⟨id, ⟨_ | _, _ | _ | _, _ | _ | _⟩⟩ - <;> rfl

theorem mutated_ids : e.mutated.map (·.1.id) = e.idsOfKind 1 := by
  unfold mutated idsOfKind
  rw [List.map_filterMap]
  apply List.filterMap_congr
  rintro ⟨id, ⟨_ | _, _ | _ | _, _ | _ | _⟩⟩ - <;> rfl

theorem unwrapped_ids : e.unwrapped.map (·.1.id) = e.idsOfKind 2 := by
  unfold unwrapped idsOfKind
  rw [List.map_filterMap]
  apply List.filterMap_congr
  rintro ⟨id, ⟨_ | _, _ | _ | _, _ | _ | _⟩⟩ - <;> rfl

theorem deleted_ids : e.deleted.map (·.id) = e.idsOfKind 3 := by
  unfold deleted idsOfKind
  rw [List.map_filterMap]
  apply List.filterMap_congr
  rintro ⟨id, ⟨_ | _, _ | _ | _, _ | _ | _⟩⟩ - <;> rfl

theorem unwrappedThenDeleted_ids : e.unwrappedThenDeleted.map (·.id) = e.idsOfKind 4 := by
  unfold unwrappedThenDeleted idsOfKind
  rw [List.map_filterMap]
  apply List.filterMap_congr
  rintro ⟨id, ⟨_ | _, _ | _ | _, _ | _ | _⟩⟩ - <;> rfl

theorem wrapped_ids : e.wrapped.map (·.id) = e.idsOfKind 5 := by
  unfold wrapped idsOfKind
  rw [List.map_filterMap]
  apply List.filterMap_congr
  rintro ⟨id, ⟨_ | _, _ | _ | _, _ | _ | _⟩⟩ - <;> rfl

/-- A created object's entry is the one of a change that created its id and
    wrote it: a Move object with its owner, or an immutable package. -/
theorem mem_created {ref : ObjectRef} {owner : Owner} (h : (ref, owner) ∈ e.created) :
    ∃ change, (ref.id, change) ∈ e.changedObjects ∧ change.idOperation = .created ∧
      ((∃ digest, change.outputState = .objectWrite digest owner) ∨
        (owner = .immutable ∧ ∃ version digest, change.outputState = .packageWrite version digest)) := by
  unfold created at h
  obtain ⟨⟨id, change⟩, hmem, hsel⟩ := List.mem_filterMap.mp h
  obtain ⟨inputState, outputState, idOperation⟩ := change
  cases inputState <;> cases outputState <;> cases idOperation <;> simp at hsel
  · obtain ⟨rfl, rfl⟩ := hsel
    exact ⟨_, hmem, rfl, .inl ⟨_, rfl⟩⟩
  · obtain ⟨rfl, rfl⟩ := hsel
    exact ⟨_, hmem, rfl, .inr ⟨rfl, _, _, rfl⟩⟩

section Kinds

variable {e} (hnodup : (e.changedObjects.map (·.1)).Nodup)
include hnodup

/-- With one change per id, an id is listed once under the kind of its change. -/
theorem count_idsOfKind {id : Nat} {change : EffectsObjectChange} (hmem : (id, change) ∈ e.changedObjects)
    (k : Nat) : (e.idsOfKind k).count id = if change.kind = k then 1 else 0 := by
  rw [idsOfKind, ← List.map_id (e.changedObjects.filterMap _)]
  refine (Mango.Lib.count_map_filterMap hnodup ?_ hmem).trans ?_
  · intro p b hp
    split at hp
    · cases hp
      rfl
    · cases hp
  · by_cases hk : change.kind = k <;> simp [hk]

/-- With one change per id, the ids of two kinds are disjoint. -/
theorem idsOfKind_disjoint {k j : Nat} (hkj : k ≠ j) : (e.idsOfKind k).Disjoint (e.idsOfKind j) := by
  intro id hk hj
  obtain ⟨p, hp, hsel⟩ := List.mem_filterMap.mp hk
  have hkind : p.2.kind = k := by
    by_contra hne
    simp [hne] at hsel
  have hid : p.1 = id := by simpa [hkind] using hsel
  have hcount := count_idsOfKind hnodup (show (p.1, p.2) ∈ e.changedObjects from hp) j
  rw [hid, if_neg (hkind ▸ hkj)] at hcount
  exact List.count_eq_zero.mp hcount hj

/-- The objects created, mutated, unwrapped, deleted, unwrapped then deleted
    and wrapped are distinct: each id has one change, of one kind. -/
theorem pairwise_disjoint_ids :
    List.Pairwise List.Disjoint [e.created.map (·.1.id), e.mutated.map (·.1.id),
      e.unwrapped.map (·.1.id), e.deleted.map (·.id), e.unwrappedThenDeleted.map (·.id),
      e.wrapped.map (·.id)] := by
  rw [created_ids, mutated_ids, unwrapped_ids, deleted_ids, unwrappedThenDeleted_ids, wrapped_ids]
  show List.Pairwise List.Disjoint ([0, 1, 2, 3, 4, 5].map e.idsOfKind)
  rw [List.pairwise_map]
  exact List.Pairwise.imp (fun hkj => idsOfKind_disjoint hnodup hkj) (by decide)

end Kinds

end TransactionEffects

end Mango.Core
