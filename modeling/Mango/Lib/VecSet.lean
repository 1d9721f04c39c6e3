/-
  Mango.Lib.VecSet

  Sets kept as a vector of distinct keys in insertion order, as Move's
  `vec_set` keeps them: `insert` appends a key after checking that it is new,
  and `remove` takes the key out of the vector where it stands. The keys are
  distinct, a field of the structure. A call that aborts in Move returns
  `none`.

  Two sets with the same keys have the same size, and a set whose keys are all
  in another of no more keys has exactly that set's keys: the counting
  argument by which a check of sizes and memberships compares two sets.
-/
import Mathlib

namespace Mango.Lib

/-- A set over a vector of distinct keys. -/
structure VecSet (K : Type _) where
  contents : List K
  nodup : contents.Nodup

namespace VecSet

variable {K : Type _} [DecidableEq K]

/-- `vec_set::empty`. -/
def empty : VecSet K := ⟨[], List.nodup_nil⟩

/-- `vec_set::contains`: some key of the vector is the key. -/
def contains (s : VecSet K) (k : K) : Bool := s.contents.contains k

/-- `vec_set::size`. -/
def size (s : VecSet K) : Nat := s.contents.length

/-- `vec_set::into_keys`. -/
def intoKeys (s : VecSet K) : List K := s.contents

/-- `vec_set::insert`: `EKeyAlreadyExists` is `none`. -/
def insert (s : VecSet K) (k : K) : Option (VecSet K) :=
  if h : k ∈ s.contents then none
  else some ⟨s.contents ++ [k], List.nodup_append.mpr ⟨s.nodup, List.nodup_singleton k,
    fun _ ha _ hb hab => h (by rw [List.mem_singleton] at hb; rwa [← hb, ← hab])⟩⟩

/-- `vec_set::remove`: `get_idx` aborts with `EKeyDoesNotExist`, which is
    `none`, and `vector::remove` takes out the one occurrence of the key. -/
def remove (s : VecSet K) (k : K) : Option (VecSet K) :=
  if k ∈ s.contents then some ⟨s.contents.erase k, s.nodup.erase k⟩ else none

theorem contains_iff {s : VecSet K} {k : K} : s.contains k = true ↔ k ∈ s.contents :=
  List.contains_iff_mem

omit [DecidableEq K] in
/-- Two sets with the same vector are the same set. -/
theorem ext {s s' : VecSet K} (h : s.contents = s'.contents) : s = s' := by
  cases s
  cases s'
  cases h
  rfl

theorem insert_eq_some_iff {s s' : VecSet K} {k : K} :
    s.insert k = some s' ↔ k ∉ s.contents ∧ s'.contents = s.contents ++ [k] := by
  unfold insert
  by_cases h : k ∈ s.contents
  · simp [h]
  · rw [dif_neg h, Option.some.injEq]
    exact ⟨fun hs => ⟨h, hs ▸ rfl⟩, fun ⟨_, hc⟩ => ext hc.symm⟩

theorem insert_eq_none_iff {s : VecSet K} {k : K} : s.insert k = none ↔ k ∈ s.contents := by
  unfold insert
  by_cases h : k ∈ s.contents <;> simp [h]

theorem remove_eq_some_iff {s s' : VecSet K} {k : K} :
    s.remove k = some s' ↔ k ∈ s.contents ∧ s'.contents = s.contents.erase k := by
  unfold remove
  by_cases h : k ∈ s.contents
  · rw [if_pos h, Option.some.injEq]
    exact ⟨fun hs => ⟨h, hs ▸ rfl⟩, fun ⟨_, hc⟩ => ext hc.symm⟩
  · simp [h]

theorem remove_eq_none_iff {s : VecSet K} {k : K} : s.remove k = none ↔ k ∉ s.contents := by
  unfold remove
  by_cases h : k ∈ s.contents <;> simp [h]

/-! ## What each call leaves -/

theorem mem_of_insert {s s' : VecSet K} {k : K} (h : s.insert k = some s') {k' : K} :
    k' ∈ s'.contents ↔ k' ∈ s.contents ∨ k' = k := by
  rw [(insert_eq_some_iff.mp h).2, List.mem_append, List.mem_singleton]

theorem mem_of_remove {s s' : VecSet K} {k : K} (h : s.remove k = some s') {k' : K} :
    k' ∈ s'.contents ↔ k' ∈ s.contents ∧ k' ≠ k := by
  rw [(remove_eq_some_iff.mp h).2, s.nodup.mem_erase_iff, and_comm]

theorem size_of_insert {s s' : VecSet K} {k : K} (h : s.insert k = some s') : s'.size = s.size + 1 := by
  unfold size
  rw [(insert_eq_some_iff.mp h).2, List.length_append, List.length_singleton]

theorem size_of_remove {s s' : VecSet K} {k : K} (h : s.remove k = some s') : s'.size + 1 = s.size := by
  obtain ⟨hk, hc⟩ := remove_eq_some_iff.mp h
  have hpos := List.length_pos_of_mem hk
  unfold size
  rw [hc, List.length_erase_of_mem hk]
  omega

/-! ## Comparing two sets -/

omit [DecidableEq K] in
/-- Two sets with the same keys have the same size. -/
theorem size_eq_of_mem_iff {s t : VecSet K} (h : ∀ k, k ∈ s.contents ↔ k ∈ t.contents) : s.size = t.size :=
  ((List.perm_ext_iff_of_nodup s.nodup t.nodup).mpr h).length_eq

omit [DecidableEq K] in
/-- A set whose keys are all in a set of no more keys has exactly its keys. -/
theorem mem_iff_of_subset {s t : VecSet K} (hsub : ∀ k ∈ s.contents, k ∈ t.contents) (hsize : t.size ≤ s.size) :
    ∀ k, k ∈ s.contents ↔ k ∈ t.contents :=
  fun _ => ((s.nodup.subperm hsub).perm_of_length_le hsize).mem_iff

end VecSet

end Mango.Lib
