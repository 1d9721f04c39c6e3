/-
  Mango.Lib.VersionTable

  The entries of one key in a table keyed by `(key, version)`, such as a
  store keeps for the successive versions of a record: a list of
  `(version, entry)` pairs with each version at most once. Writing a version
  replaces its entry, a read at a version finds that version's entry, and the
  latest version is the largest one written, which a reverse scan from the
  key's largest possible version meets first.

  A version is anything with decidable equality (a number, or a number with a
  digest); only the latest version needs numbers.
-/
import Mathlib
import Mango.Lib.List

namespace Mango.Lib

variable {κ α : Type _} [DecidableEq κ]

/-- The entry written at version `v`. -/
def vget (l : List (κ × α)) (v : κ) : Option α :=
  (l.find? (·.1 == v)).map (·.2)

/-- Write `x` at version `v`, replacing what was there. -/
def vset (l : List (κ × α)) (v : κ) (x : α) : List (κ × α) :=
  (v, x) :: l.filter (·.1 != v)

/-- Remove the entry at version `v`. -/
def verase (l : List (κ × α)) (v : κ) : List (κ × α) :=
  l.filter (·.1 != v)

/-- A table collected from pairs, a later pair replacing an earlier one with
    the same key, as `collect::<BTreeMap<_, _>>()` builds a map. -/
def collectMap (l : List (κ × α)) : List (κ × α) :=
  l.foldl (fun m p => vset m p.1 p.2) []

/-- The largest version written. -/
def vmax (l : List (Nat × α)) : Option Nat :=
  (l.map (·.1)).max?

@[simp] theorem vget_nil (v : κ) : vget ([] : List (κ × α)) v = none := rfl

@[simp] theorem vget_vset_self (l : List (κ × α)) (v : κ) (x : α) :
    vget (vset l v x) v = some x := by
  simp [vget, vset]

/-- Reading another version skips the entries of the version written. -/
theorem vget_filter_ne (l : List (κ × α)) {v w : κ} (h : w ≠ v) :
    vget (l.filter (·.1 != v)) w = vget l w := by
  unfold vget
  rw [List.find?_filter]
  congr 2
  funext e
  by_cases hew : e.1 = w
  · simp [hew, h]
  · simp [hew]

@[simp] theorem vget_vset_ne (l : List (κ × α)) {v w : κ} (x : α) (h : w ≠ v) :
    vget (vset l v x) w = vget l w := by
  have hvw : (v == w) = false := by simpa using fun hv => h hv.symm
  rw [vset, vget, List.find?_cons, hvw]
  exact vget_filter_ne l h

@[simp] theorem vget_verase_self (l : List (κ × α)) (v : κ) : vget (verase l v) v = none := by
  simp [vget, verase]

@[simp] theorem vget_verase_ne (l : List (κ × α)) {v w : κ} (h : w ≠ v) :
    vget (verase l v) w = vget l w :=
  vget_filter_ne l h

/-- A write at a version reads back there and leaves the others. -/
theorem vget_vset (l : List (κ × α)) (v w : κ) (x : α) :
    vget (vset l v x) w = if w = v then some x else vget l w := by
  by_cases h : w = v
  · rw [if_pos h, h, vget_vset_self]
  · rw [if_neg h, vget_vset_ne l x h]

/-- A version reads an entry exactly when it was written. -/
theorem vget_isSome_iff (l : List (κ × α)) (v : κ) :
    (vget l v).isSome ↔ v ∈ l.map (·.1) := by
  simp [vget, List.find?_isSome]

/-- An entry read at a version is an entry of the table. -/
theorem mem_of_vget_eq_some {l : List (κ × α)} {v : κ} {x : α} (h : vget l v = some x) :
    (v, x) ∈ l := by
  obtain ⟨e, he, rfl⟩ := Option.map_eq_some_iff.mp h
  have hv : e.1 = v := by simpa using List.find?_some he
  exact hv ▸ List.mem_of_find?_eq_some he

/-- A read looks at the first entry, then at the rest. -/
theorem vget_cons (k : κ) (x : α) (l : List (κ × α)) (v : κ) :
    vget ((k, x) :: l) v = if k = v then some x else vget l v := by
  by_cases h : k = v <;> simp [vget, h]

/-- A read of a table with its entries mapped is the mapped read. -/
theorem vget_map_snd {β : Type _} (g : α → β) (l : List (κ × α)) (v : κ) :
    vget (l.map fun p => (p.1, g p.2)) v = (vget l v).map g := by
  unfold vget
  rw [List.find?_map]
  have hkey : ((fun e : κ × β => e.1 == v) ∘ fun p : κ × α => (p.1, g p.2)) = (·.1 == v) := rfl
  rw [hkey]
  cases l.find? (·.1 == v) <;> rfl

/-- In a table with each version once, an entry is what its version reads. -/
theorem vget_of_mem_nodup {l : List (κ × α)} (hl : (l.map (·.1)).Nodup) {p : κ × α}
    (hp : p ∈ l) : vget l p.1 = some p.2 := by
  have hfind : l.find? (·.1 == p.1) = some p := by
    apply find?_eq_some_of_unique hp (by simp)
    intro q hq hqp
    have hkey : q.1 = p.1 := by simpa using hqp
    exact List.inj_on_of_nodup_map hl hq hp hkey
  simp [vget, hfind]

/-- The entries after a write: the one written, and those of other versions. -/
theorem mem_vset {l : List (κ × α)} {v : κ} {x : α} {e : κ × α} :
    e ∈ vset l v x ↔ e = (v, x) ∨ (e ∈ l ∧ e.1 ≠ v) := by
  simp [vset]

/-- Rewriting an entry changes a sum over the table by the entry alone. -/
theorem sum_map_vset (g : α → Nat) {l : List (κ × α)} (hl : (l.map (·.1)).Nodup) {v : κ} {x₀ : α}
    (h : vget l v = some x₀) (x : α) :
    ((vset l v x).map fun p => g p.2).sum + g x₀ = (l.map fun p => g p.2).sum + g x := by
  induction l with
  | nil => simp at h
  | cons e rest ih =>
    obtain ⟨k, y⟩ := e
    rw [List.map_cons, List.nodup_cons] at hl
    rw [vget_cons] at h
    by_cases hk : k = v
    · -- the entry rewritten is the head, and the rest has none at its version
      subst hk
      rw [if_pos rfl, Option.some_inj] at h
      have hrest : rest.filter (·.1 != k) = rest := by
        apply List.filter_eq_self.mpr
        intro e he
        have hek : e.1 ≠ k := fun hek => hl.1 (List.mem_map.mpr ⟨e, he, hek⟩)
        simpa using hek
      simp only [vset, List.filter_cons, bne_self_eq_false, Bool.false_eq_true, if_false, hrest,
        List.map_cons, List.sum_cons, h]
      omega
    · rw [if_neg hk] at h
      have hrec := ih hl.2 h
      have hkv : (k != v) = true := by simpa using hk
      simp only [vset, List.filter_cons, hkv, if_true, List.map_cons, List.sum_cons] at hrec ⊢
      omega

/-- A write keeps each version at most once. -/
theorem nodup_map_vset {l : List (κ × α)} (hl : (l.map (·.1)).Nodup) (v : κ) (x : α) :
    ((vset l v x).map (·.1)).Nodup := by
  rw [vset, List.map_cons, List.nodup_cons]
  refine ⟨?_, hl.sublist ((List.filter_sublist).map _)⟩
  intro hv
  obtain ⟨e, he, hev⟩ := List.mem_map.mp hv
  have hne := (List.mem_filter.mp he).2
  simp [hev] at hne

/-- The versions after a write. -/
theorem mem_map_vset (l : List (κ × α)) (v w : κ) (x : α) :
    w ∈ (vset l v x).map (·.1) ↔ w = v ∨ w ∈ l.map (·.1) := by
  simp only [vset, List.map_cons, List.mem_cons, List.mem_map, List.mem_filter]
  constructor
  · rintro (rfl | ⟨e, ⟨he, -⟩, rfl⟩)
    · exact .inl rfl
    · exact .inr ⟨e, he, rfl⟩
  · rintro (rfl | ⟨e, he, rfl⟩)
    · exact .inl rfl
    · by_cases hev : e.1 = v
      · exact .inl hev
      · exact .inr ⟨e, ⟨he, by simpa using hev⟩, rfl⟩

/-- Collecting from a table keeps each key once and adds the keys of the pairs. -/
theorem foldl_vset_keys (l : List (κ × α)) {m : List (κ × α)} (hm : (m.map (·.1)).Nodup) :
    ((l.foldl (fun m p => vset m p.1 p.2) m).map (·.1)).Nodup ∧
      ∀ k, k ∈ (l.foldl (fun m p => vset m p.1 p.2) m).map (·.1) ↔
        k ∈ m.map (·.1) ∨ k ∈ l.map (·.1) := by
  induction l generalizing m with
  | nil => simpa using hm
  | cons p rest ih =>
    obtain ⟨hnodup, hkeys⟩ := ih (nodup_map_vset hm p.1 p.2)
    refine ⟨hnodup, fun k => ?_⟩
    rw [List.foldl_cons, hkeys k, mem_map_vset, List.map_cons, List.mem_cons]
    tauto

/-- Every entry of a table extended by pairs is one of the pairs or was there. -/
theorem mem_foldl_vset {l m : List (κ × α)} {e : κ × α}
    (h : e ∈ l.foldl (fun m p => vset m p.1 p.2) m) : e ∈ l ∨ e ∈ m := by
  induction l generalizing m with
  | nil => exact .inr h
  | cons p rest ih =>
    rcases ih h with h | h
    · exact .inl (List.mem_cons_of_mem _ h)
    · rcases mem_vset.mp h with rfl | ⟨h, -⟩
      · exact .inl List.mem_cons_self
      · exact .inr h

/-- A table extended by pairs with each key once reads a key's pair, else what
    it read before. -/
theorem vget_foldl_vset {l : List (κ × α)} (hl : (l.map (·.1)).Nodup) (m : List (κ × α)) (k : κ) :
    vget (l.foldl (fun m p => vset m p.1 p.2) m) k = (vget l k).or (vget m k) := by
  induction l generalizing m with
  | nil => rfl
  | cons p rest ih =>
    rw [List.map_cons, List.nodup_cons] at hl
    rw [List.foldl_cons, ih hl.2, vget_cons]
    by_cases hk : p.1 = k
    · -- the pair's key is not among the rest
      have hnone : vget rest k = none := by
        rw [← Option.not_isSome_iff_eq_none, vget_isSome_iff]
        exact hk ▸ hl.1
      simp [hk, hnone]
    · simp [hk, vget_vset_ne _ _ (Ne.symm hk)]

/-- A collected map has each key once. -/
theorem nodup_map_collectMap (l : List (κ × α)) : ((collectMap l).map (·.1)).Nodup :=
  (foldl_vset_keys l (m := []) List.nodup_nil).1

/-- A collected map has the keys of the pairs it was collected from. -/
theorem mem_map_collectMap (l : List (κ × α)) (k : κ) :
    k ∈ (collectMap l).map (·.1) ↔ k ∈ l.map (·.1) := by
  rw [collectMap, (foldl_vset_keys l (m := []) List.nodup_nil).2 k]
  simp

end Mango.Lib
