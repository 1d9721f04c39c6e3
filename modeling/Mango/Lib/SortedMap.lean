/-
  Mango.Lib.SortedMap

  Maps over natural keys kept as Rust's `BTreeMap` keeps them: the list of the
  entries in increasing order of key. An insertion puts the entry in its place
  and replaces the entry of the same key, a removal takes the entry of its key
  out, and the first entry is the one of the least key. A map collected from a
  list of pairs with distinct keys is the sorted list of those pairs, whatever
  their order (`collect_eq_of_perm`): the one sorted list with those entries.

  A map whose values are vectors grows by `entry(k).or_default().push(v)`
  (`push`); when every value sits under its own rank (`Keyed`), the values
  under the keys a predicate keeps are those whose rank it keeps.
-/
import Mathlib

namespace Mango.Lib

namespace SortedMap

variable {α : Type _}

/-- The entries are in increasing order of key. -/
def Sorted (m : List (Nat × α)) : Prop := m.Pairwise (·.1 < ·.1)

/-- `BTreeMap::insert`: the entry in its place, in place of an entry of its key. -/
def insert (k : Nat) (v : α) : List (Nat × α) → List (Nat × α)
  | [] => [(k, v)]
  | (k', v') :: m =>
    if k < k' then (k, v) :: (k', v') :: m
    else if k = k' then (k, v) :: m
    else (k', v') :: insert k v m

/-- `BTreeMap::get`. -/
def get (m : List (Nat × α)) (k : Nat) : Option α := (m.find? (·.1 = k)).map (·.2)

/-- `BTreeMap::remove`: the value of the key and the map without it. -/
def remove (m : List (Nat × α)) (k : Nat) : Option (α × List (Nat × α)) :=
  (get m k).map fun v => (v, m.filter (·.1 ≠ k))

/-- `collect::<BTreeMap<_, _>>()`: a later pair replaces an earlier one of its key. -/
def collect (l : List (Nat × α)) : List (Nat × α) := l.foldl (fun m p => insert p.1 p.2 m) []

/-- What an insertion holds: the new entry and the entries of other keys. -/
theorem mem_insert {k : Nat} {v : α} {e : Nat × α} :
    ∀ {m : List (Nat × α)}, Sorted m → (e ∈ insert k v m ↔ e = (k, v) ∨ (e ∈ m ∧ e.1 ≠ k))
  | [], _ => by simp [insert]
  | (k', v') :: m, hs => by
    have hs' := List.pairwise_cons.mp hs
    unfold insert
    split
    case isTrue hlt =>
      -- every key of the map is above `k`
      constructor
      · intro he
        rcases List.mem_cons.mp he with rfl | he
        · exact .inl rfl
        · refine .inr ⟨he, ?_⟩
          rcases List.mem_cons.mp he with rfl | he
          · exact Nat.ne_of_gt hlt
          · exact Nat.ne_of_gt (Nat.lt_trans hlt (hs'.1 e he))
      · rintro (rfl | ⟨he, -⟩)
        · exact List.mem_cons_self
        · exact List.mem_cons_of_mem _ he
    case isFalse hge =>
      split
      case isTrue heq =>
        subst heq
        constructor
        · intro he
          rcases List.mem_cons.mp he with rfl | he
          · exact .inl rfl
          · exact .inr ⟨List.mem_cons_of_mem _ he, Nat.ne_of_gt (hs'.1 e he)⟩
        · rintro (rfl | ⟨he, hne⟩)
          · exact List.mem_cons_self
          · rcases List.mem_cons.mp he with rfl | he
            · exact absurd rfl hne
            · exact List.mem_cons_of_mem _ he
      case isFalse hne =>
        have ih := mem_insert (k := k) (v := v) (e := e) hs'.2
        rw [List.mem_cons, ih, List.mem_cons]
        constructor
        · rintro (rfl | rfl | ⟨he, hk⟩)
          · exact .inr ⟨.inl rfl, fun h => hne h.symm⟩
          · exact .inl rfl
          · exact .inr ⟨.inr he, hk⟩
        · rintro (rfl | ⟨rfl | he, hk⟩)
          · exact .inr (.inl rfl)
          · exact .inl rfl
          · exact .inr (.inr ⟨he, hk⟩)

/-- An insertion keeps the entries in order. -/
theorem sorted_insert {k : Nat} {v : α} : ∀ {m : List (Nat × α)}, Sorted m → Sorted (insert k v m)
  | [], _ => List.pairwise_singleton _ _
  | (k', v') :: m, hs => by
    have hs' := List.pairwise_cons.mp hs
    unfold insert
    split
    case isTrue hlt =>
      refine List.pairwise_cons.mpr ⟨fun e he => ?_, hs⟩
      rcases List.mem_cons.mp he with rfl | he
      · exact hlt
      · exact Nat.lt_trans hlt (hs'.1 e he)
    case isFalse hge =>
      split
      case isTrue heq =>
        subst heq
        exact List.pairwise_cons.mpr ⟨hs'.1, hs'.2⟩
      case isFalse hne =>
        refine List.pairwise_cons.mpr ⟨fun e he => ?_, sorted_insert hs'.2⟩
        rcases (mem_insert hs'.2).mp he with rfl | ⟨he, -⟩
        · show k' < k
          omega
        · exact hs'.1 e he

/-- A map in order holds exactly the entries its lookups find. -/
theorem get_eq_some_iff {k : Nat} {v : α} : ∀ {m : List (Nat × α)}, Sorted m →
    (get m k = some v ↔ (k, v) ∈ m)
  | [], _ => by simp [get]
  | (k', v') :: m, hs => by
    have hs' := List.pairwise_cons.mp hs
    by_cases hk : k' = k
    case pos =>
      subst hk
      -- the other entries have larger keys, so only the head has key `k'`
      have hnot : (k', v) ∉ m := fun he => Nat.lt_irrefl k' (hs'.1 (k', v) he)
      simp only [get, List.find?_cons, decide_true, Option.map_some, Option.some.injEq,
        List.mem_cons, Prod.mk.injEq, true_and]
      constructor
      · exact fun h => .inl h.symm
      · rintro (h | h)
        · exact h.symm
        · exact absurd h hnot
    case neg =>
      have ih := get_eq_some_iff (k := k) (v := v) hs'.2
      have hk' : ¬k = k' := fun h => hk h.symm
      simp only [get] at ih ⊢
      simp only [List.find?_cons, hk, decide_false, List.mem_cons, Prod.mk.injEq, hk', false_and,
        false_or]
      exact ih

/-- A key is missing from a map exactly when its lookup finds nothing. -/
theorem get_eq_none_iff {m : List (Nat × α)} {k : Nat} : get m k = none ↔ k ∉ m.map Prod.fst := by
  unfold get
  rw [Option.map_eq_none_iff, List.find?_eq_none]
  simp only [decide_eq_true_eq, List.mem_map]
  constructor
  · rintro h ⟨e, he, rfl⟩
    exact h e he rfl
  · exact fun h e he hk => h ⟨e, he, hk⟩

/-- What a removal returns: the value of the key, and the other entries. -/
theorem remove_eq_some_iff {m m' : List (Nat × α)} {k : Nat} {v : α} :
    remove m k = some (v, m') ↔ get m k = some v ∧ m' = m.filter (·.1 ≠ k) := by
  unfold remove
  rw [Option.map_eq_some_iff]
  constructor
  · rintro ⟨w, hw, h⟩
    cases h
    exact ⟨hw, rfl⟩
  · rintro ⟨hv, rfl⟩
    exact ⟨v, hv, rfl⟩

/-- A removal finds nothing exactly when the lookup does not. -/
theorem remove_eq_none_iff {m : List (Nat × α)} {k : Nat} : remove m k = none ↔ get m k = none :=
  Option.map_eq_none_iff

/-- A removal keeps the entries in order. -/
theorem Sorted.filter {m : List (Nat × α)} (hs : Sorted m) (p : Nat × α → Bool) :
    Sorted (m.filter p) :=
  List.Pairwise.filter p hs

/-- The entry of a key and the entries of the other keys make up the map. -/
theorem perm_cons_filter_ne {k : Nat} {v : α} : ∀ {m : List (Nat × α)}, Sorted m → (k, v) ∈ m →
    m.Perm ((k, v) :: m.filter (·.1 ≠ k))
  | [], _, h => absurd h List.not_mem_nil
  | (k', v') :: m, hs, h => by
    have hs' := List.pairwise_cons.mp hs
    by_cases hk : k' = k
    case pos =>
      subst hk
      -- the head is the entry of `k'`, and the tail has larger keys only
      have hnot : (k', v) ∉ m := fun he => Nat.lt_irrefl k' (hs'.1 (k', v) he)
      have hv : v' = v := by
        rcases List.mem_cons.mp h with h | h
        · exact (Prod.mk.inj h).2.symm
        · exact absurd h hnot
      have htail : m.filter (·.1 ≠ k') = m :=
        List.filter_eq_self.mpr fun e he => by simpa using Nat.ne_of_gt (hs'.1 e he)
      subst hv
      rw [List.filter_cons_of_neg (by simp), htail]
    case neg =>
      have hm : (k, v) ∈ m := by
        rcases List.mem_cons.mp h with h | h
        · exact absurd (Prod.mk.inj h).1.symm hk
        · exact h
      rw [List.filter_cons_of_pos (by simpa using hk)]
      exact ((perm_cons_filter_ne hs'.2 hm).cons _).trans (List.Perm.swap _ _ _)

/-- A map collected from pairs is in order. -/
theorem sorted_collect (l : List (Nat × α)) : Sorted (collect l) := by
  unfold collect
  suffices h : ∀ m, Sorted m → Sorted (l.foldl (fun m p => insert p.1 p.2 m) m) from
    h [] List.Pairwise.nil
  induction l with
  | nil => exact fun m hm => hm
  | cons p l ih => exact fun m hm => ih _ (sorted_insert hm)

/-- A map collected from pairs holds only pairs of the list. -/
theorem mem_of_mem_collect {l : List (Nat × α)} {e : Nat × α} (he : e ∈ collect l) : e ∈ l := by
  unfold collect at he
  suffices h : ∀ m, Sorted m → e ∈ l.foldl (fun m p => insert p.1 p.2 m) m → e ∈ m ∨ e ∈ l from
    (h [] List.Pairwise.nil he).resolve_left List.not_mem_nil
  clear he
  induction l with
  | nil => exact fun m _ he => .inl he
  | cons p l ih =>
    intro m hm he
    rcases ih _ (sorted_insert hm) he with he | he
    · rcases (mem_insert hm).mp he with rfl | ⟨he, -⟩
      · exact .inr List.mem_cons_self
      · exact .inl he
    · exact .inr (List.mem_cons_of_mem _ he)

/-- A map collected from pairs of distinct keys holds exactly those pairs. -/
theorem mem_collect {l : List (Nat × α)} (hnd : (l.map Prod.fst).Nodup) (e : Nat × α) :
    e ∈ collect l ↔ e ∈ l := by
  unfold collect
  -- the pairs still to insert have keys apart from those of the map built so far
  suffices h : ∀ m, Sorted m → (∀ p ∈ l, p.1 ∉ m.map Prod.fst) →
      (e ∈ l.foldl (fun m p => insert p.1 p.2 m) m ↔ e ∈ m ∨ e ∈ l) by
    simpa using h [] List.Pairwise.nil (by simp)
  induction l with
  | nil => simp
  | cons p l ih =>
    intro m hm hfresh
    rw [List.map_cons, List.nodup_cons] at hnd
    rw [List.foldl_cons, ih hnd.2 _ (sorted_insert hm) ?_, mem_insert hm, List.mem_cons]
    · constructor
      · rintro ((rfl | ⟨he, -⟩) | he)
        · exact .inr (.inl rfl)
        · exact .inl he
        · exact .inr (.inr he)
      · rintro (he | rfl | he)
        · refine .inl (.inr ⟨he, fun hk => hfresh p List.mem_cons_self ?_⟩)
          exact hk ▸ List.mem_map_of_mem he
        · exact .inl (.inl rfl)
        · exact .inr he
    · intro q hq hqm
      obtain ⟨e', he', hqe⟩ := List.mem_map.mp hqm
      rcases (mem_insert hm).mp he' with rfl | ⟨he', -⟩
      · exact hnd.1 (hqe ▸ List.mem_map_of_mem hq)
      · exact hfresh q (List.mem_cons_of_mem _ hq) (hqe ▸ List.mem_map_of_mem he')

/-- A map collected from pairs of distinct keys is a permutation of them. -/
theorem perm_collect {l : List (Nat × α)} (hnd : (l.map Prod.fst).Nodup) : (collect l).Perm l :=
  (List.perm_ext_iff_of_nodup ((sorted_collect l).imp (fun h => Nat.ne_of_lt h ∘ congrArg Prod.fst))
    (List.Nodup.of_map Prod.fst hnd)).mpr (mem_collect hnd)

/-- **A map collected from pairs of distinct keys does not depend on their
    order**: the two maps are sorted permutations of each other. -/
theorem collect_eq_of_perm {l₁ l₂ : List (Nat × α)} (hp : l₁.Perm l₂) (hnd : (l₁.map Prod.fst).Nodup) :
    collect l₁ = collect l₂ := by
  have hnd₂ : (l₂.map Prod.fst).Nodup := (hp.map Prod.fst).nodup_iff.mp hnd
  have hperm : (collect l₁).Perm (collect l₂) := ((perm_collect hnd).trans hp).trans (perm_collect hnd₂).symm
  exact hperm.eq_of_pairwise (fun a b _ _ hab hba => absurd (Nat.lt_trans hab hba) (Nat.lt_irrefl _))
    (sorted_collect l₁) (sorted_collect l₂)

/-! ## Maps of vectors -/

section Vectors

variable {rank : α → Nat} {m : List (Nat × List α)}

/-- `map.entry(k).or_default().push(v)`. -/
def push (k : Nat) (v : α) (m : List (Nat × List α)) : List (Nat × List α) :=
  insert k ((get m k).getD [] ++ [v]) m

/-- Every value of the map sits under its own rank. -/
def Keyed (rank : α → Nat) (m : List (Nat × List α)) : Prop :=
  ∀ e ∈ m, ∀ x ∈ e.2, rank x = e.1

/-- A value pushed under its rank keeps the map keyed. -/
theorem Keyed.push (hs : Sorted m) (h : Keyed rank m) (v : α) : Keyed rank (push (rank v) v m) := by
  intro e he x hx
  rcases (mem_insert hs).mp he with rfl | ⟨he, -⟩
  · rcases List.mem_append.mp hx with hx | hx
    · cases hget : get m (rank v) with
      | none =>
        rw [hget] at hx
        cases hx
      | some old =>
        rw [hget] at hx
        exact h _ ((get_eq_some_iff hs).mp hget) x hx
    · rw [List.mem_singleton.mp hx]
  · exact h e he x hx

theorem Keyed.filter (h : Keyed rank m) (p : Nat × List α → Bool) : Keyed rank (m.filter p) :=
  fun e he => h e (List.mem_of_mem_filter he)

end Vectors

end SortedMap

end Mango.Lib
