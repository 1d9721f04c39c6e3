/-
  Mango.Lib.SortedSet

  Sets over a linear order kept as Rust's `BTreeSet` keeps them: the list of
  the elements in strictly increasing order, carried with its order as a
  field so that no set out of order can be built. An insertion puts the
  element in its place and leaves the set as it is when the element is there;
  `last` is the greatest element and `pop_last` takes it out; a range from a
  bound is the elements at or above it, still in order.

  What a program reads of such a set is which elements it holds and in what
  order it hands them out: `mem_insert`, `mem_extend` and `mem_popLast` say the
  first, `last?_eq_some` (the last element is above every other) and
  `sorted_rangeFrom` the second.
-/
import Mathlib

namespace Mango.Lib

/-- A `BTreeSet`: its elements in strictly increasing order. -/
structure SortedSet (α : Type _) [LinearOrder α] where
  toList : List α
  sorted : toList.Pairwise (· < ·)

namespace SortedSet

variable {α : Type _} [LinearOrder α]

instance : Membership α (SortedSet α) where
  mem s x := x ∈ s.toList

instance (x : α) (s : SortedSet α) : Decidable (x ∈ s) := inferInstanceAs (Decidable (x ∈ s.toList))

theorem mem_def {x : α} {s : SortedSet α} : x ∈ s ↔ x ∈ s.toList := Iff.rfl

/-- The list with `x` in its place; a list that holds `x` is left as it is. -/
def insertList (x : α) : List α → List α
  | [] => [x]
  | y :: l => if x < y then x :: y :: l else if x = y then y :: l else y :: insertList x l

theorem mem_insertList {x y : α} : ∀ {l : List α}, y ∈ insertList x l ↔ y = x ∨ y ∈ l
  | [] => by simp [insertList]
  | z :: l => by
    unfold insertList
    split
    · simp
    · split
      · subst x
        simp only [List.mem_cons]
        constructor
        · exact .inr
        · rintro (rfl | h)
          · exact .inl rfl
          · exact h
      · simp only [List.mem_cons, mem_insertList]
        exact or_left_comm

theorem pairwise_insertList {x : α} : ∀ {l : List α}, l.Pairwise (· < ·) → (insertList x l).Pairwise (· < ·)
  | [], _ => List.pairwise_singleton _ _
  | y :: l, h => by
    have h' := List.pairwise_cons.mp h
    unfold insertList
    split
    case isTrue hxy =>
      exact List.Pairwise.cons (fun z hz => (List.mem_cons.mp hz).elim (· ▸ hxy)
        (fun hz => hxy.trans (h'.1 z hz))) h
    case isFalse hxy =>
      split
      · exact h
      case isFalse hne =>
        -- `x` goes past `y`: everything the rest becomes is above `y`
        have hyx : y < x := lt_of_le_of_ne (not_lt.mp hxy) (Ne.symm hne)
        refine List.Pairwise.cons (fun z hz => ?_) (pairwise_insertList h'.2)
        rcases mem_insertList.mp hz with rfl | hz
        · exact hyx
        · exact h'.1 z hz

/-- `BTreeSet::new`. -/
def empty : SortedSet α := ⟨[], List.Pairwise.nil⟩

/-- `BTreeSet::insert`. -/
def insert (x : α) (s : SortedSet α) : SortedSet α := ⟨insertList x s.toList, pairwise_insertList s.sorted⟩

/-- `Extend::extend`: each element inserted in turn. -/
def extend (s : SortedSet α) (l : List α) : SortedSet α := l.foldl (fun s x => s.insert x) s

/-- `collect::<BTreeSet<_>>()`. -/
def ofList (l : List α) : SortedSet α := empty.extend l

/-- `BTreeSet::last`: the greatest element. -/
def last? (s : SortedSet α) : Option α := s.toList.getLast?

/-- `BTreeSet::pop_last`, the set it leaves (the element taken is `last?`). -/
def popLast (s : SortedSet α) : SortedSet α := ⟨s.toList.dropLast, s.sorted.sublist (List.dropLast_sublist _)⟩

/-- `range((Included(lo), Unbounded))`: the elements from `lo` on, in increasing order. -/
def rangeFrom (s : SortedSet α) (lo : α) : List α := s.toList.filter (lo ≤ ·)

@[simp] theorem not_mem_empty (x : α) : x ∉ (empty : SortedSet α) := List.not_mem_nil

@[simp] theorem mem_insert {x y : α} {s : SortedSet α} : y ∈ s.insert x ↔ y = x ∨ y ∈ s := mem_insertList

@[simp] theorem mem_extend {y : α} : ∀ {s : SortedSet α} {l : List α}, y ∈ s.extend l ↔ y ∈ s ∨ y ∈ l
  | s, [] => by simp [extend]
  | s, x :: l => by
    show y ∈ (s.insert x).extend l ↔ _
    rw [mem_extend, mem_insert, List.mem_cons, or_comm (a := y = x), or_assoc]

@[simp] theorem mem_ofList {y : α} {l : List α} : y ∈ ofList l ↔ y ∈ l := by
  simp [ofList]

/-- The last element is in the set and above every other one. -/
theorem last?_eq_some {s : SortedSet α} {m : α} (h : s.last? = some m) :
    m ∈ s ∧ ∀ x ∈ s, x ≠ m → x < m := by
  obtain ⟨init, hinit⟩ : ∃ init, s.toList = init ++ [m] := List.getLast?_eq_some_iff.mp h
  have hsorted := s.sorted
  rw [hinit, List.pairwise_append] at hsorted
  refine ⟨by simp [mem_def, hinit], fun x hx hxm => ?_⟩
  rw [mem_def, hinit, List.mem_append, List.mem_singleton] at hx
  rcases hx with hx | rfl
  · exact hsorted.2.2 x hx m (List.mem_singleton_self m)
  · exact absurd rfl hxm

theorem le_of_last?_eq_some {s : SortedSet α} {m : α} (h : s.last? = some m) {x : α} (hx : x ∈ s) : x ≤ m := by
  by_cases hxm : x = m
  · exact le_of_eq hxm
  · exact le_of_lt ((last?_eq_some h).2 x hx hxm)

theorem last?_eq_none {s : SortedSet α} (h : s.last? = none) (x : α) : x ∉ s := by
  rw [last?, List.getLast?_eq_none_iff] at h
  simp [mem_def, h]

/-- `pop_last` takes out the last element and nothing else. -/
theorem mem_popLast {s : SortedSet α} {m : α} (h : s.last? = some m) {x : α} :
    x ∈ s.popLast ↔ x ∈ s ∧ x ≠ m := by
  obtain ⟨init, hinit⟩ : ∃ init, s.toList = init ++ [m] := List.getLast?_eq_some_iff.mp h
  have hsorted := s.sorted
  rw [hinit, List.pairwise_append] at hsorted
  show x ∈ s.toList.dropLast ↔ x ∈ s.toList ∧ x ≠ m
  rw [hinit, List.dropLast_concat, List.mem_append, List.mem_singleton]
  constructor
  · intro hx
    exact ⟨.inl hx, fun hxm => lt_irrefl m (hxm ▸ hsorted.2.2 x hx m (List.mem_singleton_self m))⟩
  · rintro ⟨hx | rfl, hxm⟩
    · exact hx
    · exact absurd rfl hxm

@[simp] theorem mem_rangeFrom {s : SortedSet α} {lo x : α} : x ∈ s.rangeFrom lo ↔ x ∈ s ∧ lo ≤ x := by
  simp [rangeFrom, mem_def]

theorem sorted_rangeFrom (s : SortedSet α) (lo : α) : (s.rangeFrom lo).Pairwise (· < ·) :=
  s.sorted.filter _

end SortedSet

end Mango.Lib
