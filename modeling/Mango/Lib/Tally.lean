/-
  Mango.Lib.Tally

  Weighted votes. A table of weights keyed by name, each name at most once,
  gives every name its weight (zero for a name not in the table). The weight
  of any set of positions of a list of weights is at most the list's sum:
  the bound a vote count relies on when no voter is counted twice. Two sets
  of voters that together weigh more than everyone plus a set `B` share a
  voter outside `B`: the quorum intersection by which two quorums of stake
  share an honest voter when the faulty ones hold too little.
-/
import Mathlib
import Mango.Lib.VersionTable

namespace Mango.Lib

variable {κ : Type _} [DecidableEq κ]

/-- The weight a table gives to `k`: its entry, zero when it has none. -/
def weightOf (l : List (κ × Nat)) (k : κ) : Nat :=
  (vget l k).getD 0

/-- Weights read by position off a list, zero past its end, add up over any
    set of positions to at most the list's sum. -/
theorem sum_getD_le_sum (l : List Nat) (S : Finset Nat) : ∑ a ∈ S, l.getD a 0 ≤ l.sum := by
  -- positions past the end weigh nothing
  have hpast : ∀ a ∈ S, l.getD a 0 ≠ 0 → a < l.length := by
    intro a _ ha
    by_contra hlt
    exact ha (List.getD_eq_default _ _ (Nat.le_of_not_lt hlt))
  calc ∑ a ∈ S, l.getD a 0
      = ∑ a ∈ S.filter (· < l.length), l.getD a 0 := (Finset.sum_filter_of_ne hpast).symm
    _ ≤ ∑ a ∈ Finset.range l.length, l.getD a 0 :=
        Finset.sum_le_sum_of_subset fun a ha => Finset.mem_range.mpr (Finset.mem_filter.mp ha).2
    _ = l.sum := by
        rw [Finset.sum_range, ← Fin.sum_univ_getElem]
        exact Finset.sum_congr rfl fun i _ => List.getD_eq_getElem _ _ i.2

/-! ## Two quorums share a voter outside a small set -/

/-- Two sets of voters that together weigh more than their union can weigh
    plus the weight of `B` share a voter outside `B`. -/
theorem exists_mem_inter_not_mem (w : κ → Nat) {A₁ A₂ B : Finset κ} {W : Nat}
    (hW : ∑ a ∈ A₁ ∪ A₂, w a ≤ W) (hq : W + ∑ b ∈ B, w b < ∑ a ∈ A₁, w a + ∑ a ∈ A₂, w a) :
    ∃ a ∈ A₁, a ∈ A₂ ∧ a ∉ B := by
  by_contra hnone
  push Not at hnone
  -- the common voters would all be in `B`, and weigh no more than it
  have hsub : A₁ ∩ A₂ ⊆ B := fun a ha => hnone a (Finset.mem_inter.mp ha).1 (Finset.mem_inter.mp ha).2
  have hinter : ∑ a ∈ A₁ ∩ A₂, w a ≤ ∑ b ∈ B, w b := Finset.sum_le_sum_of_subset hsub
  have hsplit : ∑ a ∈ A₁ ∪ A₂, w a + ∑ a ∈ A₁ ∩ A₂, w a = ∑ a ∈ A₁, w a + ∑ a ∈ A₂, w a :=
    Finset.sum_union_inter
  omega

end Mango.Lib
