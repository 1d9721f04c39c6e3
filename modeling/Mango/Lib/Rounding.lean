/-
  Mango.Lib.Rounding

  Floor division as an amount converted at a rate rounds it. Converting the
  parts of a sum rounds down at least as much as converting the sum, and a
  balance rescaled to a larger total, rounded down, still leaves room for the
  share of what was added at the new rate.
-/
import Mathlib

namespace Mango.Lib

/-- Rounding each part down loses at least as much as rounding the sum. -/
theorem sum_map_mul_div_le (a c : Nat) (L : List Nat) :
    (L.map fun x => a * x / c).sum ≤ a * L.sum / c := by
  induction L with
  | nil => simp
  | cons x rest ih =>
    calc ((x :: rest).map fun x => a * x / c).sum
        = a * x / c + (rest.map fun x => a * x / c).sum := by simp
      _ ≤ a * x / c + a * rest.sum / c := Nat.add_le_add_left ih _
      _ ≤ (a * x + a * rest.sum) / c := Nat.div_add_div_le_add_div
      _ = a * (x :: rest).sum / c := by rw [List.sum_cons, Nat.mul_add]

/-- **Redistributing what is taken, rounded down, pays out no more.** Take
    `a x` from each element `x` with property `p`, and hand the total taken to
    the others in proportion to their weights `w`, each share rounded down:
    the amounts sum to at most the amounts `u` before. -/
theorem sum_redistribute_le {β : Type _} (l : List β) (p : β → Prop) [DecidablePred p]
    (u a w : β → Nat) (ha : ∀ x ∈ l, p x → a x ≤ u x) :
    (l.map fun x => if p x then u x - a x
      else u x + ((l.filter p).map a).sum * w x / ((l.filter fun x => ¬p x).map w).sum).sum ≤
      (l.map u).sum := by
  generalize hT : ((l.filter p).map a).sum = T
  generalize hU : ((l.filter fun x => ¬p x).map w).sum = U
  rw [List.sum_map_ite]
  -- what the elements of `p` keep, with what they give, is what they had
  have hkeep : ((l.filter p).map fun x => u x - a x).sum + T = ((l.filter p).map u).sum := by
    rw [← hT, ← List.sum_map_add]
    refine congrArg List.sum (List.map_congr_left fun x hx => ?_)
    have hx' := List.mem_filter.mp hx
    exact Nat.sub_add_cancel (ha x hx'.1 (of_decide_eq_true hx'.2))
  -- the shares, rounded down, add up to at most what was given
  have hshares : ((l.filter fun x => ¬p x).map fun x => T * w x / U).sum ≤ T := by
    have hle := sum_map_mul_div_le T U ((l.filter fun x => ¬p x).map w)
    rw [List.map_map, hU] at hle
    refine Nat.le_trans hle ?_
    rcases Nat.eq_zero_or_pos U with rfl | hpos
    · simp
    · rw [Nat.mul_div_cancel _ hpos]
  have hgain : ((l.filter fun x => ¬p x).map fun x => u x + T * w x / U).sum =
      ((l.filter fun x => ¬p x).map u).sum + ((l.filter fun x => ¬p x).map fun x => T * w x / U).sum :=
    List.sum_map_add
  have hsplit := List.sum_map_filter_add_sum_map_filter_not p u l
  omega

end Mango.Lib
