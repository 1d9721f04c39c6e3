/-
  Mango.Lib.WeightedQuantile

  A weighted quantile read off a list in non-increasing order of keys: walk
  the list adding weights until the running total reaches a threshold, and
  take the key of the element that reaches it (`scanToThreshold`). When the
  list is sorted, at least `threshold` of the weight has a key no smaller than
  the one returned, and less than `threshold` a key larger than it, so the
  weight with a key no larger than it exceeds the total less `threshold`.
-/
import Mathlib

namespace Mango.Lib

variable {α : Type _} (key weight : α → Nat)

/-- Add up the weights of the elements, in order, while the running `sum` is
    below `threshold`; the key of the last element added, `result` if none
    is, and `none` when the list runs out first. -/
def scanToThreshold (threshold : Nat) : List α → Nat → Nat → Option Nat
  | [], sum, result => if sum < threshold then none else some result
  | x :: l, sum, result =>
    if sum < threshold then scanToThreshold threshold l (sum + weight x) (key x) else some result

variable {key weight}

/-- A sum that has reached the threshold ends the scan where it is. -/
theorem scanToThreshold_of_le {threshold sum : Nat} (h : ¬sum < threshold) (l : List α)
    (result : Nat) : scanToThreshold key weight threshold l sum result = some result := by
  cases l <;> rw [scanToThreshold, if_neg h]

/-- **The element that reaches the threshold.** From a running sum below
    `threshold` that the list can lift to it, the scan stops at an element
    `x`: the weight before `x` falls short of `threshold`, and with `x` it
    does not. By induction on the list. -/
theorem scanToThreshold_split {threshold : Nat} :
    ∀ (l : List α) (sum result : Nat), sum < threshold → threshold ≤ sum + (l.map weight).sum →
      ∃ taken x rest, l = taken ++ x :: rest ∧
        scanToThreshold key weight threshold l sum result = some (key x) ∧
        sum + (taken.map weight).sum < threshold ∧
        threshold ≤ sum + (taken.map weight).sum + weight x
  | [], sum, _, hlt, hle => by
    simp only [List.map_nil, List.sum_nil, Nat.add_zero] at hle
    omega
  | x :: l, sum, result, hlt, hle => by
    rw [scanToThreshold, if_pos hlt]
    by_cases hx : sum + weight x < threshold
    · obtain ⟨taken, y, rest, rfl, hscan, hshort, hreach⟩ :=
        scanToThreshold_split l (sum + weight x) (key x) hx
          (by simp only [List.map_cons, List.sum_cons] at hle; omega)
      refine ⟨x :: taken, y, rest, rfl, hscan, ?_, ?_⟩ <;>
        simp only [List.map_cons, List.sum_cons] <;> omega
    · refine ⟨[], x, l, rfl, ?_, by simpa using hlt, by simp; omega⟩
      cases l <;> rw [scanToThreshold, if_neg hx]

/-- **A scan of a sorted list returns a weighted quantile**: the key `k` of an
    element such that the elements with a key of at least `k` weigh at least
    `threshold`, and those with a key of at most `k` more than all the weight
    less `threshold`. -/
theorem scanToThreshold_quantile {threshold : Nat} {l : List α}
    (hsorted : l.Pairwise fun a b => key b ≤ key a) (hpos : 0 < threshold)
    (hle : threshold ≤ (l.map weight).sum) :
    ∃ x ∈ l, scanToThreshold key weight threshold l 0 0 = some (key x) ∧
      threshold ≤ ((l.filter fun y => key x ≤ key y).map weight).sum ∧
      (l.map weight).sum < threshold + ((l.filter fun y => key y ≤ key x).map weight).sum := by
  obtain ⟨taken, x, rest, rfl, hscan, hshort, hreach⟩ :=
    @scanToThreshold_split _ key weight threshold l 0 0 hpos (by omega)
  -- sorted: what the scan took has keys of at least `key x`, what it left at most
  have hs := List.pairwise_append.mp hsorted
  have htaken : ∀ a ∈ taken, key x ≤ key a := fun a ha => hs.2.2 a ha x List.mem_cons_self
  have hrest : ∀ b ∈ rest, key b ≤ key x := (List.pairwise_cons.mp hs.2.1).1
  refine ⟨x, by simp, hscan, ?_, ?_⟩
  · have hf : (taken ++ x :: rest).filter (fun y => key x ≤ key y) =
        taken ++ x :: rest.filter (fun y => key x ≤ key y) := by
      rw [List.filter_append, List.filter_eq_self.mpr (by simpa using htaken),
        List.filter_cons_of_pos (by simp)]
    rw [hf]
    simp only [List.map_append, List.map_cons, List.sum_append, List.sum_cons] at hreach ⊢
    omega
  · have hf : (taken ++ x :: rest).filter (fun y => key y ≤ key x) =
        taken.filter (fun y => key y ≤ key x) ++ x :: rest := by
      have hkeep : rest.filter (fun y => key y ≤ key x) = rest :=
        List.filter_eq_self.mpr (by simpa using hrest)
      rw [List.filter_append, List.filter_cons_of_pos (by simp), hkeep]
    rw [hf]
    simp only [List.map_append, List.map_cons, List.sum_append, List.sum_cons] at hshort ⊢
    omega

end Mango.Lib
