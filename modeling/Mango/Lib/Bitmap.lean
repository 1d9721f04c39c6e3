/-
  Mango.Lib.Bitmap

  A `u16` used as a set of bit positions: `b & (1 << i) != 0` asks whether it
  holds position `i`, and `b | (1 << i)` adds it. Below 16, the question reads
  `Nat.testBit` of the value (`and_shiftLeft_ne_zero`), an added position is
  the only new one (`testBit_or_shiftLeft`), and positions below `n` keep the
  value below `2 ^ n`. The positions below `n` that a value holds, listed in
  increasing order, are a strictly increasing list exactly when the value
  holds the positions of that list (`range_filter_testBit`), and there are at
  most `n` of them.

  A `u16` sum of `u8` values wraps modulo `2 ^ 16` (`toNat_sum_map_toUInt16`),
  and `k` of them add up to at most `255 * k`, so a sum of at most 257 never
  wraps.
-/
import Mathlib

namespace Mango.Lib

namespace Bitmap

/-- The mask of one position below 16. -/
theorem toNat_one_shiftLeft {i : Nat} (hi : i < 16) : ((1 : UInt16) <<< i.toUInt16).toNat = 2 ^ i := by
  have hlt : 2 ^ i < 2 ^ 16 := Nat.pow_lt_pow_right (by decide) hi
  have hidx : i.toUInt16.toNat % 16 = i := by
    simp only [Nat.toUInt16_eq, UInt16.toNat_ofNat']
    omega
  rw [UInt16.toNat_shiftLeft, hidx, UInt16.toNat_one, Nat.one_shiftLeft, Nat.mod_eq_of_lt hlt]

/-- `b & (1 << i) != 0` asks for bit `i` of `b`. -/
theorem and_shiftLeft_ne_zero (b : UInt16) {i : Nat} (hi : i < 16) :
    (b &&& ((1 : UInt16) <<< i.toUInt16) != 0) = b.toNat.testBit i := by
  have hzero : b &&& ((1 : UInt16) <<< i.toUInt16) = 0 ↔ b.toNat.testBit i = false := by
    rw [← UInt16.toNat_inj, UInt16.toNat_and, toNat_one_shiftLeft hi, Nat.and_two_pow, UInt16.toNat_zero]
    cases b.toNat.testBit i <;> simp
  by_cases hbit : b.toNat.testBit i = true
  · have hne : b &&& ((1 : UInt16) <<< i.toUInt16) ≠ 0 := fun h => by simp [hzero.mp h] at hbit
    simp [hne, hbit]
  · simp [hzero.mpr (by simpa using hbit), hbit]

/-- `b | (1 << i)` holds the positions of `b` and `i`. -/
theorem testBit_or_shiftLeft (b : UInt16) {i : Nat} (hi : i < 16) (j : Nat) :
    (b ||| ((1 : UInt16) <<< i.toUInt16)).toNat.testBit j = (b.toNat.testBit j || decide (i = j)) := by
  rw [UInt16.toNat_or, toNat_one_shiftLeft hi, Nat.testBit_or, Nat.testBit_two_pow]

/-- Positions below `n` keep a value below `2 ^ n`. -/
theorem toNat_or_shiftLeft_lt {b : UInt16} {i n : Nat} (hb : b.toNat < 2 ^ n) (hi : i < n) (hn : n ≤ 16) :
    (b ||| ((1 : UInt16) <<< i.toUInt16)).toNat < 2 ^ n := by
  rw [UInt16.toNat_or, toNat_one_shiftLeft (by omega)]
  exact Nat.or_lt_two_pow hb (Nat.pow_lt_pow_right (by decide) hi)

/-- The positions below `n` a value holds, in increasing order: a strictly
    increasing list of positions below `n` when the value holds exactly those. -/
theorem range_filter_testBit {w n : Nat} {l : List Nat} (hl : l.Pairwise (· < ·)) (hlt : ∀ x ∈ l, x < n)
    (hw : ∀ j, w.testBit j = true ↔ j ∈ l) : (List.range n).filter (w.testBit ·) = l := by
  have hsorted : ((List.range n).filter (w.testBit ·)).Pairwise (· < ·) := List.pairwise_lt_range.filter _
  have hmem : ∀ x, x ∈ (List.range n).filter (w.testBit ·) ↔ x ∈ l := by
    intro x
    rw [List.mem_filter, List.mem_range, hw]
    exact ⟨fun h => h.2, fun h => ⟨hlt x h, h⟩⟩
  have hperm := (List.perm_ext_iff_of_nodup (hsorted.imp ne_of_lt) (hl.imp ne_of_lt)).mpr hmem
  exact hperm.eq_of_pairwise (fun a _ _ _ hab hba => absurd (hab.trans hba) (lt_irrefl a)) hsorted hl

/-- A strictly increasing list of positions below `n` has at most `n` of them. -/
theorem length_le_of_pairwise_lt {n : Nat} {l : List Nat} (hl : l.Pairwise (· < ·)) (hlt : ∀ x ∈ l, x < n) :
    l.length ≤ n := by
  have hsub : l.Subperm (List.range n) :=
    List.subperm_of_subset (hl.imp ne_of_lt) fun x hx => List.mem_range.mpr (hlt x hx)
  simpa using hsub.length_le

end Bitmap

/-! ## Sums of bytes -/

/-- A `u16` sum of `u8` values is their sum modulo `2 ^ 16`. -/
theorem toNat_sum_map_toUInt16 : ∀ l : List UInt8,
    (l.map UInt8.toUInt16).sum.toNat = (l.map UInt8.toNat).sum % 2 ^ 16
  | [] => rfl
  | a :: l => by
    rw [List.map_cons, List.sum_cons, UInt16.toNat_add, UInt8.toNat_toUInt16, toNat_sum_map_toUInt16 l,
      List.map_cons, List.sum_cons, Nat.add_mod_mod]

/-- Each byte is at most 255. -/
theorem sum_map_toNat_le : ∀ l : List UInt8, (l.map UInt8.toNat).sum ≤ 255 * l.length
  | [] => le_rfl
  | a :: l => by
    have ha := UInt8.toNat_lt a
    have hl := sum_map_toNat_le l
    rw [List.map_cons, List.sum_cons, List.length_cons]
    omega

end Mango.Lib
