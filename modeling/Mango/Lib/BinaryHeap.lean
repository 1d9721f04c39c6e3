/-
  Mango.Lib.BinaryHeap

  Binary max-heaps stored in an array, here a list: the children of the entry
  at `p` are at `2p + 1` and `2p + 2`, and the heap order asks that no child
  has a larger key than its parent. A sift-down moves one misplaced entry down
  by swapping it with its larger child; `SiftInv` is what holds between two
  swaps: the order everywhere in the subtree but at the entry being moved, and
  the children of that entry no larger than its parent. A sift-up moves an
  entry up by swaps with its parent; `UpInv` is its invariant. The root of a
  heap holds a largest key, and swaps permute the entries.

  Orders are stated on the first `len` entries, as array heaps that shrink
  from the back keep them, and through `getElem?`, so that no statement needs
  a bound proof.
-/
import Mathlib

namespace Mango.Lib.BinaryHeap

variable {α : Type _}

/-- `c` is a child of `p` in the array layout of a binary tree. -/
def IsChild (c p : Nat) : Prop := c = 2 * p + 1 ∨ c = 2 * p + 2

theorem IsChild.lt {c p : Nat} (h : IsChild c p) : p < c := by
  unfold IsChild at h
  omega

/-- An entry has one parent. -/
theorem IsChild.unique {c p q : Nat} (hp : IsChild c p) (hq : IsChild c q) : p = q := by
  unfold IsChild at hp hq
  omega

/-- Every entry but the root has its parent at `(c - 1) / 2`. -/
theorem isChild_parent {c : Nat} (hc : 0 < c) : IsChild c ((c - 1) / 2) := by
  unfold IsChild
  omega

/-! ## Swaps -/

/-- Exchange the entries at `i` and `j`, when both exist. -/
def swap (v : List α) (i j : Nat) : List α :=
  match v[i]?, v[j]? with
  | some x, some y => (v.set i y).set j x
  | _, _ => v

section Swap

variable {v : List α} {i j : Nat}

@[simp] theorem length_swap : (swap v i j).length = v.length := by
  unfold swap
  split <;> simp

theorem getElem?_swap (hi : i < v.length) (hj : j < v.length) (k : Nat) :
    (swap v i j)[k]? = if k = j then v[i]? else if k = i then v[j]? else v[k]? := by
  rw [swap, List.getElem?_eq_getElem hi, List.getElem?_eq_getElem hj]
  simp only [List.getElem?_set, List.length_set]
  by_cases hkj : k = j
  · subst hkj
    simp [hj]
  · by_cases hki : k = i
    · subst hki
      simp [hi, hkj, Ne.symm hkj]
    · simp [hkj, hki, Ne.symm hkj, Ne.symm hki]

/-- An index out of range leaves the list as it is. -/
theorem swap_eq_self (h : ¬(i < v.length ∧ j < v.length)) : swap v i j = v := by
  unfold swap
  rcases not_and_or.mp h with hi | hj
  · rw [List.getElem?_eq_none (Nat.le_of_not_lt hi)]
  · rw [List.getElem?_eq_none (Nat.le_of_not_lt hj)]
    cases v[i]? <;> rfl

theorem swap_comm (v : List α) (i j : Nat) : swap v i j = swap v j i := by
  by_cases h : i < v.length ∧ j < v.length
  · apply List.ext_getElem?
    intro k
    rw [getElem?_swap h.1 h.2, getElem?_swap h.2 h.1]
    by_cases hkj : k = j
    · subst hkj
      by_cases hki : k = i
      · subst hki
        rfl
      · simp [hki]
    · simp [hkj]
  · rw [swap_eq_self h, swap_eq_self fun h' => h ⟨h'.2, h'.1⟩]

/-- A swap permutes the entries: it is the list read through a transposition
    of its indices. -/
theorem swap_perm (v : List α) (i j : Nat) : (swap v i j).Perm v := by
  by_cases h : i < v.length ∧ j < v.length
  · have hofFn : swap v i j =
        List.ofFn ((fun k : Fin v.length => v[k.1]) ∘ Equiv.swap ⟨i, h.1⟩ ⟨j, h.2⟩) := by
      apply List.ext_getElem?
      intro k
      rw [getElem?_swap h.1 h.2]
      by_cases hk : k < v.length
      · rw [List.getElem?_ofFn, dif_pos hk]
        simp only [Function.comp, Equiv.swap_apply_def, Fin.ext_iff]
        by_cases hkj : k = j
        · subst hkj
          by_cases hki : k = i
          · subst hki
            simp
          · simp [hki]
        · by_cases hki : k = i
          · subst hki
            simp [hkj]
          · simp [hkj, hki]
      · have hkj : k ≠ j := by omega
        have hki : k ≠ i := by omega
        rw [List.getElem?_ofFn, dif_neg hk, if_neg hkj, if_neg hki,
          List.getElem?_eq_none (Nat.le_of_not_lt hk)]
    rw [hofFn]
    refine (Equiv.Perm.ofFn_comp_perm _ _).trans ?_
    rw [List.ofFn_getElem]
  · rw [swap_eq_self h]

/-- Swapping the root to the back puts it last, behind the rest. -/
theorem dropLast_swap_append (h : 0 < v.length) :
    (swap v 0 (v.length - 1)).dropLast ++ [v[0]] = swap v 0 (v.length - 1) := by
  have hne : swap v 0 (v.length - 1) ≠ [] := by
    rw [← List.length_pos_iff, length_swap]
    exact h
  have hlast := getElem?_swap h (Nat.sub_lt h Nat.one_pos) (v.length - 1)
  rw [if_pos rfl, List.getElem?_eq_getElem h] at hlast
  obtain ⟨_, hx⟩ := List.getElem?_eq_some_iff.mp hlast
  conv_rhs => rw [← List.dropLast_concat_getLast hne]
  rw [List.getLast_eq_getElem]
  simp only [length_swap, hx]

end Swap

/-! ## The heap order -/

variable (key : α → Nat)

/-- The entry at `a` has no larger key than the entry at `b`, where both exist. -/
def KeyLe (v : List α) (a b : Nat) : Prop :=
  ∀ x y, v[a]? = some x → v[b]? = some y → key x ≤ key y

/-- The heap order on the first `len` entries, for the parents from `lo` on. -/
def HeapFrom (v : List α) (len lo : Nat) : Prop :=
  ∀ p c, lo ≤ p → IsChild c p → c < len → KeyLe key v c p

/-- Between two swaps of a sift-down in the subtree of `lo`, with the moving
    entry at `j`: the order holds for every parent but `j`, and the children of
    `j` are no larger than the parent of `j`. -/
structure SiftInv (v : List α) (len lo j : Nat) : Prop where
  except : ∀ p c, lo ≤ p → p ≠ j → IsChild c p → c < len → KeyLe key v c p
  grand : ∀ p c, IsChild j p → lo ≤ p → IsChild c j → c < len → KeyLe key v c p

variable {key}

theorem KeyLe.refl (v : List α) (a : Nat) : KeyLe key v a a := by
  intro x y hx hy
  rw [hx, Option.some.injEq] at hy
  rw [hy]

theorem KeyLe.trans {v : List α} {a b c : Nat} (hb : b < v.length) (hab : KeyLe key v a b)
    (hbc : KeyLe key v b c) : KeyLe key v a c := by
  intro x z hx hz
  exact Nat.le_trans (hab x v[b] hx (List.getElem?_eq_getElem hb))
    (hbc v[b] z (List.getElem?_eq_getElem hb) hz)

theorem KeyLe.of_getElem {v : List α} {a b : Nat} (ha : a < v.length) (hb : b < v.length)
    (h : key v[a] ≤ key v[b]) : KeyLe key v a b := by
  intro x y hx hy
  rw [List.getElem?_eq_getElem ha, Option.some.injEq] at hx
  rw [List.getElem?_eq_getElem hb, Option.some.injEq] at hy
  rw [← hx, ← hy]
  exact h

/-- Past the last parent there is nothing to order. -/
theorem heapFrom_of_le {v : List α} {len lo : Nat} (h : len ≤ 2 * lo + 1) : HeapFrom key v len lo := by
  intro p c hp hc hcl
  unfold IsChild at hc
  omega

/-- A sift-down at `lo` starts from the order below `lo`. -/
theorem SiftInv.start {v : List α} {len lo : Nat} (h : HeapFrom key v len (lo + 1)) :
    SiftInv key v len lo lo where
  except p c hp hpj hc hcl := h p c (by omega) hc hcl
  grand p _ hp hlo _ _ _ := absurd hlo (Nat.not_le.mpr hp.lt)

/-- It ends where the moving entry is no smaller than its children. -/
theorem SiftInv.finish {v : List α} {len lo j : Nat} (h : SiftInv key v len lo j)
    (hj : ∀ c, IsChild c j → c < len → KeyLe key v c j) : HeapFrom key v len lo := by
  intro p c hp hc hcl
  by_cases hpj : p = j
  · subst hpj
    exact hj c hc hcl
  · exact h.except p c hp hpj hc hcl

/-- **One swap of a sift-down**: exchanging the moving entry with a largest
    child `m` that is larger than it moves the exception down to `m`. -/
theorem SiftInv.swap {v : List α} {len lo j m : Nat} (h : SiftInv key v len lo j) (hlo : lo ≤ j)
    (hm : IsChild m j) (hml : m < len) (hlen : len ≤ v.length)
    (hmax : ∀ c, IsChild c j → c < len → KeyLe key v c m) (hjm : KeyLe key v j m) :
    SiftInv key (swap v j m) len lo m := by
  have hjm' := hm.lt
  have hj : j < v.length := by omega
  have hmv : m < v.length := by omega
  have hget := getElem?_swap hj hmv
  constructor
  · intro p c hp hpm hc hcl
    have hpc := hc.lt
    intro x y hx hy
    rw [hget] at hx hy
    by_cases hpj : p = j
    · -- Below the new position of the larger child: the old entry, or a sibling.
      subst hpj
      rw [if_neg (by omega), if_pos rfl] at hy
      by_cases hcm : c = m
      · subst hcm
        rw [if_pos rfl] at hx
        exact hjm x y hx hy
      · rw [if_neg hcm, if_neg (by omega)] at hx
        exact hmax c hc hcl x y hx hy
    · rw [if_neg hpm, if_neg hpj] at hy
      by_cases hcj : c = j
      · -- The parent of `j` is above the child that moved up.
        subst hcj
        rw [if_neg (by omega), if_pos rfl] at hx
        exact h.grand p m hc hp hm hml x y hx hy
      · have hcm : c ≠ m := fun hcm => hpj (hc.unique (hcm ▸ hm))
        rw [if_neg hcm, if_neg hcj] at hx
        exact h.except p c hp hpj hc hcl x y hx hy
  · intro p c hmp hp hc hcl
    obtain rfl := hm.unique hmp
    have hcm := hc.lt
    intro x y hx hy
    rw [hget] at hx hy
    rw [if_neg (by omega), if_pos rfl] at hy
    rw [if_neg (by omega), if_neg (by omega)] at hx
    exact h.except m c (by omega) (by omega) hc hcl x y hx hy

/-- **The root of a heap holds a largest key.** By strong induction on the
    position: every entry is below its parent, which is below the root. -/
theorem HeapFrom.root_max {v : List α} {len : Nat} (h : HeapFrom key v len 0) (hlen : len ≤ v.length) :
    ∀ k, k < len → KeyLe key v k 0 := by
  intro k
  induction k using Nat.strong_induction_on with
  | _ k ih =>
    intro hk
    rcases Nat.eq_zero_or_pos k with rfl | hpos
    · exact KeyLe.refl v 0
    · have hchild := isChild_parent hpos
      have hlt := hchild.lt
      exact KeyLe.trans (by omega) (h _ k (Nat.zero_le _) hchild hk) (ih _ hlt (by omega))

/-- A heap whose root is replaced, and which loses entries at the back, is
    ready for a sift-down from the root. -/
theorem SiftInv.of_root {v w : List α} {len len' : Nat} (h : HeapFrom key v len 0) (hle : len' ≤ len)
    (hagree : ∀ k, 0 < k → k < len' → w[k]? = v[k]?) : SiftInv key w len' 0 0 where
  except p c _ hp hc hcl := by
    have hpc := hc.lt
    intro x y hx hy
    rw [hagree c (by omega) hcl] at hx
    rw [hagree p (by omega) (by omega)] at hy
    exact h p c (Nat.zero_le _) hc (by omega) x y hx hy
  grand p _ hp _ _ _ := by
    unfold IsChild at hp
    omega

/-! ## Sift-up -/

variable (key) in
/-- Between two swaps of a sift-up, with the moving entry at `j`: the order
    holds for every child but `j`, and the children of `j` are no larger than
    the parent of `j`. -/
structure UpInv (v : List α) (len j : Nat) : Prop where
  except : ∀ p c, c ≠ j → IsChild c p → c < len → KeyLe key v c p
  grand : ∀ p c, IsChild j p → IsChild c j → c < len → KeyLe key v c p

/-- A sift-up starts from a heap with one entry pushed at the back. -/
theorem UpInv.push {v : List α} (h : HeapFrom key v v.length 0) (x : α) :
    UpInv key (v ++ [x]) (v.length + 1) v.length where
  except p c hcj hc hcl := by
    have hpc := hc.lt
    intro a b ha hb
    rw [List.getElem?_append_left (by omega)] at ha hb
    exact h p c (Nat.zero_le _) hc (by omega) a b ha hb
  grand _ c _ hc hcl := by
    unfold IsChild at hc
    omega

/-- It ends where the moving entry is no larger than its parent, or at the root. -/
theorem UpInv.finish {v : List α} {len j : Nat} (h : UpInv key v len j)
    (hj : ∀ p, IsChild j p → KeyLe key v j p) : HeapFrom key v len 0 := by
  intro p c _ hc hcl
  by_cases hcj : c = j
  · subst hcj
    exact hj p hc
  · exact h.except p c hcj hc hcl

/-- **One swap of a sift-up**: exchanging the moving entry with a parent that
    is no larger moves the exception up to the parent. -/
theorem UpInv.swap {v : List α} {len j p : Nat} (h : UpInv key v len j) (hp : IsChild j p)
    (hjl : j < len) (hlen : len ≤ v.length) (hpj : KeyLe key v p j) :
    UpInv key (swap v j p) len p := by
  have hlt := hp.lt
  have hget := getElem?_swap (v := v) (by omega : j < v.length) (by omega : p < v.length)
  constructor
  · intro q c hcp hc hcl
    have hqc := hc.lt
    intro x y hx hy
    rw [hget] at hx hy
    rw [if_neg hcp] at hx
    by_cases hcj : c = j
    · -- The entry that moved down is below the one that moved up.
      subst hcj
      obtain rfl := hc.unique hp
      rw [if_pos rfl] at hx hy
      exact hpj x y hx hy
    · rw [if_neg hcj] at hx
      by_cases hqj : q = j
      · -- Below the old place of the moving entry sits its parent's old entry.
        subst hqj
        rw [if_neg (by omega), if_pos rfl] at hy
        exact h.grand p c hp hc hcl x y hx hy
      · by_cases hqp : q = p
        · subst hqp
          rw [if_pos rfl] at hy
          exact KeyLe.trans (by omega) (h.except q c hcj hc hcl) hpj x y hx hy
        · rw [if_neg hqp, if_neg hqj] at hy
          exact h.except q c hcj hc hcl x y hx hy
  · intro g c hg hc hcl
    have hgp := hg.lt
    have hpc := hc.lt
    intro x y hx hy
    rw [hget, if_neg (by omega), if_neg (by omega)] at hy
    have hgp' := h.except g p (by omega) hg (by omega)
    by_cases hcj : c = j
    · subst hcj
      rw [hget, if_neg (by omega), if_pos rfl] at hx
      exact hgp' x y hx hy
    · rw [hget, if_neg (by omega), if_neg hcj] at hx
      exact KeyLe.trans (by omega) (h.except p c hcj hc hcl) hgp' x y hx hy

end Mango.Lib.BinaryHeap
