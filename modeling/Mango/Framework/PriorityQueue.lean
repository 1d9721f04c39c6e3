/-
  Mango.Framework.PriorityQueue

  `mgo-framework/sources/priority_queue.move`: a priority queue over a binary
  max-heap kept in the vector `entries`. `new` heapifies the entries from the
  last parent up to the root with `max_heapify_recursive`, a sift-down;
  `pop_max` swaps the root with the last entry, removes it and sifts the new
  root down; `insert` pushes an entry and sifts it up with
  `restore_heap_recursive`.

  The two recursions are modelled with a bound on their depth: a sift-down
  goes to a larger index below `len` at every call, a sift-up to a smaller
  one, so `len` and `i` bound them (`maxHeapifyRecursive`,
  `restoreHeapRecursive`). An abort is an `Abort`: the module's codes and the
  vector aborts of the Move VM.
-/
import Mango.Lib.BinaryHeap
import Mango.Lib.Except

namespace Mango.Framework

open Mango.Lib Mango.Lib.BinaryHeap

/-- `Entry`. -/
structure PriorityQueue.Entry (T : Type) where
  priority : Nat
  value : T
  deriving DecidableEq, Repr

/-- `PriorityQueue`. -/
structure PriorityQueue (T : Type) where
  entries : List (PriorityQueue.Entry T)
  deriving DecidableEq, Repr

namespace PriorityQueue

/-- Why a call of the module aborts. -/
inductive Abort where
  /-- `EPopFromEmptyHeap`. -/
  | popFromEmptyHeap
  /-- `assert!(i < len, 1)` in `max_heapify_recursive`. -/
  | heapifyOutOfRange
  /-- `assert!(vector::length(&v) == len, 0)` in `create_entries`. -/
  | entriesLengthMismatch
  /-- A vector index out of bounds. -/
  | indexOutOfBounds
  deriving DecidableEq, Repr

variable {T : Type}

/-- `vector::borrow`. -/
def borrow (v : List (Entry T)) (i : Nat) : Except Abort (Entry T) :=
  match v[i]? with
  | some e => pure e
  | none => throw .indexOutOfBounds

/-- `vector::swap`. -/
def swapEntries (v : List (Entry T)) (i j : Nat) : Except Abort (List (Entry T)) :=
  if i < v.length ∧ j < v.length then pure (swap v i j) else throw .indexOutOfBounds

/-- `vector::swap_remove`: the entry at `i`, and the vector with the last entry
    moved to `i`. -/
def swapRemove (v : List (Entry T)) (i : Nat) : Except Abort (Entry T × List (Entry T)) :=
  match v[i]? with
  | some e => pure (e, (swap v i (v.length - 1)).dropLast)
  | none => throw .indexOutOfBounds

/-- One of the two tests of `max_heapify_recursive`: the child `c` takes the
    place of `max` when it is below `len` and has a higher priority. -/
def pickLarger (v : List (Entry T)) (len max c : Nat) : Except Abort Nat :=
  if c < len then do
    let l ← borrow v c
    let m ← borrow v max
    pure (if m.priority < l.priority then c else max)
  else pure max

/-- One call of `max_heapify_recursive` up to its recursive call: the entries
    after the swap, and the index the call recurses on, if it does. -/
def maxHeapifyStep (v : List (Entry T)) (len i : Nat) :
    Except Abort (List (Entry T) × Option Nat) := do
  if len = 0 then return (v, none)
  if ¬i < len then throw .heapifyOutOfRange
  let left := i * 2 + 1
  let right := left + 1
  let max ← pickLarger v len i left
  let max ← pickLarger v len max right
  if max ≠ i then
    let v ← swapEntries v max i
    return (v, some max)
  return (v, none)

/-- `max_heapify_recursive`, with at most `fuel` recursive calls. -/
def maxHeapifyLoop (len : Nat) : Nat → List (Entry T) → Nat → Except Abort (List (Entry T))
  | 0, v, i => do
    let (v, _) ← maxHeapifyStep v len i
    pure v
  | fuel + 1, v, i => do
    let (v, next) ← maxHeapifyStep v len i
    match next with
    | some max => maxHeapifyLoop len fuel v max
    | none => pure v

/-- `max_heapify_recursive`: every call goes to an index below `len`, larger
    than the last, so `len` calls are enough. -/
def maxHeapifyRecursive (v : List (Entry T)) (len i : Nat) : Except Abort (List (Entry T)) :=
  maxHeapifyLoop len len v i

/-- `new`: heapify from the last parent, at `len / 2 - 1`, down to the root. -/
def new (entries : List (Entry T)) : Except Abort (PriorityQueue T) := do
  let len := entries.length
  let entries ← (List.range (len / 2)).reverse.foldlM
    (fun v i => maxHeapifyRecursive v len i) entries
  pure ⟨entries⟩

/-- `pop_max`. -/
def popMax (pq : PriorityQueue T) : Except Abort (Nat × T × PriorityQueue T) := do
  let len := pq.entries.length
  if ¬0 < len then throw .popFromEmptyHeap
  let (e, entries) ← swapRemove pq.entries 0
  let entries ← maxHeapifyRecursive entries (len - 1) 0
  pure (e.priority, e.value, ⟨entries⟩)

/-- `restore_heap_recursive`, with at most `fuel` recursive calls. -/
def restoreHeapLoop : Nat → List (Entry T) → Nat → Except Abort (List (Entry T))
  | fuel, v, i => do
    if i = 0 then return v
    let parent := (i - 1) / 2
    let c ← borrow v i
    let p ← borrow v parent
    if p.priority < c.priority then
      let v ← swapEntries v i parent
      match fuel with
      | fuel + 1 => restoreHeapLoop fuel v parent
      | 0 => pure v
    else pure v

/-- `restore_heap_recursive`: every call goes to a smaller index, so `i` calls
    are enough. -/
def restoreHeapRecursive (v : List (Entry T)) (i : Nat) : Except Abort (List (Entry T)) :=
  restoreHeapLoop i v i

/-- `insert`. -/
def insert (pq : PriorityQueue T) (priority : Nat) (value : T) : Except Abort (PriorityQueue T) := do
  let entries := pq.entries ++ [⟨priority, value⟩]
  let index := entries.length - 1
  let entries ← restoreHeapRecursive entries index
  pure ⟨entries⟩

/-- `new_entry`. -/
def newEntry (priority : Nat) (value : T) : Entry T := ⟨priority, value⟩

/-- `create_entries`: the loop takes the priorities and values from the front,
    in order. -/
def createEntries (p : List Nat) (v : List T) : Except Abort (List (Entry T)) :=
  if v.length ≠ p.length then throw .entriesLengthMismatch
  else pure (List.zipWith Entry.mk p v)

/-- `priorities`. -/
def priorities (pq : PriorityQueue T) : List Nat := pq.entries.map (·.priority)

/-! ## Sift-down -/

/-- The queue's order: the entries form a max-heap on their priorities. -/
def IsHeap (pq : PriorityQueue T) : Prop :=
  HeapFrom Entry.priority pq.entries pq.entries.length 0

theorem borrow_of_lt {v : List (Entry T)} {i : Nat} (h : i < v.length) : borrow v i = pure v[i] := by
  rw [borrow, List.getElem?_eq_getElem h]

theorem swapEntries_of_lt {v : List (Entry T)} {i j : Nat} (hi : i < v.length) (hj : j < v.length) :
    swapEntries v i j = pure (swap v i j) := by
  rw [swapEntries, if_pos ⟨hi, hj⟩]

/-- A test of `max_heapify_recursive` keeps the larger of `max` and `c`, and
    picks `c` only below `len`. -/
theorem pickLarger_spec {v : List (Entry T)} {len max : Nat} (c : Nat) (hlen : len ≤ v.length)
    (hmax : max < len) :
    ∃ m, pickLarger v len max c = .ok m ∧ (m = max ∨ m = c ∧ c < len) ∧
      KeyLe Entry.priority v max m ∧ (c < len → KeyLe Entry.priority v c m) := by
  unfold pickLarger
  by_cases hc : c < len
  · have hcv : c < v.length := by omega
    have hmv : max < v.length := by omega
    rw [if_pos hc, borrow_of_lt hcv, borrow_of_lt hmv]
    by_cases hlt : v[max].priority < v[c].priority
    · exact ⟨c, by simp [hlt], Or.inr ⟨rfl, hc⟩, KeyLe.of_getElem hmv hcv (Nat.le_of_lt hlt),
        fun _ => KeyLe.refl v c⟩
    · exact ⟨max, by simp [hlt], Or.inl rfl, KeyLe.refl v max,
        fun _ => KeyLe.of_getElem hcv hmv (Nat.le_of_not_lt hlt)⟩
  · exact ⟨max, by rw [if_neg hc]; rfl, Or.inl rfl, KeyLe.refl v max, fun h => absurd h hc⟩

/-- What one call of `max_heapify_recursive` does below `len`: it stops when
    no child has a higher priority than `i`, and otherwise swaps `i` with a
    largest child and goes on there. -/
theorem maxHeapifyStep_spec {v : List (Entry T)} {len i : Nat} (hlen : len ≤ v.length) (hi : i < len) :
    (maxHeapifyStep v len i = .ok (v, none) ∧
      ∀ c, IsChild c i → c < len → KeyLe Entry.priority v c i) ∨
    ∃ m, maxHeapifyStep v len i = .ok (swap v i m, some m) ∧ IsChild m i ∧ m < len ∧
      (∀ c, IsChild c i → c < len → KeyLe Entry.priority v c m) ∧ KeyLe Entry.priority v i m := by
  obtain ⟨m₁, h₁, hm₁, hi₁, hl₁⟩ := pickLarger_spec (i * 2 + 1) hlen hi
  have hm₁len : m₁ < len := by rcases hm₁ with rfl | ⟨rfl, h⟩ <;> omega
  obtain ⟨m, h₂, hm, h₁₂, hr₂⟩ := pickLarger_spec (i * 2 + 1 + 1) hlen hm₁len
  have hmlen : m < len := by rcases hm with rfl | ⟨rfl, h⟩ <;> omega
  have hstep : maxHeapifyStep v len i =
      if m ≠ i then (swapEntries v m i >>= fun w => pure (w, some m)) else pure (v, none) := by
    have h0 : len ≠ 0 := by omega
    simp only [maxHeapifyStep, h0, hi, if_false, not_true_eq_false, h₁]
    rw [show (Except.ok m₁ : Except Abort Nat) = pure m₁ from rfl, pure_bind, h₂]
    rfl
  -- every child of `i` below `len` is below `m`, the left one through `m₁`
  have hchildren : ∀ c, IsChild c i → c < len → KeyLe Entry.priority v c m := by
    rintro c (rfl | rfl) hc
    · rw [Nat.mul_comm 2 i]
      exact KeyLe.trans (by omega) (hl₁ (by omega)) h₁₂
    · rw [(by omega : 2 * i + 2 = i * 2 + 1 + 1)]
      exact hr₂ (by omega)
  by_cases hmi : m = i
  · subst hmi
    left
    exact ⟨by rw [hstep, if_neg (not_not.mpr rfl)]; rfl, hchildren⟩
  · right
    have hchild : IsChild m i := by
      unfold IsChild
      rcases hm with rfl | ⟨rfl, _⟩
      · rcases hm₁ with rfl | ⟨rfl, _⟩ <;> omega
      · omega
    refine ⟨m, ?_, hchild, hmlen, hchildren, KeyLe.trans (by omega) hi₁ h₁₂⟩
    rw [hstep, if_pos hmi, swapEntries_of_lt (by omega) (by omega), swap_comm]
    rfl

/-- A step that stops ends the loop, whatever the calls left. -/
theorem maxHeapifyLoop_of_done {v : List (Entry T)} {len i : Nat}
    (h : maxHeapifyStep v len i = .ok (v, none)) (fuel : Nat) : maxHeapifyLoop len fuel v i = .ok v := by
  cases fuel <;> rw [maxHeapifyLoop, h] <;> rfl

/-- Nothing is ordered in an empty prefix. -/
theorem maxHeapifyLoop_zero (v : List (Entry T)) (fuel i : Nat) : maxHeapifyLoop 0 fuel v i = .ok v :=
  maxHeapifyLoop_of_done (by simp [maxHeapifyStep]) fuel

/-- **`max_heapify_recursive` restores the heap order** of the subtree of
    `lo`: from the sift-down invariant at `i`, with calls enough for the depth
    left below `i`, it returns a permutation that is a heap from `lo`. By
    induction on the calls left, one `SiftInv.swap` a call. -/
theorem maxHeapifyLoop_spec {len lo : Nat} (fuel : Nat) :
    ∀ (v : List (Entry T)) i, SiftInv Entry.priority v len lo i → lo ≤ i → len ≤ v.length →
      len ≤ i + fuel + 1 → i < len →
      ∃ w, maxHeapifyLoop len fuel v i = .ok w ∧ HeapFrom Entry.priority w len lo ∧ w.Perm v := by
  induction fuel with
  | zero =>
    intro v i hinv _ hlen hfuel hi
    rcases maxHeapifyStep_spec hlen hi with ⟨hstep, hdone⟩ | ⟨m, -, hm, hml, -, -⟩
    · exact ⟨v, maxHeapifyLoop_of_done hstep 0, hinv.finish hdone, List.Perm.refl v⟩
    · -- a child of `i` lies past `i + 1`, so past `len`
      have := hm.lt
      omega
  | succ fuel ih =>
    intro v i hinv hlo hlen hfuel hi
    rcases maxHeapifyStep_spec hlen hi with ⟨hstep, hdone⟩ | ⟨m, hstep, hm, hml, hmax, him⟩
    · exact ⟨v, maxHeapifyLoop_of_done hstep _, hinv.finish hdone, List.Perm.refl v⟩
    · have hlt := hm.lt
      obtain ⟨w, hw, hheap, hperm⟩ := ih (swap v i m) m (hinv.swap hlo hm hml hlen hmax him)
        (by omega) (by rw [length_swap]; exact hlen) (by omega) hml
      refine ⟨w, ?_, hheap, hperm.trans (swap_perm v i m)⟩
      rw [maxHeapifyLoop, hstep]
      exact hw

/-- `max_heapify_recursive` on a prefix that is a heap below `i`. -/
theorem maxHeapifyRecursive_spec {v : List (Entry T)} {len i : Nat} (hlen : len ≤ v.length)
    (hi : i < len) (h : SiftInv Entry.priority v len i i) :
    ∃ w, maxHeapifyRecursive v len i = .ok w ∧ HeapFrom Entry.priority w len i ∧ w.Perm v :=
  maxHeapifyLoop_spec len v i h (Nat.le_refl i) hlen (by omega) hi

/-- `max_heapify_recursive` from the root of a heap whose root was replaced. -/
theorem maxHeapifyRecursive_root {v : List (Entry T)} {len : Nat} (hlen : len ≤ v.length)
    (h : SiftInv Entry.priority v len 0 0) :
    ∃ w, maxHeapifyRecursive v len 0 = .ok w ∧ HeapFrom Entry.priority w len 0 ∧ w.Perm v := by
  rcases Nat.eq_zero_or_pos len with rfl | hpos
  · exact ⟨v, maxHeapifyLoop_zero v 0 0, heapFrom_of_le (Nat.zero_le _), List.Perm.refl v⟩
  · exact maxHeapifyRecursive_spec hlen hpos h

/-! ## Building and popping -/

/-- The loop of `new`: heapifying the parents below `k`, from the last one to
    the root, turns a heap from `k` into a heap. By induction on `k`. -/
theorem foldlM_maxHeapify_spec {len : Nat} (k : Nat) :
    ∀ (v : List (Entry T)), v.length = len → k ≤ len / 2 → HeapFrom Entry.priority v len k →
      ∃ w, (List.range k).reverse.foldlM (fun v i => maxHeapifyRecursive v len i) v = .ok w ∧
        HeapFrom Entry.priority w len 0 ∧ w.Perm v := by
  induction k with
  | zero => exact fun v _ _ h => ⟨v, rfl, h, List.Perm.refl v⟩
  | succ k ih =>
    intro v hv hk h
    rw [List.range_succ, List.reverse_append, List.reverse_singleton, List.singleton_append,
      List.foldlM_cons]
    obtain ⟨w₁, hw₁, hheap₁, hperm₁⟩ :=
      maxHeapifyRecursive_spec (by omega) (by omega) (SiftInv.start h)
    obtain ⟨w, hw, hheap, hperm⟩ := ih w₁ (by rw [hperm₁.length_eq, hv]) (by omega) hheap₁
    refine ⟨w, ?_, hheap, hperm.trans hperm₁⟩
    rw [hw₁]
    exact hw

/-- **`new` builds a heap** of the entries it is given. -/
theorem new_spec (entries : List (Entry T)) :
    ∃ pq, new entries = .ok pq ∧ IsHeap pq ∧ pq.entries.Perm entries := by
  obtain ⟨w, hw, hheap, hperm⟩ := foldlM_maxHeapify_spec (entries.length / 2) entries rfl
    (Nat.le_refl _) (heapFrom_of_le (by omega))
  refine ⟨⟨w⟩, ?_, ?_, hperm⟩
  · simp only [new, hw]
    rfl
  · unfold IsHeap
    rw [hperm.length_eq]
    exact hheap

theorem swapRemove_zero {v : List (Entry T)} (h : 0 < v.length) :
    swapRemove v 0 = .ok (v[0], (swap v 0 (v.length - 1)).dropLast) := by
  rw [swapRemove, List.getElem?_eq_getElem h]
  rfl

/-- **`pop_max` on a heap** returns an entry of highest priority and leaves a
    heap of the other entries. -/
theorem popMax_spec {pq : PriorityQueue T} (h : IsHeap pq) (hne : pq.entries ≠ []) :
    ∃ e pq', popMax pq = .ok (e.priority, e.value, pq') ∧ IsHeap pq' ∧
      (e :: pq'.entries).Perm pq.entries ∧ ∀ x ∈ pq.entries, x.priority ≤ e.priority := by
  obtain ⟨v⟩ := pq
  have hpos : 0 < v.length := List.length_pos_iff.mpr hne
  have hwlen : (swap v 0 (v.length - 1)).dropLast.length = v.length - 1 := by simp
  -- the last entry, now at the root, is the only entry out of order
  have hinv : SiftInv Entry.priority (swap v 0 (v.length - 1)).dropLast (v.length - 1) 0 0 := by
    refine SiftInv.of_root h (Nat.sub_le _ _) fun k hk hkl => ?_
    rw [List.getElem?_dropLast, if_pos (by simp; omega), getElem?_swap hpos (by omega),
      if_neg (by omega), if_neg (by omega)]
  obtain ⟨w, hw, hheap, hperm⟩ := maxHeapifyRecursive_root (Nat.le_of_eq hwlen.symm) hinv
  refine ⟨v[0], ⟨w⟩, ?_, ?_, ?_, ?_⟩
  · simp only [popMax, hpos, not_true_eq_false, if_false, swapRemove_zero hpos]
    rw [show (Except.ok (v[0], (swap v 0 (v.length - 1)).dropLast) : Except Abort _) = pure _ from rfl,
      pure_bind, hw]
    rfl
  · unfold IsHeap
    rw [hperm.length_eq, hwlen]
    exact hheap
  · calc (v[0] :: w).Perm (v[0] :: (swap v 0 (v.length - 1)).dropLast) := hperm.cons _
      List.Perm _ ((swap v 0 (v.length - 1)).dropLast ++ [v[0]]) :=
        (List.perm_append_singleton _ _).symm
      _ = swap v 0 (v.length - 1) := dropLast_swap_append hpos
      List.Perm _ v := swap_perm v 0 (v.length - 1)
  · intro x hx
    obtain ⟨k, hk, rfl⟩ := List.getElem_of_mem hx
    exact h.root_max (Nat.le_refl _) k hk _ _ (List.getElem?_eq_getElem hk)
      (List.getElem?_eq_getElem hpos)

/-! ## Sift-up and insertion -/

theorem restoreHeapLoop_root (fuel : Nat) (v : List (Entry T)) : restoreHeapLoop fuel v 0 = .ok v := by
  cases fuel <;> rfl

/-- `restore_heap_recursive` below a parent that is no smaller stops. -/
theorem restoreHeapLoop_of_le {v : List (Entry T)} {j : Nat} (hj : j ≠ 0) (hjl : j < v.length)
    (hle : ¬v[(j - 1) / 2].priority < v[j].priority) (fuel : Nat) : restoreHeapLoop fuel v j = .ok v := by
  have hpv : (j - 1) / 2 < v.length := by omega
  cases fuel <;> rw [restoreHeapLoop] <;>
    simp only [hj, if_false, borrow_of_lt hjl, borrow_of_lt hpv, pure_bind, hle] <;> rfl

/-- Below a parent that is smaller it swaps and goes on at the parent. -/
theorem restoreHeapLoop_of_lt {v : List (Entry T)} {j : Nat} (hj : j ≠ 0) (hjl : j < v.length)
    (hlt : v[(j - 1) / 2].priority < v[j].priority) (fuel : Nat) :
    restoreHeapLoop (fuel + 1) v j = restoreHeapLoop fuel (swap v j ((j - 1) / 2)) ((j - 1) / 2) := by
  have hpv : (j - 1) / 2 < v.length := by omega
  rw [restoreHeapLoop]
  simp only [hj, if_false, borrow_of_lt hjl, borrow_of_lt hpv, pure_bind, hlt, if_true,
    swapEntries_of_lt hjl hpv]

/-- **`restore_heap_recursive` restores the heap order** from the sift-up
    invariant at `j`, with a call for each level above `j`. By induction on
    the calls left, one `UpInv.swap` a call. -/
theorem restoreHeapLoop_spec (fuel : Nat) :
    ∀ (v : List (Entry T)) j, UpInv Entry.priority v v.length j → j < v.length → j ≤ fuel →
      ∃ w, restoreHeapLoop fuel v j = .ok w ∧ HeapFrom Entry.priority w w.length 0 ∧ w.Perm v := by
  -- the root has no parent to compare with
  have hroot : ∀ p, ¬IsChild 0 p := fun p hp => by unfold IsChild at hp; omega
  induction fuel with
  | zero =>
    intro v j hinv _ hfuel
    obtain rfl : j = 0 := by omega
    exact ⟨v, restoreHeapLoop_root 0 v, hinv.finish fun p hp => absurd hp (hroot p),
      List.Perm.refl v⟩
  | succ fuel ih =>
    intro v j hinv hjl hfuel
    by_cases hj : j = 0
    · subst hj
      exact ⟨v, restoreHeapLoop_root _ v, hinv.finish fun p hp => absurd hp (hroot p),
        List.Perm.refl v⟩
    have hpar := isChild_parent (Nat.pos_of_ne_zero hj)
    have hpj := hpar.lt
    have hpv : (j - 1) / 2 < v.length := by omega
    by_cases hlt : v[(j - 1) / 2].priority < v[j].priority
    · have hinv' := hinv.swap hpar hjl (Nat.le_refl _) (KeyLe.of_getElem hpv hjl (Nat.le_of_lt hlt))
      rw [← length_swap (i := j) (j := (j - 1) / 2)] at hinv'
      obtain ⟨w, hw, hheap, hperm⟩ := ih _ _ hinv' (by rw [length_swap]; exact hpv) (by omega)
      refine ⟨w, ?_, hheap, hperm.trans (swap_perm v _ _)⟩
      rw [restoreHeapLoop_of_lt hj hjl hlt]
      exact hw
    · refine ⟨v, restoreHeapLoop_of_le hj hjl hlt _, hinv.finish fun p hp => ?_, List.Perm.refl v⟩
      obtain rfl := hp.unique hpar
      exact KeyLe.of_getElem hjl hpv (Nat.le_of_not_lt hlt)

/-- **`insert` keeps the queue a heap**, with the new entry added. -/
theorem insert_spec {pq : PriorityQueue T} (h : IsHeap pq) (priority : Nat) (value : T) :
    ∃ pq', pq.insert priority value = .ok pq' ∧ IsHeap pq' ∧
      pq'.entries.Perm (pq.entries ++ [⟨priority, value⟩]) := by
  have hinv := UpInv.push h ⟨priority, value⟩
  have hlen : (pq.entries ++ [Entry.mk priority value]).length = pq.entries.length + 1 := by
    rw [List.length_append, List.length_singleton]
  rw [← hlen] at hinv
  obtain ⟨w, hw, hheap, hperm⟩ := restoreHeapLoop_spec pq.entries.length _ _ hinv
    (by simp) (Nat.le_refl _)
  refine ⟨⟨w⟩, ?_, hheap, hperm⟩
  simp only [insert, restoreHeapRecursive, hlen, Nat.add_sub_cancel, hw]
  rfl

/-! ## Lengths

Every call that returns leaves one entry fewer after a pop, and as many after
a heapify, whatever the entries: the measure on which a loop of pops ends. -/

theorem swapEntries_length {v w : List (Entry T)} {i j : Nat} (h : swapEntries v i j = .ok w) :
    w.length = v.length := by
  unfold swapEntries at h
  split at h
  · rw [Except.pure_eq_ok] at h
    rw [← h, length_swap]
  · exact absurd h Except.throw_ne_ok

theorem maxHeapifyStep_length {v w : List (Entry T)} {len i : Nat} {next : Option Nat}
    (h : maxHeapifyStep v len i = .ok (w, next)) : w.length = v.length := by
  unfold maxHeapifyStep at h
  split at h
  · rw [Except.pure_eq_ok, Prod.mk.injEq] at h
    rw [← h.1]
  · split at h
    · exact absurd h Except.throw_bind_ne_ok
    · obtain ⟨m₁, -, h⟩ := Except.bind_eq_ok.mp h
      obtain ⟨m, -, h⟩ := Except.bind_eq_ok.mp h
      split at h
      · obtain ⟨w', hw', h⟩ := Except.bind_eq_ok.mp h
        rw [Except.pure_eq_ok, Prod.mk.injEq] at h
        rw [← h.1, swapEntries_length hw']
      · rw [Except.pure_eq_ok, Prod.mk.injEq] at h
        rw [← h.1]

theorem maxHeapifyLoop_length {len : Nat} (fuel : Nat) :
    ∀ {v w : List (Entry T)} {i : Nat}, maxHeapifyLoop len fuel v i = .ok w → w.length = v.length := by
  induction fuel with
  | zero =>
    intro v w i h
    obtain ⟨⟨v', _⟩, hs, h⟩ := Except.bind_eq_ok.mp h
    have hv' : v' = w := Except.pure_eq_ok.mp h
    rw [← hv', maxHeapifyStep_length hs]
  | succ fuel ih =>
    intro v w i h
    obtain ⟨⟨v', next⟩, hs, h⟩ := Except.bind_eq_ok.mp h
    rw [← maxHeapifyStep_length hs]
    cases next with
    | none =>
      have hv' : v' = w := Except.pure_eq_ok.mp h
      rw [hv']
    | some m => exact ih h

/-- A pop that returns removes one entry. -/
theorem popMax_length {pq pq' : PriorityQueue T} {p : Nat} {x : T}
    (h : popMax pq = .ok (p, x, pq')) : pq'.entries.length + 1 = pq.entries.length := by
  by_cases hpos : 0 < pq.entries.length
  · simp only [popMax, hpos, not_true_eq_false, if_false, swapRemove_zero hpos] at h
    rw [show (Except.ok (pq.entries[0], (swap pq.entries 0 (pq.entries.length - 1)).dropLast) :
      Except Abort _) = pure _ from rfl, pure_bind] at h
    obtain ⟨w, hw, h⟩ := Except.bind_eq_ok.mp h
    rw [Except.pure_eq_ok, Prod.mk.injEq, Prod.mk.injEq] at h
    rw [← h.2.2, maxHeapifyLoop_length _ hw]
    simp only [List.length_dropLast, length_swap]
    omega
  · simp only [popMax, hpos, not_false_eq_true, if_true] at h
    exact absurd h Except.throw_bind_ne_ok

/-- `pop_max` on an empty queue aborts with `EPopFromEmptyHeap`. -/
theorem popMax_nil : popMax (⟨[]⟩ : PriorityQueue T) = .error .popFromEmptyHeap := rfl

/-! ## Successive pops -/

/-- `n` successive `pop_max` calls, as `test_pq` makes them: the priorities and
    values they return, in order, and the queue left. -/
def popMaxTimes : Nat → PriorityQueue T → Except Abort (List (Nat × T) × PriorityQueue T)
  | 0, pq => pure ([], pq)
  | n + 1, pq => do
    let (priority, value, pq) ← popMax pq
    let (popped, pq) ← popMaxTimes n pq
    pure ((priority, value) :: popped, pq)

/-- **Pops from a heap come out in order**: `n` pops from a heap of at least
    `n` entries return, by non-increasing priority, entries no lower than any
    left, and leave a heap of the others. By induction on `n`, one
    `popMax_spec` a pop. -/
theorem popMaxTimes_spec (n : Nat) :
    ∀ {pq : PriorityQueue T}, IsHeap pq → n ≤ pq.entries.length →
      ∃ popped pq', popMaxTimes n pq = .ok (popped, pq') ∧ IsHeap pq' ∧
        popped.Pairwise (fun a b => b.1 ≤ a.1) ∧
        ((popped.map fun x => Entry.mk x.1 x.2) ++ pq'.entries).Perm pq.entries ∧
        ∀ x ∈ popped, ∀ y ∈ pq'.entries, y.priority ≤ x.1 := by
  induction n with
  | zero =>
    intro pq h _
    exact ⟨[], pq, rfl, h, List.Pairwise.nil, List.Perm.refl _, by simp⟩
  | succ n ih =>
    intro pq h hn
    have hne : pq.entries ≠ [] := List.ne_nil_of_length_pos (by omega)
    obtain ⟨e, pq₁, hpop, hheap₁, hperm₁, hmax⟩ := popMax_spec h hne
    have hlen := popMax_length hpop
    obtain ⟨popped, pq', hrest, hheap', hsorted, hperm', hlow⟩ := ih hheap₁ (by omega)
    -- what comes out after the first pop was in the queue the first pop left
    have hsub : ∀ y, y ∈ (popped.map fun x => Entry.mk x.1 x.2) ++ pq'.entries → y ∈ pq.entries :=
      fun y hy => hperm₁.subset (List.mem_cons_of_mem e (hperm'.subset hy))
    refine ⟨(e.priority, e.value) :: popped, pq', ?_, hheap', ?_, ?_, ?_⟩
    · rw [popMaxTimes, hpop, Except.ok_bind]
      dsimp only
      rw [hrest, Except.ok_bind]
      rfl
    · refine List.pairwise_cons.mpr ⟨fun x hx => hmax ⟨x.1, x.2⟩ (hsub _ ?_), hsorted⟩
      exact List.mem_append_left _ (List.mem_map_of_mem hx)
    · exact (hperm'.cons e).trans hperm₁
    · intro x hx y hy
      rcases List.mem_cons.mp hx with rfl | hx
      · exact hmax y (hsub y (List.mem_append_right _ hy))
      · exact hlow x hx y hy

/-- **The queue is a max-heap under every call**: `new` heapifies any entries,
    `insert` and `pop_max` keep a heap a heap of the entries they add or leave,
    `pop_max` returns an entry of highest priority, and successive pops return
    their priorities in non-increasing order. -/
theorem priority_queue_keeps_max_heap :
    (∀ entries : List (Entry T), ∃ pq, new entries = .ok pq ∧ IsHeap pq ∧ pq.entries.Perm entries) ∧
    (∀ pq : PriorityQueue T, IsHeap pq → ∀ priority value, ∃ pq', pq.insert priority value = .ok pq' ∧
      IsHeap pq' ∧ pq'.entries.Perm (pq.entries ++ [⟨priority, value⟩])) ∧
    (∀ pq : PriorityQueue T, IsHeap pq → pq.entries ≠ [] →
      ∃ e pq', popMax pq = .ok (e.priority, e.value, pq') ∧ IsHeap pq' ∧
        (e :: pq'.entries).Perm pq.entries ∧ ∀ x ∈ pq.entries, x.priority ≤ e.priority) ∧
    (∀ (pq : PriorityQueue T) (n : Nat), IsHeap pq → n ≤ pq.entries.length →
      ∃ popped pq', popMaxTimes n pq = .ok (popped, pq') ∧ popped.Pairwise (fun a b => b.1 ≤ a.1)) := by
  refine ⟨new_spec, fun pq h => insert_spec h, fun pq h hne => popMax_spec h hne, ?_⟩
  intro pq n h hn
  obtain ⟨popped, pq', hpop, -, hsorted, -⟩ := popMaxTimes_spec n h hn
  exact ⟨popped, pq', hpop, hsorted⟩

-- The first half of `test_pq`: pops in order of priority, ties in order of position.
example : (do
    let entries ← (createEntries [3, 1, 4, 2, 5, 2] [10, 20, 30, 40, 50, 60] :
      Except Abort (List (Entry Nat)))
    let h ← new entries
    let (p1, v1, h) ← popMax h
    let (p2, v2, h) ← popMax h
    let (p3, v3, h) ← popMax h
    let h ← insert h 7 70
    let (p4, v4, h) ← popMax h
    let (p5, v5, h) ← popMax h
    let h ← insert h 0 80
    let (p6, v6, _) ← popMax h
    pure [(p1, v1), (p2, v2), (p3, v3), (p4, v4), (p5, v5), (p6, v6)]) =
    .ok [(5, 50), (4, 30), (3, 10), (7, 70), (2, 40), (2, 60)] := by
  rfl

end PriorityQueue

end Mango.Framework
