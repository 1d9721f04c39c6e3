/-
  Mango.Lib.List

  Lists as the tables of a state machine use them. The largest element of a
  list of naturals, `List.max?`, as running maxima compute it: one more value
  raises the maximum to the larger of the two, a value that bounds a list
  and occurs in it is its maximum, and lists with the same values have the
  same maximum. The sets of values a loop has seen, when it fails on the
  first value seen twice, and a `HashSet` collected by `List.insert`. `List.find?` over a table whose key
  picks out at most one entry, which then is what the lookup returns. And a
  sum over a set of keys split by a second set, as an account of what was
  written and what was only touched adds up. A list split around one of its
  elements after more was appended. And along a relation that raises a rank,
  every element of a list reaches, within the list, one from which the
  relation leads to no element of it. And what a sum over a list becomes when
  one position is written or removed.
-/
import Mathlib

namespace Mango.Lib

/-! ## Maxima -/

/-- The maximum of a nonempty list, with `0` for the empty one. -/
theorem max?_getD_cons (x : Nat) (l : List Nat) :
    (x :: l).max?.getD 0 = max x (l.max?.getD 0) := by
  cases h : l.max? <;> simp [h]

/-- A value of a list that bounds all of it is its maximum. -/
theorem max?_eq_of_mem {l : List Nat} {x : Nat} (hx : x ∈ l) (hle : ∀ y ∈ l, y ≤ x) :
    l.max? = some x :=
  List.max?_eq_some_iff.mpr ⟨hx, hle⟩

/-- A list has a maximum at least each of its values. -/
theorem le_max?_of_mem {l : List Nat} {x : Nat} (hx : x ∈ l) : ∃ m, l.max? = some m ∧ x ≤ m := by
  obtain ⟨m, hm⟩ := Option.isSome_iff_exists.mp (List.isSome_max?_of_mem hx)
  exact ⟨m, hm, (List.max?_le_iff hm).mp (Nat.le_refl m) x hx⟩

/-- Folding `max` over a list adds its maximum. -/
theorem foldl_max_eq {α : Type _} (f : α → Nat) :
    ∀ (l : List α) (m : Nat), l.foldl (fun m c => max m (f c)) m = max m ((l.map f).max?.getD 0)
  | [], m => by simp
  | c :: l, m => by
    rw [List.foldl_cons, foldl_max_eq f l, List.map_cons, max?_getD_cons, Nat.max_assoc]

/-- `foldl max` from zero is the maximum, zero for the empty list. -/
theorem foldl_max_zero (l : List Nat) : l.foldl max 0 = l.max?.getD 0 := by
  have h := foldl_max_eq id l 0
  simpa using h

/-- A running maximum `o` with the next value `x` taken in. -/
theorem max?_toList_append_cons (o : Option Nat) (x : Nat) (l : List Nat) :
    (o.toList ++ x :: l).max? = ((some (max (o.getD 0) x)).toList ++ l).max? := by
  cases o with
  | none => simp
  | some m =>
    cases h : l.max? with
    | none => simp [h]
    | some k => simp [h, Nat.max_assoc]

/-- Taking the maximum of a prefix first changes nothing. -/
theorem max?_toList_max?_append (l m : List Nat) :
    (l.max?.toList ++ m).max? = (l ++ m).max? := by
  cases hl : l.max? with
  | none => rw [List.max?_eq_none_iff.mp hl]; rfl
  | some v =>
    obtain ⟨hvl, hv⟩ := List.max?_eq_some_iff.mp hl
    cases hlm : (l ++ m).max? with
    | none => exact absurd (List.max?_eq_none_iff.mp hlm) (List.ne_nil_of_mem (List.mem_append_left _ hvl))
    | some w =>
      obtain ⟨hwlm, hw⟩ := List.max?_eq_some_iff.mp hlm
      refine List.max?_eq_some_iff.mpr ⟨?_, ?_⟩
      · rcases List.mem_append.mp hwlm with h | h
        · -- The maximum lies in the prefix, so it is the prefix's maximum.
          have hwv : w = v := Nat.le_antisymm (hv w h) (hw v (List.mem_append_left _ hvl))
          simp [hwv]
        · simp [h]
      · intro y hy
        rcases List.mem_append.mp hy with hy | hy
        · rw [Option.toList_some, List.mem_singleton] at hy
          exact hy ▸ hw v (List.mem_append_left _ hvl)
        · exact hw y (List.mem_append_right _ hy)

/-! ## Sets of seen values -/

/-- A value new to the set `used`, put in front of a list of distinct values
    that avoid it and `used`, gives a list of distinct values that avoid `used`:
    the step of a loop that fails on the first value it sees twice. -/
theorem nodup_cons_fresh {α : Type _} {a : α} {used l : List α} (ha : a ∉ used)
    (hl : l.Nodup) (hdisj : ∀ x ∈ l, x ∉ a :: used) :
    (a :: l).Nodup ∧ ∀ x ∈ a :: l, x ∉ used := by
  refine ⟨List.nodup_cons.mpr ⟨fun hmem => hdisj a hmem List.mem_cons_self, hl⟩, ?_⟩
  intro x hx
  rcases List.mem_cons.mp hx with rfl | hx
  · exact ha
  · exact fun hxu => hdisj x hx (List.mem_cons_of_mem _ hxu)

/-! ## Lookups -/

/-- A lookup finds the one element that satisfies its test. -/
theorem find?_eq_some_of_unique {α : Type _} {p : α → Bool} {l : List α} {x : α} (hx : x ∈ l)
    (hp : p x = true) (huniq : ∀ y ∈ l, p y = true → y = x) : l.find? p = some x := by
  have hsome : (l.find? p).isSome := by
    rw [List.isSome_find?]
    exact List.any_eq_true.mpr ⟨x, hx, hp⟩
  obtain ⟨y, hy⟩ := Option.isSome_iff_exists.mp hsome
  rw [hy, huniq y (List.mem_of_find?_eq_some hy) (List.find?_some hy)]

/-! ## Sums over two sets of keys -/

/-- Over distinct keys `ks` and `ms`, the values of the keys of `ms` summed over
    `ks` (zero for a key outside `ms`), with those of the keys of `ms` outside
    `ks`, make up the sum over `ms`. -/
theorem sum_ite_mem_add_sum_filter_not_mem {α : Type _} [DecidableEq α] (f : α → Nat)
    {ks ms : List α} (hks : ks.Nodup) (hms : ms.Nodup) :
    (ks.map fun k => if k ∈ ms then f k else 0).sum + ((ms.filter (· ∉ ks)).map f).sum =
      (ms.map f).sum := by
  -- the keys of `ks` in `ms` are the keys of `ms` in `ks`, each once
  have hperm : (ks.filter (· ∈ ms)).Perm (ms.filter (· ∈ ks)) := by
    apply (List.perm_ext_iff_of_nodup (hks.filter _) (hms.filter _)).mpr
    intro a
    simp [List.mem_filter, and_comm]
  calc (ks.map fun k => if k ∈ ms then f k else 0).sum + ((ms.filter (· ∉ ks)).map f).sum
      = ((ks.filter (· ∈ ms)).map f).sum + ((ms.filter (· ∉ ks)).map f).sum := by
        rw [List.sum_map_ite]
        simp
    _ = ((ms.filter (· ∈ ks)).map f).sum + ((ms.filter (· ∉ ks)).map f).sum := by
        rw [(hperm.map f).sum_eq]
    _ = (ms.map f).sum := List.sum_map_filter_add_sum_map_filter_not _ _ _

section Count

variable {α β κ : Type _} [DecidableEq κ] {f : α → Option β} {keyα : α → κ} {keyβ : β → κ}

/-- A key that no element has is not among the keys of what a `filterMap`
    keeping keys selects. -/
theorem count_map_filterMap_of_not_mem {L : List α} (hkey : ∀ a b, f a = some b → keyβ b = keyα a)
    {k : κ} (hk : k ∉ L.map keyα) : ((L.filterMap f).map keyβ).count k = 0 := by
  apply List.count_eq_zero.mpr
  intro hmem
  obtain ⟨b, hb, rfl⟩ := List.mem_map.mp hmem
  obtain ⟨a, ha, hab⟩ := List.mem_filterMap.mp hb
  exact hk (List.mem_map.mpr ⟨a, ha, (hkey a b hab).symm⟩)

/-- In a list with distinct keys, a `filterMap` keeping keys selects the key of
    an element once if it selects the element, and never otherwise. -/
theorem count_map_filterMap {L : List α} (hL : (L.map keyα).Nodup)
    (hkey : ∀ a b, f a = some b → keyβ b = keyα a) {a : α} (ha : a ∈ L) :
    ((L.filterMap f).map keyβ).count (keyα a) = if (f a).isSome then 1 else 0 := by
  induction L with
  | nil => cases ha
  | cons x rest ih =>
    rw [List.map_cons, List.nodup_cons] at hL
    rcases List.mem_cons.mp ha with rfl | ha'
    · -- the element is the head; the rest has other keys
      have hrest := count_map_filterMap_of_not_mem hkey hL.1
      cases hx : f a with
      | none => simp [hx, hrest]
      | some b => simp [hx, hkey a b hx, hrest]
    · have hne : keyα x ≠ keyα a := fun h => hL.1 (h ▸ List.mem_map_of_mem ha')
      have hrec := ih hL.2 ha'
      cases hx : f x with
      | none => simp [hx, hrec]
      | some b => simp [hx, hkey x b hx, hne, hrec]

omit [DecidableEq κ] in
/-- A `filterMap` that, read through `keyβ`, keeps the key of each element a
    test accepts, is that test's filter read through `keyα`. -/
theorem map_filterMap_eq_map_filter {L : List α} {P : α → Bool}
    (hf : ∀ a ∈ L, (f a).map keyβ = if P a then some (keyα a) else none) :
    (L.filterMap f).map keyβ = (L.filter P).map keyα := by
  induction L with
  | nil => rfl
  | cons a rest ih =>
    have hrest := ih fun b hb => hf b (List.mem_cons_of_mem a hb)
    have ha := hf a List.mem_cons_self
    cases hfa : f a <;> cases hP : P a <;> simp_all

/-- Lists whose elements each carry the index of their list, by some kind
    function, are pairwise disjoint. -/
theorem pairwise_disjoint_of_kind {γ : Type _} (kind : γ → Nat) {Ls : List (List γ)}
    (h : ∀ i (hi : i < Ls.length), ∀ x ∈ Ls[i], kind x = i) : Ls.Pairwise List.Disjoint := by
  rw [List.pairwise_iff_getElem]
  intro i j hi hj hij x hxi hxj
  have hkind := (h i hi x hxi).symm.trans (h j hj x hxj)
  omega

end Count

/-- `map_filterMap_eq_map_filter` where the key is the element itself. -/
theorem map_filterMap_eq_filter {α β : Type _} [DecidableEq α] {f : α → Option β} {g : β → α} {L : List α}
    {P : α → Bool} (hf : ∀ a ∈ L, (f a).map g = if P a then some a else none) :
    (L.filterMap f).map g = L.filter P :=
  calc (L.filterMap f).map g = (L.filter P).map fun a => a := map_filterMap_eq_map_filter hf
    _ = L.filter P := List.map_id' _

/-- A map over an indexed list that reads only the elements. -/
theorem map_zipIdx_fst {α β : Type _} (l : List α) (g : α → β) :
    l.zipIdx.map (fun p => g p.1) = l.map g := by
  have h := congrArg (List.map g) (List.zipIdx_map_fst 0 l)
  rwa [List.map_map] at h

/-- An entry of a log with one more record is an old entry or the new record:
    what a step lemma for an append-only log of outputs splits on. -/
theorem getElem?_append_singleton {α : Type _} {l : List α} {x y : α} {j : Nat}
    (h : (l ++ [x])[j]? = some y) : (j < l.length ∧ l[j]? = some y) ∨ (j = l.length ∧ y = x) := by
  rcases Nat.lt_or_ge j l.length with hlt | hge
  · exact Or.inl ⟨hlt, by rwa [List.getElem?_append_left hlt] at h⟩
  · rw [List.getElem?_append_right hge] at h
    rcases hj : j - l.length with _ | n
    · rw [hj] at h
      exact Or.inr ⟨by omega, (Option.some.inj h).symm⟩
    · simp [hj] at h

/-! ## Selections of a list -/

/-- A loop that appends the image of each element with property `p`. -/
theorem foldl_append_filter {α β : Type _} (p : α → Prop) [DecidablePred p] (k : α → β) :
    ∀ (l : List α) (init : List β),
      l.foldl (fun acc x => if p x then acc ++ [k x] else acc) init = init ++ (l.filter p).map k
  | [], init => by simp
  | x :: l, init => by
    by_cases hx : p x <;> simp [List.foldl_cons, hx, foldl_append_filter p k l]

/-- A running total is the start plus the sum. -/
theorem foldl_add_eq_add_sum {α : Type _} (w : α → Nat) :
    ∀ (l : List α) (s : Nat), l.foldl (fun s a => s + w a) s = s + (l.map w).sum
  | [], s => by simp
  | a :: l, s => by
    rw [List.foldl_cons, foldl_add_eq_add_sum w l, List.map_cons, List.sum_cons, Nat.add_assoc]

/-- A list computed over the positions of another holds at each position the
    value of its element there. -/
theorem getElem?_map_zipIdx_of_mem {α β : Type _} {l : List α} {x : α × Nat} (g : α × Nat → β)
    (hx : x ∈ l.zipIdx) : (l.zipIdx.map g)[x.2]? = some (g x) := by
  rw [List.getElem?_map, List.getElem?_zipIdx, List.mem_zipIdx_iff_getElem?.mp hx]
  simp

/-- The positions of a list selected by a set of distinct indices in range
    are those indices. -/
theorem perm_map_snd_filter_zipIdx {α : Type _} (l : List α) {idx : List Nat} (hnd : idx.Nodup)
    (hlt : ∀ i ∈ idx, i < l.length) :
    ((l.zipIdx.filter fun x => x.2 ∈ idx).map Prod.snd).Perm idx := by
  have hsnd : (l.zipIdx.filter fun x => x.2 ∈ idx).map Prod.snd =
      (List.range l.length).filter (· ∈ idx) := by
    rw [List.range_eq_range', ← List.zipIdx_map_snd 0 l, List.filter_map]
    rfl
  rw [hsnd]
  apply (List.perm_ext_iff_of_nodup (List.nodup_range.filter _) hnd).mpr
  intro i
  simp only [List.mem_filter, List.mem_range, decide_eq_true_eq]
  exact ⟨fun h => h.2, fun h => ⟨hlt i h, h⟩⟩

/-- A sum over distinct indices in range is a sum over the positions they
    select. -/
theorem sum_map_eq_sum_filter_zipIdx {α : Type _} (l : List α) {idx : List Nat} (hnd : idx.Nodup)
    (hlt : ∀ i ∈ idx, i < l.length) (f : Nat → Nat) :
    (idx.map f).sum = ((l.zipIdx.filter fun x => x.2 ∈ idx).map fun x => f x.2).sum := by
  rw [← ((perm_map_snd_filter_zipIdx l hnd hlt).map f).sum_eq, List.map_map]
  rfl

/-! ## Erasing a position of a list of distinct keys -/

/-- In a list of distinct keys, erasing a position filters out its key. -/
theorem eraseIdx_eq_filter_key {α κ : Type _} [DecidableEq κ] (key : α → κ) :
    ∀ {l : List α} {i : Nat} (h : i < l.length), (l.map key).Nodup →
      l.eraseIdx i = l.filter fun x => key x ≠ key l[i]
  | [], _, h, _ => absurd h (Nat.not_lt_zero _)
  | x :: l, 0, _, hnd => by
    rw [List.map_cons, List.nodup_cons] at hnd
    rw [List.eraseIdx_cons_zero, List.getElem_cons_zero, List.filter_cons_of_neg (by simp)]
    -- no other entry has the key of the head
    refine (List.filter_eq_self.mpr fun y hy => ?_).symm
    have hne : key y ≠ key x := fun hk => hnd.1 (hk ▸ List.mem_map_of_mem hy)
    simpa using hne
  | x :: l, i + 1, h, hnd => by
    rw [List.map_cons, List.nodup_cons] at hnd
    have hi : i < l.length := by simpa using h
    have hx : key x ≠ key l[i] := fun hk => hnd.1 (hk ▸ List.mem_map_of_mem (List.getElem_mem hi))
    rw [List.eraseIdx_cons_succ, List.getElem_cons_succ, List.filter_cons_of_pos (by simpa using hx),
      eraseIdx_eq_filter_key key hi hnd.2]

/-- A filter that keeps every entry up to a position keeps the entry there. -/
theorem getElem?_filter_of_forall_take {α : Type _} {p : α → Bool} {l : List α} {i : Nat}
    (hi : i < l.length) (hp : ∀ y ∈ l.take (i + 1), p y = true) : (l.filter p)[i]? = l[i]? := by
  rw [← List.take_append_drop (i + 1) l, List.filter_append, List.filter_eq_self.mpr hp,
    List.getElem?_append_left (by simp; omega), List.getElem?_append_left (by simp; omega)]

/-! ## A prefix cut where a predicate turns false for good -/

/-- Along a list where a predicate, once false, stays false, `takeWhile` keeps
    what `filter` keeps. -/
theorem takeWhile_eq_filter {α : Type _} {p : α → Bool} :
    ∀ {l : List α}, l.Pairwise (fun a b => p b = true → p a = true) → l.takeWhile p = l.filter p
  | [], _ => rfl
  | a :: l, hl => by
    have hl' := List.pairwise_cons.mp hl
    by_cases ha : p a = true
    · rw [List.takeWhile_cons_of_pos ha, List.filter_cons_of_pos ha, takeWhile_eq_filter hl'.2]
    · -- nothing after `a` satisfies the predicate either
      rw [List.takeWhile_cons_of_neg ha, List.filter_cons_of_neg ha]
      exact (List.filter_eq_nil_iff.mpr fun b hb hpb => ha (hl'.1 b hb hpb)).symm

/-- Along such a list, `dropWhile` keeps what fails the predicate. -/
theorem dropWhile_eq_filter_not {α : Type _} {p : α → Bool} :
    ∀ {l : List α}, l.Pairwise (fun a b => p b = true → p a = true) →
      l.dropWhile p = l.filter fun a => !p a
  | [], _ => rfl
  | a :: l, hl => by
    have hl' := List.pairwise_cons.mp hl
    by_cases ha : p a = true
    · rw [List.dropWhile_cons_of_pos ha, List.filter_cons_of_neg (by simpa using ha),
        dropWhile_eq_filter_not hl'.2]
    · rw [List.dropWhile_cons_of_neg ha, List.filter_cons_of_pos (by simpa using ha)]
      refine congrArg (a :: ·) (List.filter_eq_self.mpr fun b hb => ?_).symm
      simpa using fun hpb => ha (hl'.1 b hb hpb)

/-- A list split by two predicates, the second tested on what the first rejects. -/
theorem perm_filter_three {α : Type _} (p q : α → Bool) (l : List α) :
    l.Perm (l.filter p ++ l.filter (fun a => q a && !p a) ++ l.filter (fun a => !q a && !p a)) := by
  have hp := (List.filter_append_perm p l).symm
  have hq := (List.filter_append_perm q (l.filter fun a => !p a)).symm
  rw [List.filter_filter, List.filter_filter] at hq
  rw [List.append_assoc]
  exact hp.trans (hq.append_left _)

/-! ## A set collected by insertion -/

section Insert

variable {α β : Type _} [DecidableEq β] (p : α → Prop) [DecidablePred p] (f : α → β)

/-- A `HashSet` that a loop fills with `f a` for each `a` that `p` does not skip
    holds what it started with and those values. -/
theorem mem_foldl_insert : ∀ (l : List α) (s : List β) (x : β),
    x ∈ l.foldl (fun s a => if p a then s else s.insert (f a)) s ↔ x ∈ s ∨ ∃ a ∈ l, ¬ p a ∧ f a = x
  | [], s, x => by simp
  | a :: l, s, x => by
    have hstep : x ∈ (if p a then s else s.insert (f a)) ↔ x ∈ s ∨ (¬ p a ∧ f a = x) := by
      by_cases ha : p a
      · rw [if_pos ha]
        simp [ha]
      · rw [if_neg ha, List.mem_insert_iff, eq_comm]
        simp [ha, or_comm]
    rw [List.foldl_cons, mem_foldl_insert l, hstep]
    simp only [List.mem_cons, or_and_right, exists_or, exists_eq_left, or_assoc]

/-- Such a set holds each value once. -/
theorem nodup_foldl_insert : ∀ (l : List α) {s : List β}, s.Nodup →
    (l.foldl (fun s a => if p a then s else s.insert (f a)) s).Nodup
  | [], _, hs => hs
  | a :: l, s, hs => by
    rw [List.foldl_cons]
    apply nodup_foldl_insert l
    split
    · exact hs
    · exact hs.insert

end Insert

/-! ## Splitting an extended list -/

/-- An element of a list extended at its end is an element of the list, with
    what follows it extended, or of the extension, with the list before it. -/
theorem append_eq_append_cons {α : Type _} {l e before after : List α} {x : α}
    (h : l ++ e = before ++ x :: after) :
    (∃ after', l = before ++ x :: after' ∧ after = after' ++ e) ∨
      ∃ e₁, before = l ++ e₁ ∧ e = e₁ ++ x :: after := by
  rcases List.append_eq_append_iff.mp h with ⟨e₁, hbefore, he⟩ | ⟨c, hl, hxc⟩
  · exact .inr ⟨e₁, hbefore, he⟩
  · cases c with
    | nil =>
      -- the split falls where the extension starts
      rw [List.append_nil] at hl
      rw [List.nil_append] at hxc
      exact .inr ⟨[], by rw [hl, List.append_nil], by rw [hxc, List.nil_append]⟩
    | cons y c =>
      rw [List.cons_append] at hxc
      obtain ⟨rfl, rfl⟩ := List.cons.inj hxc
      exact .inl ⟨c, hl, rfl⟩

/-! ## Relations that raise a rank -/

/-- A loop that updates two values independently is two loops. -/
theorem foldl_pair {α β γ : Type _} (f : β → α → β) (g : γ → α → γ) :
    ∀ (l : List α) (b : β) (c : γ), l.foldl (fun acc x => (f acc.1 x, g acc.2 x)) (b, c) = (l.foldl f b, l.foldl g c)
  | [], _, _ => rfl
  | x :: l, b, c => foldl_pair f g l (f b x) (g c x)

/-- `zip` stops at the shorter list: the right elements it pairs are a prefix. -/
theorem map_snd_zip_eq_take {α β : Type _} : ∀ (l₁ : List α) (l₂ : List β),
    (l₁.zip l₂).map Prod.snd = l₂.take l₁.length
  | [], _ => by simp
  | _ :: _, [] => by simp
  | _ :: l₁, b :: l₂ => by
    rw [List.zip_cons_cons, List.map_cons, map_snd_zip_eq_take l₁ l₂, List.length_cons, List.take_succ_cons]

/-- Replacing an element by one with the same image leaves the images as they are. -/
theorem map_set_of_getElem? {α β : Type _} (f : α → β) {l : List α} {i : Nat} {v w : α}
    (hv : l[i]? = some v) (hw : f w = f v) : (l.set i w).map f = l.map f := by
  apply List.ext_getElem?
  intro j
  rw [List.getElem?_map, List.getElem?_map, List.getElem?_set]
  split
  case isTrue hij =>
    subst hij
    rw [hv]
    simp [hw, (List.getElem?_eq_some_iff.mp hv).1]
  case isFalse => rfl

/-- Each element of a `zipWith` is made of an element of each list. -/
theorem exists_of_mem_zipWith {α β γ : Type _} {f : α → β → γ} {l₁ : List α} {l₂ : List β} {c : γ}
    (h : c ∈ List.zipWith f l₁ l₂) : ∃ a ∈ l₁, ∃ b ∈ l₂, c = f a b := by
  rw [← List.map_uncurry_zip_eq_zipWith] at h
  obtain ⟨⟨a, b⟩, hab, rfl⟩ := List.mem_map.mp h
  exact ⟨a, (List.of_mem_zip hab).1, b, (List.of_mem_zip hab).2, rfl⟩

/-- A `zipWith` that reads only the right list is a `map` of it, when the left
    list is no shorter. -/
theorem zipWith_eq_map_right {α β γ : Type _} (g : β → γ) :
    ∀ {l₁ : List α} {l₂ : List β}, l₂.length ≤ l₁.length → List.zipWith (fun _ b => g b) l₁ l₂ = l₂.map g
  | _, [], _ => by simp
  | [], _ :: _, h => absurd h (by simp)
  | _ :: _, _ :: _, h => by
    rw [List.zipWith_cons_cons, List.map_cons, zipWith_eq_map_right g (by simpa using h)]

/-- Each element on the right of a pairing is paired with one on the left. -/
theorem forall₂_exists_of_mem_right {α β : Type _} {R : α → β → Prop} :
    ∀ {l₁ : List α} {l₂ : List β}, List.Forall₂ R l₁ l₂ → ∀ {b : β}, b ∈ l₂ → ∃ a ∈ l₁, R a b
  | _, _, .nil, _, hb => absurd hb List.not_mem_nil
  | a :: _, _, .cons hab hrest, b, hb => by
    rcases List.mem_cons.mp hb with rfl | hb
    · exact ⟨a, List.mem_cons_self, hab⟩
    · obtain ⟨a', ha', hR⟩ := forall₂_exists_of_mem_right hrest hb
      exact ⟨a', List.mem_cons_of_mem a ha', hR⟩

/-- The scan for a repeated key, `iter().enumerate().any(|(i, x)| iter().skip(i + 1).any(|y| x == y))`,
    from any offset `n` of the list it scans. -/
theorem any_zipIdx_drop_eq_false_iff_of_drop {α β : Type _} [BEq β] [LawfulBEq β] (f : α → β) (L : List α) :
    ∀ (l : List α) (n : Nat), L.drop n = l →
      (((l.zipIdx n).any fun p => (L.drop (p.2 + 1)).any fun o => f p.1 == f o) = false ↔ (l.map f).Nodup)
  | [], _, _ => by simp
  | a :: l, n, hdrop => by
    have htail : L.drop (n + 1) = l := by rw [← List.tail_drop, hdrop, List.tail_cons]
    rw [List.zipIdx_cons, List.any_cons, Bool.or_eq_false_iff, any_zipIdx_drop_eq_false_iff_of_drop f L l (n + 1) htail,
      htail, List.map_cons, List.nodup_cons, List.any_eq_false]
    simp only [beq_iff_eq, List.mem_map, not_exists, not_and]
    exact and_congr_left' ⟨fun h x hx hfx => h x hx hfx.symm, fun h x hx hfx => h x hx hfx.symm⟩

/-- The scan for a repeated key finds none exactly when the keys have no repetition. -/
theorem any_zipIdx_drop_eq_false_iff {α β : Type _} [BEq β] [LawfulBEq β] (f : α → β) (l : List α) :
    (l.zipIdx.any fun p => (l.drop (p.2 + 1)).any fun o => f p.1 == f o) = false ↔ (l.map f).Nodup :=
  any_zipIdx_drop_eq_false_iff_of_drop f l l 0 rfl

/-! ## Sums after a write or a removal at a position -/

/-- A list around one of its positions. -/
theorem eq_take_append_getElem_cons_drop {α : Type _} {l : List α} {i : Nat} (hi : i < l.length) :
    l = l.take i ++ l[i] :: l.drop (i + 1) := by
  conv_lhs => rw [← List.take_append_drop i l]
  rw [List.drop_eq_getElem_cons hi]

/-- Writing `a` at a position trades the element there for `a` in a sum. -/
theorem sum_map_set_add {α : Type _} (f : α → Nat) {l : List α} {i : Nat} (hi : i < l.length) (a : α) :
    ((l.set i a).map f).sum + f l[i] = (l.map f).sum + f a := by
  have hset : l.set i a = l.take i ++ a :: l.drop (i + 1) := by
    rw [List.set_eq_take_append_cons_drop, if_pos hi]
  rw [hset]
  conv_rhs => rw [eq_take_append_getElem_cons_drop hi]
  simp only [List.map_append, List.map_cons, List.sum_append, List.sum_cons]
  omega

/-- Removing a position takes its element out of a sum. -/
theorem sum_map_eraseIdx_add {α : Type _} (f : α → Nat) {l : List α} {i : Nat} (hi : i < l.length) :
    ((l.eraseIdx i).map f).sum + f l[i] = (l.map f).sum := by
  rw [List.eraseIdx_eq_take_drop_succ]
  conv_rhs => rw [eq_take_append_getElem_cons_drop hi]
  simp only [List.map_append, List.map_cons, List.sum_append, List.sum_cons]
  omega

/-- The elements at two different positions add up to no more than the sum. -/
theorem add_le_sum_map_of_ne {α : Type _} (f : α → Nat) {l : List α} {i j : Nat} (hi : i < l.length)
    (hj : j < l.length) (hij : i ≠ j) : f l[i] + f l[j] ≤ (l.map f).sum := by
  have hmem : f l[i] ∈ (l.eraseIdx j).map f :=
    List.mem_map_of_mem (List.mem_eraseIdx_iff_getElem.mpr ⟨i, hi, hij, rfl⟩)
  have hle := List.le_sum_of_mem hmem
  have hsum := sum_map_eraseIdx_add f hj
  omega

end Mango.Lib
