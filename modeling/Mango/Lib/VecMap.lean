/-
  Mango.Lib.VecMap

  Maps kept as a vector of entries in insertion order, as Move's `vec_map`
  keeps them: lookups scan the entries for the key, and an insertion appends
  an entry after checking that the key is new. The keys are distinct, a field
  of the structure, so that a lookup finds the one entry of its key. A call
  that aborts in Move returns `none`.
-/
import Mathlib

namespace Mango.Lib

/-- A map over a vector of entries whose keys are distinct. -/
structure VecMap (K V : Type _) where
  contents : List (K × V)
  nodup : (contents.map Prod.fst).Nodup

namespace VecMap

variable {K V : Type _}

/-- Appending an entry of a new key keeps the keys distinct. -/
theorem nodup_append_absent {l : List (K × V)} {k : K} (v : V) (hnd : (l.map Prod.fst).Nodup)
    (hk : k ∉ l.map Prod.fst) : ((l ++ [(k, v)]).map Prod.fst).Nodup := by
  rw [List.map_append, List.map_singleton, List.nodup_append]
  refine ⟨hnd, List.nodup_singleton _, ?_⟩
  intro a ha b hb hab
  rw [List.mem_singleton] at hb
  rw [hab, hb] at ha
  exact hk ha

variable [DecidableEq K]

/-- `vec_map::empty`. -/
def empty : VecMap K V := ⟨[], List.nodup_nil⟩

/-- `vec_map::contains`: some entry has the key. -/
def contains (m : VecMap K V) (k : K) : Bool := m.contents.any fun e => decide (e.1 = k)

/-- `vec_map::get`: the value of the entry of the key; `EKeyDoesNotExist` is `none`. -/
def get (m : VecMap K V) (k : K) : Option V :=
  (m.contents.find? fun e => decide (e.1 = k)).map Prod.snd

/-- `vec_map::size`. -/
def size (m : VecMap K V) : Nat := m.contents.length

theorem contains_iff {m : VecMap K V} {k : K} : m.contains k = true ↔ k ∈ m.contents.map Prod.fst := by
  simp [contains, List.any_eq_true]

/-- `vec_map::insert`: `EKeyAlreadyExists` is `none`. -/
def insert (m : VecMap K V) (k : K) (v : V) : Option (VecMap K V) :=
  if h : m.contains k then none
  else some ⟨m.contents ++ [(k, v)], nodup_append_absent v m.nodup (mt contains_iff.mpr h)⟩

/-- An insertion of a new key appends its entry. -/
theorem insert_eq_some {m : VecMap K V} {k : K} (v : V) (hk : k ∉ m.contents.map Prod.fst) :
    ∃ m', m.insert k v = some m' ∧ m'.contents = m.contents ++ [(k, v)] := by
  have hc : ¬m.contains k = true := mt contains_iff.mp hk
  exact ⟨_, by rw [insert, dif_neg hc], rfl⟩

/-- `vec_map::keys`. -/
def keys (m : VecMap K V) : List K := m.contents.map Prod.fst

/-- `vec_map::remove`: the value of the key and the map without its entry;
    `EKeyDoesNotExist` is `none`. -/
def remove (m : VecMap K V) (k : K) : Option (V × VecMap K V) :=
  (m.get k).map fun v =>
    (v, ⟨m.contents.filter (fun e => decide (e.1 ≠ k)), m.nodup.sublist ((List.filter_sublist).map _)⟩)

/-- Rewriting the values of one key keeps the keys. -/
theorem map_fst_map_update (l : List (K × V)) (k : K) (f : V → V) :
    (l.map fun e => if e.1 = k then (e.1, f e.2) else e).map Prod.fst = l.map Prod.fst := by
  rw [List.map_map]
  apply List.map_congr_left
  intro e _
  by_cases h : e.1 = k <;> simp [h]

/-- `vec_map::get_mut` and a write through it: `EKeyDoesNotExist` is `none`. -/
def modify (m : VecMap K V) (k : K) (f : V → V) : Option (VecMap K V) :=
  if m.contains k then
    some ⟨m.contents.map fun e => if e.1 = k then (e.1, f e.2) else e,
      (map_fst_map_update m.contents k f).symm ▸ m.nodup⟩
  else none

/-- A lookup finds the entry of its key, the only one. -/
theorem get_eq_some {m : VecMap K V} {k : K} {v : V} (h : (k, v) ∈ m.contents) : m.get k = some v := by
  obtain ⟨m, hnd⟩ := m
  unfold get
  simp only
  induction m with
  | nil => cases h
  | cons e m ih =>
    rw [List.map_cons, List.nodup_cons] at hnd
    rcases List.mem_cons.mp h with rfl | hm
    · simp
    · have hne : e.1 ≠ k := fun hek => hnd.1 (hek ▸ List.mem_map_of_mem hm)
      rw [List.find?_cons_of_neg (by simpa using hne)]
      exact ih hnd.2 hm


/-! ## What each call leaves

The keys and the number of entries after an insertion or a removal, for the
callers that count entries or ask which keys are there. -/

omit [DecidableEq K] in
/-- Two maps with the same entries are the same map. -/
theorem ext {m m' : VecMap K V} (h : m.contents = m'.contents) : m = m' := by
  cases m
  cases m'
  cases h
  rfl

omit [DecidableEq K] in
theorem mem_keys {m : VecMap K V} {k : K} : k ∈ m.keys ↔ ∃ v, (k, v) ∈ m.contents := by
  simp [keys]

/-- A lookup finds a value exactly when the map holds its entry. -/
theorem get_eq_some_iff {m : VecMap K V} {k : K} {v : V} : m.get k = some v ↔ (k, v) ∈ m.contents := by
  refine ⟨fun h => ?_, get_eq_some⟩
  unfold get at h
  obtain ⟨⟨k', v'⟩, he, hv⟩ := Option.map_eq_some_iff.mp h
  have hk : decide ((k', v').1 = k) = true := @List.find?_some _ (fun e : K × V => decide (e.1 = k)) _ _ he
  rw [← of_decide_eq_true hk, ← hv]
  exact List.mem_of_find?_eq_some he

theorem get_eq_none_iff {m : VecMap K V} {k : K} : m.get k = none ↔ k ∉ m.keys := by
  unfold get keys
  simp only [Option.map_eq_none_iff, List.find?_eq_none, decide_eq_true_eq, List.mem_map]
  constructor
  · rintro h ⟨⟨k', v⟩, hm, rfl⟩
    exact h _ hm rfl
  · exact fun h e hm hek => h ⟨e, hm, hek⟩

theorem insert_eq_some_iff {m m' : VecMap K V} {k : K} {v : V} :
    m.insert k v = some m' ↔ k ∉ m.keys ∧ m'.contents = m.contents ++ [(k, v)] := by
  unfold insert
  by_cases h : m.contains k = true
  · rw [dif_pos h]
    simp only [reduceCtorEq, false_iff, not_and]
    exact fun hk => absurd (contains_iff.mp h) hk
  · rw [dif_neg h, Option.some.injEq]
    constructor
    · rintro rfl
      exact ⟨mt contains_iff.mpr h, rfl⟩
    · rintro ⟨-, hc⟩
      exact ext hc.symm

theorem insert_eq_none_iff {m : VecMap K V} {k : K} {v : V} : m.insert k v = none ↔ k ∈ m.keys := by
  unfold insert
  by_cases h : m.contains k = true
  · rw [dif_pos h]
    exact iff_of_true rfl (contains_iff.mp h)
  · rw [dif_neg h]
    exact iff_of_false (by simp) (mt contains_iff.mpr h)

theorem mem_keys_of_insert {m m' : VecMap K V} {k : K} {v : V} (h : m.insert k v = some m') {k' : K} :
    k' ∈ m'.keys ↔ k' ∈ m.keys ∨ k' = k := by
  unfold keys
  rw [(insert_eq_some_iff.mp h).2, List.map_append, List.mem_append, List.map_singleton, List.mem_singleton]

theorem size_of_insert {m m' : VecMap K V} {k : K} {v : V} (h : m.insert k v = some m') :
    m'.size = m.size + 1 := by
  unfold size
  rw [(insert_eq_some_iff.mp h).2, List.length_append, List.length_singleton]

theorem remove_eq_some_iff {m m' : VecMap K V} {k : K} {v : V} :
    m.remove k = some (v, m') ↔ (k, v) ∈ m.contents ∧ m'.contents = m.contents.filter fun e => decide (e.1 ≠ k) := by
  unfold remove
  rw [Option.map_eq_some_iff]
  constructor
  · rintro ⟨v', hv', hr⟩
    obtain ⟨rfl, rfl⟩ := Prod.mk.inj hr
    exact ⟨get_eq_some_iff.mp hv', rfl⟩
  · rintro ⟨hv, hc⟩
    exact ⟨v, get_eq_some hv, Prod.ext rfl (ext hc.symm)⟩

/-- A key of the map can be removed, and the removal returns its value. -/
theorem remove_of_mem {m : VecMap K V} {k : K} {v : V} (h : (k, v) ∈ m.contents) :
    ∃ m', m.remove k = some (v, m') :=
  ⟨_, by rw [remove, get_eq_some h]; rfl⟩

theorem mem_contents_of_insert {m m' : VecMap K V} {k : K} {v : V} (h : m.insert k v = some m')
    {e : K × V} (he : e ∈ m.contents) : e ∈ m'.contents := by
  rw [(insert_eq_some_iff.mp h).2]
  exact List.mem_append_left _ he

theorem mem_contents_of_remove {m m' : VecMap K V} {k : K} {v : V} (h : m.remove k = some (v, m'))
    {e : K × V} (he : e ∈ m.contents) (hne : e.1 ≠ k) : e ∈ m'.contents := by
  rw [(remove_eq_some_iff.mp h).2]
  exact List.mem_filter.mpr ⟨he, decide_eq_true hne⟩

/-- Removing the key just inserted gives back its value and the map before. -/
theorem remove_insert {m m' : VecMap K V} {k : K} {v : V} (h : m.insert k v = some m') :
    m'.remove k = some (v, m) := by
  obtain ⟨hk, hc⟩ := insert_eq_some_iff.mp h
  refine remove_eq_some_iff.mpr ⟨by rw [hc]; exact List.mem_append_right _ (List.mem_singleton_self _), ?_⟩
  -- every entry before has another key
  have hne : ∀ e ∈ m.contents, e.1 ≠ k := fun e he heq => hk (heq ▸ mem_keys.mpr ⟨e.2, he⟩)
  rw [hc, List.filter_append, List.filter_eq_self.mpr fun e he => decide_eq_true (hne e he)]
  simp

theorem get_of_insert {m m' : VecMap K V} {k : K} {v : V} (h : m.insert k v = some m') (k' : K) :
    m'.get k' = if k' = k then some v else m.get k' := by
  obtain ⟨hk, hc⟩ := insert_eq_some_iff.mp h
  apply Option.ext
  intro v'
  rw [get_eq_some_iff, hc, List.mem_append, List.mem_singleton]
  by_cases hkk : k' = k
  · subst hkk
    -- the key was not there before
    have hnot : (k', v') ∉ m.contents := fun hm => hk (mem_keys.mpr ⟨v', hm⟩)
    simp [hnot, eq_comm]
  · rw [if_neg hkk, get_eq_some_iff]
    simp [hkk]

theorem get_of_remove {m m' : VecMap K V} {k : K} {v : V} (h : m.remove k = some (v, m')) (k' : K) :
    m'.get k' = if k' = k then none else m.get k' := by
  obtain ⟨-, hc⟩ := remove_eq_some_iff.mp h
  apply Option.ext
  intro v'
  rw [get_eq_some_iff, hc, List.mem_filter]
  by_cases hkk : k' = k
  · simp [hkk]
  · rw [if_neg hkk, get_eq_some_iff]
    simp [hkk]

theorem remove_eq_none_iff {m : VecMap K V} {k : K} : m.remove k = none ↔ k ∉ m.keys := by
  unfold remove
  rw [Option.map_eq_none_iff, get_eq_none_iff]

theorem mem_keys_of_remove {m m' : VecMap K V} {k : K} {v : V} (h : m.remove k = some (v, m')) {k' : K} :
    k' ∈ m'.keys ↔ k' ∈ m.keys ∧ k' ≠ k := by
  rw [mem_keys, mem_keys, (remove_eq_some_iff.mp h).2]
  simp only [List.mem_filter, decide_eq_true_eq]
  exact ⟨fun ⟨v', hm, hne⟩ => ⟨⟨v', hm⟩, hne⟩, fun ⟨⟨v', hm⟩, hne⟩ => ⟨v', hm, hne⟩⟩

/-- A removal takes out the one entry of its key. -/
theorem size_of_remove {m m' : VecMap K V} {k : K} {v : V} (h : m.remove k = some (v, m')) :
    m'.size + 1 = m.size := by
  obtain ⟨hmem, hc⟩ := remove_eq_some_iff.mp h
  -- the entries of key `k` are as many as the occurrences of `k` among the keys: one
  have hone : m.contents.countP (fun e => decide (e.1 = k)) = 1 := by
    have hcount : m.keys.count k = 1 := List.count_eq_one_of_mem m.nodup (mem_keys.mpr ⟨v, hmem⟩)
    rw [keys, List.count_eq_countP, List.countP_map] at hcount
    rw [← hcount]
    exact List.countP_congr fun e _ => by rw [Function.comp_apply, beq_iff_eq, decide_eq_true_eq]
  have hsplit : m.contents.length = _ := List.length_eq_countP_add_countP fun e : K × V => decide (e.1 = k)
  have hne : m.contents.countP (fun e => decide (e.1 ≠ k)) =
      m.contents.countP (fun e => decide ¬decide (e.1 = k) = true) :=
    List.countP_congr fun e _ => by simp only [ne_eq, decide_eq_true_eq]
  unfold size
  rw [hc, ← List.countP_eq_length_filter, hne]
  omega


/-! ## Writes through `get_mut` -/

theorem modify_eq_some_iff {m m' : VecMap K V} {k : K} {f : V → V} :
    m.modify k f = some m' ↔ k ∈ m.keys ∧ m'.contents = m.contents.map fun e => if e.1 = k then (e.1, f e.2) else e := by
  unfold modify
  by_cases h : m.contains k = true
  · rw [if_pos h, Option.some.injEq]
    constructor
    · rintro rfl
      exact ⟨contains_iff.mp h, rfl⟩
    · rintro ⟨-, hc⟩
      exact ext hc.symm
  · rw [if_neg h]
    exact iff_of_false (by simp) fun hm => h (contains_iff.mpr hm.1)

/-- A write keeps the keys. -/
theorem keys_of_modify {m m' : VecMap K V} {k : K} {f : V → V} (h : m.modify k f = some m') : m'.keys = m.keys := by
  unfold keys
  rw [(modify_eq_some_iff.mp h).2]
  exact map_fst_map_update m.contents k f

/-- A write changes the value of its key and no other. -/
theorem get_of_modify {m m' : VecMap K V} {k : K} {f : V → V} (h : m.modify k f = some m') (k' : K) :
    m'.get k' = if k' = k then (m.get k).map f else m.get k' := by
  cases hv : m.get k' with
  | none =>
    have hk' : k' ∉ m'.keys := by
      rw [keys_of_modify h]
      exact get_eq_none_iff.mp hv
    rw [get_eq_none_iff.mpr hk']
    split_ifs with hkk
    · rw [← hkk, hv]
      rfl
    · rfl
  | some v =>
    -- the entry of `k'` is rewritten in place
    have hmem : (k', if k' = k then f v else v) ∈ m'.contents := by
      rw [(modify_eq_some_iff.mp h).2, List.mem_map]
      exact ⟨(k', v), get_eq_some_iff.mp hv, by split_ifs <;> rfl⟩
    rw [get_eq_some hmem]
    split_ifs with hkk
    · rw [← hkk, hv]
      rfl
    · rfl

end VecMap

end Mango.Lib
