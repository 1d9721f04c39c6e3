/-
  Mango.Framework.LinkedTable

  `mgo::linked_table` (`mgo-framework/sources/linked_table.move`): a table
  whose entries are dynamic fields of its object, each a `Node` with the keys
  before and after it, while the table holds its first and last keys and the
  number of entries.

  The dynamic fields under the table's `UID` are a function from keys to the
  node stored there: `dynamic_field::add` aborts when the key is there,
  `borrow_mut` and `remove` when it is not, and nothing but this module
  stores fields under the table. `size` is a `u64`, so its `+ 1` and `- 1`
  abort out of range, and `option::borrow` aborts on `none`. A call that aborts
  is reverted with its transaction: a run keeps the table as it was.

  What the table is for is the list of its entries (`Entries`), with the same
  calls on a plain list: `cons`, append, the removal of a key, and the first and
  last entry taken off; each is undefined where the table's call aborts.
  `Represents` relates the two: the keys are distinct, every node holds the key
  before it and the key after it in the list and the value, `head` and `tail`
  are the first and last keys, and `size` is the length. Every call keeps the
  relation, returns what the list call returns and aborts exactly when the list
  call is undefined (`Represents.step_ok`, `Represents.step_error`), so any run
  of calls leaves the table representing the list those calls make
  (`Represents.run`). Walking `next` from `head` then reads the keys in order,
  and walking `prev` from `tail` reads them backwards (`Represents.walk_next`,
  `Represents.walk_prev`).
-/
import Mathlib
import Mango.Core.Object
import Mango.Lib.Except

namespace Mango.Framework

open Mango.Core Mango.Lib

namespace LinkedTable

/-- `Node`: the key before, the key after, and the value. -/
structure Node (K V : Type _) where
  prev : Option K
  next : Option K
  value : V

/-- The aborts of the modelled calls. -/
inductive Abort where
  /-- `dynamic_field::EFieldAlreadyExists`. -/
  | fieldAlreadyExists
  /-- `dynamic_field::EFieldDoesNotExist`. -/
  | fieldDoesNotExist
  /-- `ETableIsEmpty`. -/
  | tableIsEmpty
  /-- `option::EOPTION_NOT_SET`, from `option::borrow` on `none`. -/
  | optionNotSet
  /-- A `u64` addition or subtraction out of range. -/
  | arithmeticError
  deriving DecidableEq, Repr

end LinkedTable

open LinkedTable

/-- `LinkedTable`, with the dynamic fields stored under its `id`. -/
structure LinkedTable (K V : Type _) where
  size : Nat
  head : Option K
  tail : Option K
  fields : K → Option (Node K V)

namespace LinkedTable

variable {K V : Type _} [DecidableEq K]

/-! ## Dynamic fields and `u64` arithmetic -/

/-- `dynamic_field::add`. -/
def fieldAdd (fields : K → Option (Node K V)) (k : K) (node : Node K V) :
    Except Abort (K → Option (Node K V)) :=
  match fields k with
  | some _ => throw .fieldAlreadyExists
  | none => pure (Function.update fields k (some node))

/-- `dynamic_field::borrow_mut`, with what the caller writes through it. -/
def fieldBorrowMut (fields : K → Option (Node K V)) (k : K) (write : Node K V → Node K V) :
    Except Abort (K → Option (Node K V)) :=
  match fields k with
  | some node => pure (Function.update fields k (some (write node)))
  | none => throw .fieldDoesNotExist

/-- `dynamic_field::remove`: the node and the fields without it. -/
def fieldRemove (fields : K → Option (Node K V)) (k : K) :
    Except Abort (Node K V × (K → Option (Node K V))) :=
  match fields k with
  | some node => pure (node, Function.update fields k none)
  | none => throw .fieldDoesNotExist

/-- `option::borrow`. -/
def optionBorrow (o : Option K) : Except Abort K :=
  match o with
  | some k => pure k
  | none => throw .optionNotSet

/-- `+` on `u64`. -/
def u64Add (a b : Nat) : Except Abort Nat :=
  if u64Max < a + b then throw .arithmeticError else pure (a + b)

/-- `-` on `u64`. -/
def u64Sub (a b : Nat) : Except Abort Nat :=
  if a < b then throw .arithmeticError else pure (a - b)

/-! ## The calls -/

/-- `new`. -/
def new : LinkedTable K V := ⟨0, none, none, fun _ => none⟩

/-- `push_front`. -/
def pushFront (table : LinkedTable K V) (k : K) (value : V) : Except Abort (LinkedTable K V) := do
  -- `option::swap_or_fill(&mut table.head, k)` returns the old head
  let oldHead := table.head
  let tail := if table.tail.isNone then some k else table.tail
  let prev := none
  let (fields, next) ← match oldHead with
    | some oldHeadK => do
      let fields ← fieldBorrowMut table.fields oldHeadK fun node => { node with prev := some k }
      pure (fields, some oldHeadK)
    | none => pure (table.fields, none)
  let fields ← fieldAdd fields k ⟨prev, next, value⟩
  let size ← u64Add table.size 1
  pure ⟨size, some k, tail, fields⟩

/-- `push_back`. -/
def pushBack (table : LinkedTable K V) (k : K) (value : V) : Except Abort (LinkedTable K V) := do
  let head := if table.head.isNone then some k else table.head
  -- `option::swap_or_fill(&mut table.tail, k)` returns the old tail
  let oldTail := table.tail
  let (fields, prev) ← match oldTail with
    | some oldTailK => do
      let fields ← fieldBorrowMut table.fields oldTailK fun node => { node with next := some k }
      pure (fields, some oldTailK)
    | none => pure (table.fields, none)
  let next := none
  let fields ← fieldAdd fields k ⟨prev, next, value⟩
  let size ← u64Add table.size 1
  pure ⟨size, head, some k, fields⟩

/-- The two writes of `remove` that link the neighbours of the removed node:
    the `next` of the key before becomes the key after, and the `prev` of the
    key after becomes the key before. -/
def unlink (fields : K → Option (Node K V)) (prev next : Option K) : Except Abort (K → Option (Node K V)) := do
  let fields ← match prev with
    | some prevK => fieldBorrowMut fields prevK fun node => { node with next := next }
    | none => pure fields
  match next with
  | some nextK => fieldBorrowMut fields nextK fun node => { node with prev := prev }
  | none => pure fields

/-- `remove`: the node is taken out and its neighbours are linked to each other. -/
def remove (table : LinkedTable K V) (k : K) : Except Abort (LinkedTable K V × V) := do
  let (node, fields) ← fieldRemove table.fields k
  let size ← u64Sub table.size 1
  let fields ← unlink fields node.prev node.next
  -- `if (option::borrow(&table.head) == &k) table.head = next`, and the same for the tail
  let headK ← optionBorrow table.head
  let head := if headK = k then node.next else table.head
  let tailK ← optionBorrow table.tail
  let tail := if tailK = k then node.prev else table.tail
  pure (⟨size, head, tail, fields⟩, node.value)

/-- `pop_front`. -/
def popFront (table : LinkedTable K V) : Except Abort (LinkedTable K V × (K × V)) :=
  -- `assert!(option::is_some(&table.head), ETableIsEmpty)`, then the head is removed
  match table.head with
  | some head => (fun (table, value) => (table, (head, value))) <$> table.remove head
  | none => throw .tableIsEmpty

/-- `pop_back`. -/
def popBack (table : LinkedTable K V) : Except Abort (LinkedTable K V × (K × V)) :=
  match table.tail with
  | some tail => (fun (table, value) => (table, (tail, value))) <$> table.remove tail
  | none => throw .tableIsEmpty

/-- The calls that change a table. -/
inductive Op (K V : Type _) where
  | pushFront (k : K) (value : V)
  | pushBack (k : K) (value : V)
  | remove (k : K)
  | popFront
  | popBack

/-- One call, with the entry it takes out. -/
def step (table : LinkedTable K V) : Op K V → Except Abort (LinkedTable K V × Option (K × V))
  | .pushFront k value => (·, none) <$> table.pushFront k value
  | .pushBack k value => (·, none) <$> table.pushBack k value
  | .remove k => (fun (table, value) => (table, some (k, value))) <$> table.remove k
  | .popFront => (fun (table, entry) => (table, some entry)) <$> table.popFront
  | .popBack => (fun (table, entry) => (table, some entry)) <$> table.popBack

/-- Calls one after another, each in its own transaction: one that aborts
    leaves the table as it was. -/
def run (table : LinkedTable K V) (ops : List (Op K V)) : LinkedTable K V :=
  ops.foldl (fun table op => match table.step op with
    | .ok (table', _) => table'
    | .error _ => table) table

/-- The keys met walking the links `link` from `start`: none when a key has
    no node (the call `next` or `prev` aborts) or more than `fuel` keys. -/
def walk (fields : K → Option (Node K V)) (link : Node K V → Option K) : Nat → Option K → Option (List K)
  | _, none => some []
  | 0, some _ => none
  | fuel + 1, some k =>
    match fields k with
    | some node => (k :: ·) <$> walk fields link fuel (link node)
    | none => none

/-! ## The list of entries -/

namespace Entries

/-- `push_front` on the list: undefined for a key already there, or past `u64::MAX` entries. -/
def pushFront (l : List (K × V)) (k : K) (value : V) : Option (List (K × V)) :=
  if k ∈ l.map Prod.fst ∨ u64Max < l.length + 1 then none else some ((k, value) :: l)

/-- `push_back` on the list. -/
def pushBack (l : List (K × V)) (k : K) (value : V) : Option (List (K × V)) :=
  if k ∈ l.map Prod.fst ∨ u64Max < l.length + 1 then none else some (l ++ [(k, value)])

/-- `remove` on the list: the entry of the key deleted, and its value. -/
def remove (l : List (K × V)) (k : K) : Option (List (K × V) × V) :=
  (l.lookup k).map fun value => (l.filter (·.1 ≠ k), value)

/-- `pop_front` on the list. -/
def popFront : List (K × V) → Option (List (K × V) × (K × V))
  | [] => none
  | e :: l => some (l, e)

/-- `pop_back` on the list. -/
def popBack (l : List (K × V)) : Option (List (K × V) × (K × V)) :=
  l.getLast?.map fun e => (l.dropLast, e)

/-- One call on the list. -/
def step (l : List (K × V)) : Op K V → Option (List (K × V) × Option (K × V))
  | .pushFront k value => (·, none) <$> pushFront l k value
  | .pushBack k value => (·, none) <$> pushBack l k value
  | .remove k => (fun (l, value) => (l, some (k, value))) <$> remove l k
  | .popFront => (fun (l, entry) => (l, some entry)) <$> popFront l
  | .popBack => (fun (l, entry) => (l, some entry)) <$> popBack l

/-- Calls one after another, an undefined one skipped. -/
def run (l : List (K × V)) (ops : List (Op K V)) : List (K × V) :=
  ops.foldl (fun l op => match step l op with
    | some (l', _) => l'
    | none => l) l

end Entries

/-! ## What each primitive does -/

section Primitives

variable {fields fields' : K → Option (Node K V)} {k : K} {node : Node K V}

theorem fieldAdd_eq_ok :
    fieldAdd fields k node = .ok fields' ↔ fields k = none ∧ fields' = Function.update fields k (some node) := by
  unfold fieldAdd
  cases fields k with
  | some _ => simp
  | none => simp only [Except.pure_eq_ok, true_and]; exact eq_comm

theorem fieldBorrowMut_of_eq (h : fields k = some node) (write : Node K V → Node K V) :
    fieldBorrowMut fields k write = .ok (Function.update fields k (some (write node))) := by
  simp [fieldBorrowMut, h]

theorem fieldRemove_of_eq (h : fields k = some node) :
    fieldRemove fields k = .ok (node, Function.update fields k none) := by
  simp [fieldRemove, h]

theorem fieldRemove_of_eq_none (h : fields k = none) : fieldRemove fields k = throw .fieldDoesNotExist := by
  simp [fieldRemove, h]

theorem u64Add_eq_ok {a b c : Nat} : u64Add a b = .ok c ↔ a + b ≤ u64Max ∧ c = a + b := by
  unfold u64Add
  split
  · next h => simpa using fun hle => absurd h (Nat.not_lt.mpr hle)
  · next h => simp only [Except.pure_eq_ok, Nat.le_of_not_lt h, true_and]; exact eq_comm

theorem u64Sub_of_le {a b : Nat} (h : b ≤ a) : u64Sub a b = .ok (a - b) := by
  simp [u64Sub, Nat.not_lt.mpr h]

/-- What `unlink` writes, key by key, when the neighbours have nodes and
    are not the same key. -/
theorem unlink_eq {prev next : Option K} (hprev : ∀ p, prev = some p → (fields p).isSome)
    (hnext : ∀ n, next = some n → (fields n).isSome) (hne : ∀ p, prev = some p → next ≠ some p) :
    unlink fields prev next = .ok fun x =>
      if prev = some x then (fields x).map fun node => { node with next := next }
      else if next = some x then (fields x).map fun node => { node with prev := prev }
      else fields x := by
  cases prev with
  | none =>
    cases next with
    | none => simp [unlink]
    | some n =>
      obtain ⟨nn, hn⟩ := Option.isSome_iff_exists.mp (hnext n rfl)
      simp only [unlink, pure_bind, fieldBorrowMut_of_eq hn]
      congr 1
      funext x
      by_cases hx : n = x
      · subst hx
        simp [hn]
      · simp [hx, Function.update_of_ne (Ne.symm hx)]
  | some p =>
    obtain ⟨np, hp⟩ := Option.isSome_iff_exists.mp (hprev p rfl)
    cases next with
    | none =>
      simp only [unlink, fieldBorrowMut_of_eq hp, Except.ok_bind]
      congr 1
      funext x
      by_cases hx : p = x
      · subst hx
        simp [hp]
      · simp [hx, Function.update_of_ne (Ne.symm hx)]
    | some n =>
      have hpn : p ≠ n := fun hpn => hne p rfl (by rw [hpn])
      obtain ⟨nn, hn⟩ := Option.isSome_iff_exists.mp (hnext n rfl)
      have hn' : Function.update fields p (some { np with next := some n }) n = some nn := by
        rw [Function.update_of_ne (Ne.symm hpn), hn]
      simp only [unlink, fieldBorrowMut_of_eq hp, Except.ok_bind, fieldBorrowMut_of_eq hn']
      congr 1
      funext x
      by_cases hx : p = x
      · subst hx
        simp [hp, Function.update_of_ne hpn]
      · by_cases hx' : n = x
        · subst hx'
          simp [hx, hn]
        · simp [hx, hx', Function.update_of_ne (Ne.symm hx), Function.update_of_ne (Ne.symm hx')]

end Primitives

/-! ## The table represents the list of its entries -/

/-- The table holds the entries of the list: the keys are distinct, the node
    of each key holds the key before it, the key after it and its value, no
    other key has a node, `head` and `tail` are the first and last keys and
    `size` is the length. -/
structure Represents (table : LinkedTable K V) (l : List (K × V)) : Prop where
  nodup : (l.map Prod.fst).Nodup
  size : table.size = l.length
  head : table.head = l.head?.map Prod.fst
  tail : table.tail = l.getLast?.map Prod.fst
  node : ∀ before k value after, l = before ++ (k, value) :: after →
    table.fields k = some ⟨before.getLast?.map Prod.fst, after.head?.map Prod.fst, value⟩
  stored : ∀ k, (table.fields k).isSome → k ∈ l.map Prod.fst

omit [DecidableEq K] in
theorem represents_new : Represents (new : LinkedTable K V) [] where
  nodup := List.nodup_nil
  size := rfl
  head := rfl
  tail := rfl
  node := fun before k value after h => absurd h.symm (by simp)
  stored := fun k hk => by simp [new] at hk

namespace Represents

variable {table table' : LinkedTable K V} {l : List (K × V)}

omit [DecidableEq K] in
theorem fields_eq_none (h : Represents table l) {k : K} (hk : k ∉ l.map Prod.fst) : table.fields k = none :=
  Option.not_isSome_iff_eq_none.mp fun hs => hk (h.stored k hs)

omit [DecidableEq K] in
theorem fields_isSome (h : Represents table l) {k : K} (hk : k ∈ l.map Prod.fst) : (table.fields k).isSome := by
  obtain ⟨⟨k', value⟩, he, rfl⟩ := List.mem_map.mp hk
  obtain ⟨before, after, hl⟩ := List.append_of_mem he
  rw [h.node before k' value after hl]
  rfl

/-- **`push_front` on a table keeps it representing its entries**, with the
    new entry first; it succeeds exactly when the list call is defined. -/
theorem pushFront (h : Represents table l) {k : K} {value : V} (hok : table.pushFront k value = .ok table') :
    Entries.pushFront l k value = some ((k, value) :: l) ∧ Represents table' ((k, value) :: l) := by
  cases l with
  | nil =>
    -- the empty table: the new node is first and last
    have hhead : table.head = none := h.head
    have htail : table.tail = none := h.tail
    simp only [LinkedTable.pushFront, hhead, pure_bind] at hok
    obtain ⟨fields, hadd, hok⟩ := Except.bind_eq_ok.mp hok
    obtain ⟨size, hsize, hok⟩ := Except.bind_eq_ok.mp hok
    obtain ⟨-, rfl⟩ := fieldAdd_eq_ok.mp hadd
    obtain ⟨hbound, rfl⟩ := u64Add_eq_ok.mp hsize
    rw [Except.pure_eq_ok, htail] at hok
    subst hok
    have hsize0 : table.size = 0 := h.size
    have hone : 1 ≤ u64Max := by simpa [hsize0] using hbound
    refine ⟨by simp [Entries.pushFront]; omega, ⟨by simp, by simp [hsize0], rfl, rfl, ?_, ?_⟩⟩
    · intro before k' value' after hsplit
      cases before with
      | nil =>
        obtain ⟨⟨rfl, rfl⟩, rfl⟩ : (k = k' ∧ value = value') ∧ after = [] := by
          simpa using hsplit
        simp
      | cons b before => simp at hsplit
    · intro k' hk'
      by_cases hk : k' = k
      · simp [hk]
      · simp [Function.update_of_ne hk, h.fields_eq_none (List.not_mem_nil (a := k'))] at hk'
  | cons e l =>
    obtain ⟨k₀, v₀⟩ := e
    have hhead : table.head = some k₀ := h.head
    have hnode₀ := h.node [] k₀ v₀ l rfl
    simp only [LinkedTable.pushFront, hhead, fieldBorrowMut_of_eq hnode₀, Except.ok_bind, pure_bind] at hok
    obtain ⟨fields, hadd, hok⟩ := Except.bind_eq_ok.mp hok
    obtain ⟨size, hsize, hok⟩ := Except.bind_eq_ok.mp hok
    obtain ⟨hfree, rfl⟩ := fieldAdd_eq_ok.mp hadd
    obtain ⟨hbound, rfl⟩ := u64Add_eq_ok.mp hsize
    -- the new key is not the old head, and has no node
    have hk₀ : k ≠ k₀ := by
      rintro rfl
      simp at hfree
    have hk : k ∉ ((k₀, v₀) :: l).map Prod.fst := by
      intro hk
      have := h.fields_isSome hk
      rw [Function.update_of_ne hk₀] at hfree
      simp [hfree] at this
    have htail : table.tail.isNone = false := by
      simp [h.tail]
    simp only [htail, Bool.false_eq_true, ↓reduceIte, Except.pure_eq_ok] at hok
    subst hok
    have hlen : table.size = l.length + 1 := h.size
    refine ⟨?_, ⟨List.nodup_cons.mpr ⟨hk, h.nodup⟩, by simp [hlen], rfl, ?_, ?_, ?_⟩⟩
    · have hb : ¬ u64Max < ((k₀, v₀) :: l).length + 1 := by
        simp only [List.length_cons]
        omega
      rw [Entries.pushFront, if_neg (not_or.mpr ⟨hk, hb⟩)]
    · simpa using h.tail
    · intro before k' value' after hsplit
      cases before with
      | nil =>
        -- the new node, before the old head
        obtain ⟨⟨rfl, rfl⟩, rfl⟩ : (k = k' ∧ value = value') ∧ (k₀, v₀) :: l = after := by
          simpa using hsplit
        simp
      | cons b before =>
        simp only [List.cons_append, List.cons.injEq] at hsplit
        obtain ⟨rfl, hsplit⟩ := hsplit
        have hk' : k' ≠ k := by
          rintro rfl
          exact hk (by rw [hsplit]; simp)
        simp only [Function.update_of_ne hk']
        cases before with
        | nil =>
          -- the old head, whose `prev` is now the new key
          obtain ⟨⟨rfl, rfl⟩, rfl⟩ : (k₀ = k' ∧ v₀ = value') ∧ l = after := by
            simpa using hsplit
          simp
        | cons c before =>
          simp only [List.cons_append, List.cons.injEq] at hsplit
          obtain ⟨rfl, hl⟩ := hsplit
          have hne : k' ≠ k₀ := by
            rintro rfl
            have hnd := h.nodup
            simp [hl] at hnd
          rw [Function.update_of_ne hne, h.node ((k₀, v₀) :: before) k' value' after (by rw [hl]; rfl)]
          simp
    · intro k' hk'
      by_cases hkk : k' = k
      · simp [hkk]
      · by_cases hkk₀ : k' = k₀
        · simp [hkk₀]
        · simp only [Function.update_of_ne hkk, Function.update_of_ne hkk₀] at hk'
          exact List.mem_cons_of_mem _ (h.stored k' hk')

/-- `push_front` of a key the list does not hold, below `u64::MAX` entries,
    succeeds. -/
theorem pushFront_isOk (h : Represents table l) {k : K} (hk : k ∉ l.map Prod.fst)
    (hb : l.length + 1 ≤ u64Max) (value : V) : ∃ table', table.pushFront k value = .ok table' := by
  have hfree := h.fields_eq_none hk
  have hsize : ¬ u64Max < table.size + 1 := by
    rw [h.size]
    omega
  cases l with
  | nil =>
    have hhead : table.head = none := h.head
    simp [LinkedTable.pushFront, hhead, fieldAdd, hfree, u64Add, hsize]
  | cons e l =>
    obtain ⟨k₀, v₀⟩ := e
    have hhead : table.head = some k₀ := h.head
    have hk₀ : k ≠ k₀ := by
      rintro rfl
      exact hk List.mem_cons_self
    simp [LinkedTable.pushFront, hhead, fieldBorrowMut_of_eq (h.node [] k₀ v₀ l rfl), Except.ok_bind, fieldAdd,
      Function.update_of_ne hk₀, hfree, u64Add, hsize]

/-- `push_front` aborts only where the list call is undefined. -/
theorem pushFront_error (h : Represents table l) {k : K} {value : V} {e : Abort}
    (herr : table.pushFront k value = .error e) : Entries.pushFront l k value = none := by
  rw [Entries.pushFront, if_pos]
  by_contra hcond
  obtain ⟨hk, hb⟩ := not_or.mp hcond
  obtain ⟨table', hok⟩ := h.pushFront_isOk hk (Nat.le_of_not_lt hb) value
  rw [herr] at hok
  cases hok

end Represents

/-! ## The table read backwards -/

/-- A node read backwards. -/
def Node.flip (node : Node K V) : Node K V := ⟨node.next, node.prev, node.value⟩

/-- The table read backwards: `prev` and `next`, and `head` and `tail`, exchanged. -/
def flip (table : LinkedTable K V) : LinkedTable K V :=
  ⟨table.size, table.tail, table.head, fun k => (table.fields k).map Node.flip⟩

omit [DecidableEq K] in
@[simp] theorem Node.flip_flip (node : Node K V) : node.flip.flip = node := rfl

omit [DecidableEq K] in
@[simp] theorem flip_flip (table : LinkedTable K V) : table.flip.flip = table := by
  simp [flip, Option.map_map, Function.comp_def]

omit [DecidableEq K] in
@[simp] theorem flip_fields (table : LinkedTable K V) (k : K) :
    table.flip.fields k = (table.fields k).map Node.flip := rfl

omit [DecidableEq K] in
@[simp] theorem flip_head (table : LinkedTable K V) : table.flip.head = table.tail := rfl

omit [DecidableEq K] in
@[simp] theorem flip_tail (table : LinkedTable K V) : table.flip.tail = table.head := rfl

theorem map_flip_update (f : K → Option (Node K V)) (k : K) (v : Option (Node K V)) :
    (fun x => (Function.update f k v x).map Node.flip) =
      Function.update (fun x => (f x).map Node.flip) k (v.map Node.flip) := by
  funext x
  by_cases hx : x = k
  · subst hx
    simp
  · simp [Function.update_of_ne hx]

/-- **`push_back` is `push_front` on the table read backwards.** -/
theorem pushBack_eq_flip (table : LinkedTable K V) (k : K) (value : V) :
    table.pushBack k value = flip <$> table.flip.pushFront k value := by
  rcases htail : table.tail with _ | t₀
  · cases hk : table.fields k <;>
      simp [LinkedTable.pushBack, LinkedTable.pushFront, flip, htail, fieldAdd, hk, u64Add, map_flip_update,
        Function.comp_def, Node.flip]
  · cases h₀ : table.fields t₀ with
    | none => simp [LinkedTable.pushBack, LinkedTable.pushFront, flip, htail, fieldBorrowMut, h₀]
    | some n₀ =>
      by_cases hkt : k = t₀
      · subst hkt
        simp [LinkedTable.pushBack, LinkedTable.pushFront, flip, htail, fieldBorrowMut, h₀, fieldAdd]
      · cases hk : table.fields k <;>
          simp [LinkedTable.pushBack, LinkedTable.pushFront, flip, htail, fieldBorrowMut, h₀, fieldAdd, hk,
            Function.update_of_ne hkt, u64Add, map_flip_update, Function.comp_def, Node.flip]

/-- `push_back` on the list is `push_front` on the reversed list. -/
theorem Entries.pushBack_eq (l : List (K × V)) (k : K) (value : V) :
    Entries.pushBack l k value = List.reverse <$> Entries.pushFront l.reverse k value := by
  simp only [Entries.pushBack, Entries.pushFront, List.map_reverse, List.mem_reverse, List.length_reverse]
  split <;> simp

omit [DecidableEq K] in
/-- Walking `next` in the flipped table is walking `prev` in the table. -/
theorem walk_flip (fields : K → Option (Node K V)) (fuel : Nat) (start : Option K) :
    walk (fun k => (fields k).map Node.flip) Node.next fuel start = walk fields Node.prev fuel start := by
  induction fuel generalizing start with
  | zero => cases start <;> rfl
  | succ fuel ih =>
    cases start with
    | none => rfl
    | some k => cases hk : fields k <;> simp [walk, hk, Node.flip, ih]

namespace Represents

variable {table table' : LinkedTable K V} {l : List (K × V)}

omit [DecidableEq K] in
/-- The table read backwards represents the list reversed. -/
theorem flip (h : Represents table l) : Represents table.flip l.reverse where
  nodup := by
    rw [List.map_reverse]
    exact List.nodup_reverse.mpr h.nodup
  size := by simp [LinkedTable.flip, h.size]
  head := by simp [LinkedTable.flip, h.tail, List.head?_reverse]
  tail := by simp [LinkedTable.flip, h.head, List.getLast?_reverse]
  node := by
    intro before k value after hsplit
    have hl : l = after.reverse ++ (k, value) :: before.reverse := by
      rw [← List.reverse_reverse l, hsplit]
      simp
    simp [LinkedTable.flip, h.node _ _ _ _ hl, Node.flip, List.head?_reverse, List.getLast?_reverse]
  stored := by
    intro k hk
    simpa using h.stored k (by simpa [LinkedTable.flip] using hk)

/-- **`push_back` on a table keeps it representing its entries**, with the
    new entry last: `push_front` on the table read backwards. -/
theorem pushBack (h : Represents table l) {k : K} {value : V} (hok : table.pushBack k value = .ok table') :
    Entries.pushBack l k value = some (l ++ [(k, value)]) ∧ Represents table' (l ++ [(k, value)]) := by
  rw [pushBack_eq_flip] at hok
  obtain ⟨flipped, hflipped, rfl⟩ := Except.map_eq_ok.mp hok
  obtain ⟨hentries, hrep⟩ := h.flip.pushFront hflipped
  refine ⟨by simp [Entries.pushBack_eq, hentries], ?_⟩
  simpa using hrep.flip

/-- `push_back` aborts only where the list call is undefined. -/
theorem pushBack_error (h : Represents table l) {k : K} {value : V} {e : Abort}
    (herr : table.pushBack k value = .error e) : Entries.pushBack l k value = none := by
  rw [pushBack_eq_flip] at herr
  cases hflipped : table.flip.pushFront k value with
  | error e' =>
    simp [Entries.pushBack_eq, h.flip.pushFront_error hflipped]
  | ok flipped =>
    rw [hflipped] at herr
    cases herr

omit [DecidableEq K] in
/-- The keys of a list split at one key: it is in neither part, and the parts
    share no key. -/
theorem nodup_split {A B : List (K × V)} {k : K} {v : V} (hnd : ((A ++ (k, v) :: B).map Prod.fst).Nodup) :
    k ∉ A.map Prod.fst ∧ k ∉ B.map Prod.fst ∧ ∀ x ∈ A.map Prod.fst, x ∉ B.map Prod.fst := by
  simp only [List.map_append, List.map_cons, List.nodup_append, List.nodup_cons] at hnd
  obtain ⟨-, ⟨hkB, -⟩, hdisj⟩ := hnd
  exact ⟨fun hk => hdisj k hk k List.mem_cons_self rfl, hkB,
    fun x hx hxB => hdisj x hx x (List.mem_cons_of_mem _ hxB) rfl⟩

omit [DecidableEq K] in
theorem mem_keys_of_getLast? {A : List (K × V)} {p : K} (h : A.getLast?.map Prod.fst = some p) :
    p ∈ A.map Prod.fst := by
  obtain ⟨e, he, rfl⟩ := Option.map_eq_some_iff.mp h
  exact List.mem_map_of_mem (List.mem_of_getLast? he)

omit [DecidableEq K] in
theorem mem_keys_of_head? {B : List (K × V)} {n : K} (h : B.head?.map Prod.fst = some n) :
    n ∈ B.map Prod.fst := by
  obtain ⟨e, he, rfl⟩ := Option.map_eq_some_iff.mp h
  exact List.mem_map_of_mem (List.mem_of_mem_head? he)

/-- **What `remove` computes** on the key at one place of the list: the node
    taken out, the key before and the key after linked to each other, and
    `head` and `tail` moved off the key. -/
theorem remove_eq (h : Represents table l) {A B : List (K × V)} {k : K} {v : V} (hl : l = A ++ (k, v) :: B) :
    ∃ headK tailK, table.head = some headK ∧ table.tail = some tailK ∧
      table.remove k = .ok (⟨table.size - 1,
        if headK = k then B.head?.map Prod.fst else table.head,
        if tailK = k then A.getLast?.map Prod.fst else table.tail,
        fun x =>
          if A.getLast?.map Prod.fst = some x then
            (Function.update table.fields k none x).map fun node => { node with next := B.head?.map Prod.fst }
          else if B.head?.map Prod.fst = some x then
            (Function.update table.fields k none x).map fun node => { node with prev := A.getLast?.map Prod.fst }
          else Function.update table.fields k none x⟩, v) := by
  obtain ⟨hkA, hkB, hAB⟩ := nodup_split (hl ▸ h.nodup)
  have hnode := h.node A k v B hl
  obtain ⟨headK, hhead⟩ : ∃ headK, table.head = some headK := by
    rw [h.head, hl]
    cases A <;> simp
  obtain ⟨tailK, htail⟩ : ∃ tailK, table.tail = some tailK := by
    rw [h.tail, hl, List.getLast?_append_of_ne_nil _ (List.cons_ne_nil _ _),
      List.getLast?_eq_some_getLast (List.cons_ne_nil _ _)]
    exact ⟨_, rfl⟩
  have hsize : 1 ≤ table.size := by
    rw [h.size, hl]
    simp only [List.length_append, List.length_cons]
    omega
  -- the neighbours have nodes and are different keys
  have hkeys : ∀ x ∈ A.map Prod.fst ++ B.map Prod.fst, (Function.update table.fields k none x).isSome := by
    intro x hx
    have hxk : x ≠ k := by
      rintro rfl
      rcases List.mem_append.mp hx with hx | hx
      · exact hkA hx
      · exact hkB hx
    rw [Function.update_of_ne hxk]
    apply h.fields_isSome
    rw [hl]
    simp only [List.map_append, List.map_cons, List.mem_append, List.mem_cons] at hx ⊢
    rcases hx with hx | hx
    · exact .inl hx
    · exact .inr (.inr hx)
  have hunlink : unlink (Function.update table.fields k none) (A.getLast?.map Prod.fst) (B.head?.map Prod.fst) = _ :=
    unlink_eq (fun p hp => hkeys p (List.mem_append_left _ (mem_keys_of_getLast? hp)))
    (fun n hn => hkeys n (List.mem_append_right _ (mem_keys_of_head? hn)))
    (fun p hp hn => hAB p (mem_keys_of_getLast? hp) (mem_keys_of_head? hn))
  refine ⟨headK, tailK, hhead, htail, ?_⟩
  simp only [LinkedTable.remove, fieldRemove_of_eq hnode, Except.ok_bind, u64Sub_of_le hsize, hunlink, hhead,
    htail, optionBorrow, pure_bind]
  rfl

/-- Deleting a key a list does not hold leaves it as it is. -/
theorem filter_ne_of_not_mem {A : List (K × V)} {k : K} (hk : k ∉ A.map Prod.fst) : A.filter (·.1 ≠ k) = A :=
  List.filter_eq_self.mpr fun _ he => decide_eq_true fun hek => hk (hek ▸ List.mem_map_of_mem he)

/-- A list does not find a key it does not hold. -/
theorem lookup_of_not_mem {A : List (K × V)} {k : K} (hk : k ∉ A.map Prod.fst) : A.lookup k = none :=
  List.lookup_eq_none_iff.mpr fun _ hp => bne_iff_ne.mpr fun hkp => hk (hkp ▸ List.mem_map_of_mem hp)

omit [DecidableEq K] in
/-- A key with a node sits at one place of the list. -/
theorem split_of_isSome (h : Represents table l) {k : K} (hk : (table.fields k).isSome) :
    ∃ A v B, l = A ++ (k, v) :: B := by
  obtain ⟨⟨k', v⟩, he, rfl⟩ := List.mem_map.mp (h.stored k hk)
  obtain ⟨A, B, hl⟩ := List.append_of_mem he
  exact ⟨A, v, B, hl⟩

/-- **`remove` on a table keeps it representing its entries**, with the
    entry of the key deleted, and returns that entry's value. -/
theorem remove (h : Represents table l) {k : K} {value : V} (hok : table.remove k = .ok (table', value)) :
    Entries.remove l k = some (l.filter (·.1 ≠ k), value) ∧ Represents table' (l.filter (·.1 ≠ k)) := by
  -- the key has a node, so it sits at one place of the list
  have hk : (table.fields k).isSome := by
    cases hf : table.fields k with
    | none => simp [LinkedTable.remove, fieldRemove_of_eq_none hf] at hok
    | some _ => rfl
  obtain ⟨A, v, B, hl⟩ := h.split_of_isSome hk
  obtain ⟨hkA, hkB, hAB⟩ := nodup_split (hl ▸ h.nodup)
  obtain ⟨headK, tailK, hhead, htail, heq⟩ := h.remove_eq hl
  rw [heq] at hok
  obtain ⟨rfl, rfl⟩ := Prod.mk.inj (Except.ok.inj hok)
  have hfilter : l.filter (·.1 ≠ k) = A ++ B := by
    rw [hl, List.filter_append, List.filter_cons_of_neg (by simp), filter_ne_of_not_mem hkA,
      filter_ne_of_not_mem hkB]
  have hlookup : l.lookup k = some v := by
    simp [hl, List.lookup_append, lookup_of_not_mem hkA]
  refine ⟨by simp [Entries.remove, hlookup], ?_⟩
  rw [hfilter]
  -- the fields away from the removed key are those of the table
  have hupd : ∀ x, x ≠ k → Function.update table.fields k none x = table.fields x :=
    fun x hx => Function.update_of_ne hx _ _
  refine ⟨?nodup, ?size, ?head, ?tail, ?node, ?stored⟩
  case nodup =>
    have hsub : (A ++ B).Sublist l := by
      rw [hl]
      exact (List.sublist_cons_self _ B).append_left A
    exact h.nodup.sublist (hsub.map Prod.fst)
  case size =>
    show table.size - 1 = (A ++ B).length
    rw [h.size, hl]
    simp only [List.length_append, List.length_cons]
    omega
  case head =>
    show (if headK = k then _ else table.head) = _
    cases A with
    | nil =>
      -- the head was removed: the key after it is the new head
      have : headK = k := by simpa [h.head, hl] using hhead.symm
      simp [this]
    | cons a A =>
      have : headK = a.1 := by simpa [h.head, hl] using hhead.symm
      have hne : headK ≠ k := fun he => hkA (by simp [← he, this])
      simp [hne, h.head, hl]
  case tail =>
    show (if tailK = k then _ else table.tail) = _
    rcases List.eq_nil_or_concat B with rfl | ⟨B, b, rfl⟩
    · -- the tail was removed: the key before it is the new tail
      have hlast : l = A ++ [(k, v)] := hl
      have : tailK = k := by
        rw [h.tail, hlast, List.getLast?_concat] at htail
        exact (Option.some.inj htail).symm
      simp [this]
    · have hlast : l = (A ++ (k, v) :: B) ++ [b] := by simp [hl]
      have : tailK = b.1 := by
        rw [h.tail, hlast, List.getLast?_concat] at htail
        exact (Option.some.inj htail).symm
      have hne : tailK ≠ k := fun he => hkB (by simp [← he, this])
      rw [if_neg hne, h.tail, hlast, List.getLast?_concat, List.concat_eq_append, ← List.append_assoc,
        List.getLast?_concat]
  case node =>
    intro before x vx after hsplit
    rcases append_eq_append_cons hsplit with ⟨A₂, rfl, rfl⟩ | ⟨B₁, rfl, rfl⟩
    · -- `x` is in the part before the removed key
      have hl' : l = before ++ (x, vx) :: (A₂ ++ (k, v) :: B) := by simp [hl]
      obtain ⟨-, hxR, -⟩ := nodup_split (hl' ▸ h.nodup)
      have hxk : x ≠ k := fun he => hxR (by simp [he])
      have hnext : B.head?.map Prod.fst ≠ some x := fun hn =>
        hxR (by simpa using Or.inr (Or.inr (mem_keys_of_head? hn)))
      cases A₂ with
      | nil =>
        -- it is the key before: its `next` moves past the removed key
        simp [h.node _ _ _ _ hl', hupd x hxk, List.getLast?_append]
      | cons c A₂ =>
        have hprev : (before ++ (x, vx) :: c :: A₂).getLast?.map Prod.fst ≠ some x := by
          rw [List.getLast?_append_of_ne_nil _ (List.cons_ne_nil _ _), List.getLast?_cons_cons]
          intro hp
          apply hxR
          rw [List.map_append]
          exact List.mem_append_left _ (mem_keys_of_getLast? hp)
        simp only
        rw [if_neg hprev, if_neg hnext, hupd x hxk, h.node _ _ _ _ hl']
        simp
    · -- `x` is in the part after the removed key
      have hl' : l = (A ++ (k, v) :: B₁) ++ (x, vx) :: after := by simp [hl]
      obtain ⟨hxL, -, -⟩ := nodup_split (hl' ▸ h.nodup)
      have hxk : x ≠ k := fun he => hxL (by simp [he])
      have hprev : A.getLast?.map Prod.fst ≠ some x := fun hp =>
        hxL (by simpa using Or.inl (mem_keys_of_getLast? hp))
      cases B₁ with
      | nil =>
        -- it is the key after: its `prev` moves past the removed key
        simp [h.node _ _ _ _ hl', hupd x hxk, hprev]
      | cons b B₁ =>
        have hnext : b.1 ≠ x := fun he => hxL (by simp [← he])
        simp [h.node _ _ _ _ hl', hupd x hxk, hprev, hnext, List.getLast?_append]
  case stored =>
    intro x hx
    have hsome : (Function.update table.fields k none x).isSome := by
      simp only at hx
      split at hx
      · simpa using hx
      · split at hx
        · simpa using hx
        · exact hx
    have hxk : x ≠ k := by
      rintro rfl
      simp at hsome
    rw [hupd x hxk] at hsome
    have hxl := h.stored x hsome
    rw [hl] at hxl
    simp only [List.map_append, List.map_cons, List.mem_append, List.mem_cons] at hxl ⊢
    rcases hxl with hxl | rfl | hxl
    · exact .inl hxl
    · exact absurd rfl hxk
    · exact .inr hxl

/-- `remove` aborts only where the list call is undefined: on a key it does not hold. -/
theorem remove_error (h : Represents table l) {k : K} {e : Abort} (herr : table.remove k = .error e) :
    Entries.remove l k = none := by
  by_cases hk : k ∈ l.map Prod.fst
  · obtain ⟨A, v, B, hl⟩ := h.split_of_isSome (h.fields_isSome hk)
    obtain ⟨_, _, _, _, heq⟩ := h.remove_eq hl
    rw [heq] at herr
    cases herr
  · simp [Entries.remove, lookup_of_not_mem hk]

/-- **`pop_front` takes the first entry off.** -/
theorem popFront (h : Represents table l) {entry : K × V} (hok : table.popFront = .ok (table', entry)) :
    Entries.popFront l = some (l.tail, entry) ∧ Represents table' l.tail := by
  unfold LinkedTable.popFront at hok
  cases l with
  | nil =>
    have hhead : table.head = none := h.head
    simp [hhead] at hok
  | cons e l =>
    obtain ⟨k₀, v₀⟩ := e
    have hhead : table.head = some k₀ := h.head
    rw [hhead] at hok
    obtain ⟨⟨table'', value⟩, hremove, hentry⟩ := Except.map_eq_ok.mp hok
    obtain ⟨rfl, rfl⟩ := Prod.mk.inj hentry
    obtain ⟨hentries, hrep⟩ := h.remove hremove
    have hk₀ : k₀ ∉ l.map Prod.fst := (List.nodup_cons.mp h.nodup).1
    have hfilter : ((k₀, v₀) :: l).filter (·.1 ≠ k₀) = l := by
      rw [List.filter_cons_of_neg (by simp), filter_ne_of_not_mem hk₀]
    have hvalue : value = v₀ := by
      simpa [Entries.remove] using hentries.symm
    subst hvalue
    rw [hfilter] at hrep
    exact ⟨rfl, hrep⟩

/-- `pop_front` aborts only on an empty table. -/
theorem popFront_error (h : Represents table l) {e : Abort} (herr : table.popFront = .error e) :
    Entries.popFront l = none := by
  cases l with
  | nil => rfl
  | cons e l =>
    obtain ⟨k₀, v₀⟩ := e
    have hhead : table.head = some k₀ := h.head
    unfold LinkedTable.popFront at herr
    rw [hhead] at herr
    cases hremove : table.remove k₀ with
    | error e' =>
      have := h.remove_error hremove
      simp [Entries.remove] at this
    | ok result =>
      simp [hremove] at herr

/-- **`pop_back` takes the last entry off.** -/
theorem popBack (h : Represents table l) {entry : K × V} (hok : table.popBack = .ok (table', entry)) :
    Entries.popBack l = some (l.dropLast, entry) ∧ Represents table' l.dropLast := by
  unfold LinkedTable.popBack at hok
  rcases List.eq_nil_or_concat l with rfl | ⟨l, ⟨k₀, v₀⟩, rfl⟩
  · have htail : table.tail = none := h.tail
    simp [htail] at hok
  · rw [List.concat_eq_append] at h ⊢
    have htail : table.tail = some k₀ := by
      rw [h.tail, List.getLast?_concat]
      rfl
    rw [htail] at hok
    obtain ⟨⟨table'', value⟩, hremove, hentry⟩ := Except.map_eq_ok.mp hok
    obtain ⟨rfl, rfl⟩ := Prod.mk.inj hentry
    obtain ⟨hentries, hrep⟩ := h.remove hremove
    have hk₀ : k₀ ∉ l.map Prod.fst := (nodup_split (A := l) (B := []) (v := v₀) (by simpa using h.nodup)).1
    have hfilter : (l ++ [(k₀, v₀)]).filter (·.1 ≠ k₀) = l := by
      rw [List.filter_append, filter_ne_of_not_mem hk₀, List.filter_singleton]
      simp
    have hvalue : value = v₀ := by
      simpa [Entries.remove, List.lookup_append, lookup_of_not_mem hk₀] using hentries.symm
    subst hvalue
    rw [hfilter] at hrep
    refine ⟨by simp [Entries.popBack], by simpa using hrep⟩

/-- `pop_back` aborts only on an empty table. -/
theorem popBack_error (h : Represents table l) {e : Abort} (herr : table.popBack = .error e) :
    Entries.popBack l = none := by
  rcases List.eq_nil_or_concat l with rfl | ⟨l, ⟨k₀, v₀⟩, rfl⟩
  · rfl
  · rw [List.concat_eq_append] at h
    have htail : table.tail = some k₀ := by
      rw [h.tail, List.getLast?_concat]
      rfl
    unfold LinkedTable.popBack at herr
    rw [htail] at herr
    cases hremove : table.remove k₀ with
    | error e' =>
      have := h.remove_error hremove
      simp [Entries.remove, List.lookup_append] at this
    | ok result =>
      simp [hremove] at herr

/-- **One call keeps the table representing its entries**: it returns what
    the list call returns. -/
theorem step_ok (h : Represents table l) {op : Op K V} {r : Option (K × V)}
    (hok : table.step op = .ok (table', r)) : ∃ l', Entries.step l op = some (l', r) ∧ Represents table' l' := by
  cases op with
  | pushFront k value =>
    obtain ⟨t, ht, htr⟩ := Except.map_eq_ok.mp hok
    obtain ⟨rfl, rfl⟩ := Prod.mk.inj htr
    obtain ⟨hentries, hrep⟩ := h.pushFront ht
    exact ⟨_, by simp [Entries.step, hentries], hrep⟩
  | pushBack k value =>
    obtain ⟨t, ht, htr⟩ := Except.map_eq_ok.mp hok
    obtain ⟨rfl, rfl⟩ := Prod.mk.inj htr
    obtain ⟨hentries, hrep⟩ := h.pushBack ht
    exact ⟨_, by simp [Entries.step, hentries], hrep⟩
  | remove k =>
    obtain ⟨⟨t, value⟩, ht, htr⟩ := Except.map_eq_ok.mp hok
    obtain ⟨rfl, rfl⟩ := Prod.mk.inj htr
    obtain ⟨hentries, hrep⟩ := h.remove ht
    exact ⟨_, by simp [Entries.step, hentries], hrep⟩
  | popFront =>
    obtain ⟨⟨t, entry⟩, ht, htr⟩ := Except.map_eq_ok.mp hok
    obtain ⟨rfl, rfl⟩ := Prod.mk.inj htr
    obtain ⟨hentries, hrep⟩ := h.popFront ht
    exact ⟨_, by simp [Entries.step, hentries], hrep⟩
  | popBack =>
    obtain ⟨⟨t, entry⟩, ht, htr⟩ := Except.map_eq_ok.mp hok
    obtain ⟨rfl, rfl⟩ := Prod.mk.inj htr
    obtain ⟨hentries, hrep⟩ := h.popBack ht
    exact ⟨_, by simp [Entries.step, hentries], hrep⟩

/-- **A call aborts exactly where the list call is undefined.** -/
theorem step_error (h : Represents table l) {op : Op K V} {e : Abort} (herr : table.step op = .error e) :
    Entries.step l op = none := by
  cases op with
  | pushFront k value =>
    cases ht : table.pushFront k value with
    | error e' => simp [Entries.step, h.pushFront_error ht]
    | ok t => simp [LinkedTable.step, ht] at herr
  | pushBack k value =>
    cases ht : table.pushBack k value with
    | error e' => simp [Entries.step, h.pushBack_error ht]
    | ok t => simp [LinkedTable.step, ht] at herr
  | remove k =>
    cases ht : table.remove k with
    | error e' => simp [Entries.step, h.remove_error ht]
    | ok t => simp [LinkedTable.step, ht] at herr
  | popFront =>
    cases ht : table.popFront with
    | error e' => simp [Entries.step, h.popFront_error ht]
    | ok t => simp [LinkedTable.step, ht] at herr
  | popBack =>
    cases ht : table.popBack with
    | error e' => simp [Entries.step, h.popBack_error ht]
    | ok t => simp [LinkedTable.step, ht] at herr

/-- **Any run of calls keeps the table representing its entries**: the list
    the same calls make of a plain list, an aborting call skipped on both
    sides. -/
theorem run (h : Represents table l) (ops : List (Op K V)) :
    Represents (table.run ops) (Entries.run l ops) := by
  induction ops generalizing table l with
  | nil => exact h
  | cons op ops ih =>
    cases hstep : table.step op with
    | ok result =>
      obtain ⟨table', r⟩ := result
      obtain ⟨l', hl', hrep⟩ := h.step_ok hstep
      have hrun : (table.run (op :: ops)) = table'.run ops := by
        simp [LinkedTable.run, List.foldl_cons, hstep]
      have hlist : Entries.run l (op :: ops) = Entries.run l' ops := by
        simp [Entries.run, List.foldl_cons, hl']
      rw [hrun, hlist]
      exact ih hrep
    | error e =>
      have hrun : (table.run (op :: ops)) = table.run ops := by
        simp [LinkedTable.run, List.foldl_cons, hstep]
      have hlist : Entries.run l (op :: ops) = Entries.run l ops := by
        simp [Entries.run, List.foldl_cons, h.step_error hstep]
      rw [hrun, hlist]
      exact ih h

omit [DecidableEq K] in
/-- **Following `next` from `head` walks the keys in order and ends**: with
    fuel for every key, the walk meets the empty `next` of the last. -/
theorem walk_next (h : Represents table l) {fuel : Nat} (hfuel : l.length ≤ fuel) :
    walk table.fields Node.next fuel table.head = some (l.map Prod.fst) := by
  -- induction on the part of the list still to walk, `before` the part walked
  suffices hsuffix : ∀ after before : List (K × V), l = before ++ after → ∀ fuel, after.length ≤ fuel →
      walk table.fields Node.next fuel (after.head?.map Prod.fst) = some (after.map Prod.fst) by
    rw [h.head]
    exact hsuffix l [] rfl fuel hfuel
  intro after
  induction after with
  | nil =>
    intro _ _ fuel _
    cases fuel <;> rfl
  | cons e after ih =>
    obtain ⟨k, value⟩ := e
    intro before hl fuel hfuel
    obtain ⟨fuel, rfl⟩ : ∃ f, fuel = f + 1 := ⟨fuel - 1, by simp at hfuel; omega⟩
    have hnode := h.node before k value after hl
    have hrest := ih (before ++ [(k, value)]) (by simp [hl]) fuel (by simpa using hfuel)
    simp [walk, hnode, hrest]

omit [DecidableEq K] in
/-- **Following `prev` from `tail` walks the keys in reverse.** -/
theorem walk_prev (h : Represents table l) {fuel : Nat} (hfuel : l.length ≤ fuel) :
    walk table.fields Node.prev fuel table.tail = some (l.map Prod.fst).reverse := by
  have hflip := h.flip.walk_next (show l.reverse.length ≤ fuel by simpa using hfuel)
  rw [flip_head, List.map_reverse] at hflip
  rw [← walk_flip, ← hflip]
  rfl

omit [DecidableEq K] in
/-- The `next` of a key names a key whose `prev` names it back. -/
theorem prev_of_next (h : Represents table l) {k k' : K} {node : Node K V}
    (hk : table.fields k = some node) (hnext : node.next = some k') :
    ∃ node', table.fields k' = some node' ∧ node'.prev = some k := by
  obtain ⟨A, v, B, hl⟩ := h.split_of_isSome (k := k) (by simp [hk])
  have hnode := h.node A k v B hl
  rw [hk, Option.some_inj] at hnode
  subst hnode
  cases B with
  | nil => simp at hnext
  | cons e B =>
    obtain ⟨k'', v'⟩ := e
    obtain rfl : k' = k'' := by simpa using hnext.symm
    exact ⟨_, h.node (A ++ [(k, v)]) k' v' B (by simp [hl]), by simp⟩

omit [DecidableEq K] in
/-- The `prev` of a key names a key whose `next` names it back: `prev_of_next`
    in the flipped table. -/
theorem next_of_prev (h : Represents table l) {k k' : K} {node' : Node K V}
    (hk' : table.fields k' = some node') (hprev : node'.prev = some k) :
    ∃ node, table.fields k = some node ∧ node.next = some k' := by
  obtain ⟨node, hk, hnext⟩ :=
    h.flip.prev_of_next (show table.flip.fields k' = some node'.flip by simp [hk']) hprev
  obtain ⟨n, hn, rfl⟩ : ∃ n, table.fields k = some n ∧ n.flip = node := by
    simpa using hk
  exact ⟨n, hn, hnext⟩

omit [DecidableEq K] in
/-- `head` and `tail` are empty exactly when `size` is zero. -/
theorem head_eq_none_iff (h : Represents table l) : table.head = none ↔ table.size = 0 := by
  rw [h.head, h.size]
  cases l <;> simp

omit [DecidableEq K] in
theorem tail_eq_none_iff (h : Represents table l) : table.tail = none ↔ table.size = 0 := by
  rw [h.tail, h.size]
  rcases List.eq_nil_or_concat l with rfl | ⟨l, e, rfl⟩ <;> simp

end Represents

/-- **The linked table from any calls**: `next` from `head` walks every
    stored key once, in the order the same calls give a plain list, and ends
    at `tail`; `prev` from `tail` walks them back; `prev` and `next` are
    inverse links; `head` and `tail` are empty exactly when `size` is zero,
    and `size` counts the stored nodes. -/
theorem linked_table_run_represents (ops : List (Op K V)) :
    let table := (new : LinkedTable K V).run ops
    let keys := (Entries.run [] ops).map Prod.fst
    (∀ fuel, keys.length ≤ fuel → walk table.fields Node.next fuel table.head = some keys) ∧
    keys.Nodup ∧ (∀ k, (table.fields k).isSome ↔ k ∈ keys) ∧ table.tail = keys.getLast? ∧
    (∀ fuel, keys.length ≤ fuel → walk table.fields Node.prev fuel table.tail = some keys.reverse) ∧
    (∀ k k', (∃ node, table.fields k = some node ∧ node.next = some k') ↔
      ∃ node', table.fields k' = some node' ∧ node'.prev = some k) ∧
    (table.head = none ↔ table.size = 0) ∧ (table.tail = none ↔ table.size = 0) ∧
    table.size = keys.length := by
  intro table keys
  have h : Represents table (Entries.run [] ops) := represents_new.run ops
  have hlen : keys.length = (Entries.run [] ops).length := List.length_map _
  refine ⟨fun fuel hfuel => h.walk_next (hlen ▸ hfuel), h.nodup,
    fun k => ⟨h.stored k, h.fields_isSome⟩, ?_, fun fuel hfuel => h.walk_prev (hlen ▸ hfuel),
    fun k k' => ⟨fun ⟨_, hk, hnext⟩ => h.prev_of_next hk hnext, fun ⟨_, hk', hprev⟩ => h.next_of_prev hk' hprev⟩,
    h.head_eq_none_iff, h.tail_eq_none_iff, h.size.trans hlen.symm⟩
  rw [h.tail, List.getLast?_map]

example : ((new : LinkedTable Nat Nat).run [.pushBack 1 10, .pushFront 2 20, .pushBack 3 30, .remove 1,
    .pushFront 2 0, .popBack]).head = some 2 := by decide

end LinkedTable

end Mango.Framework
