/-
  Mango.Core.CausalOrder

  `CausalOrder::causal_sort` (`crates/mgo-core/src/checkpoints/causal_order.rs`),
  which orders the effects of a checkpoint so that each transaction comes after
  those it depends on. The dependencies of a transaction are those its effects
  list, and, through the `RWLockDependencyBuilder`, the transactions that read a
  shared object version it overwrites. The sort keeps the transactions not yet
  visited in a `BTreeMap` by digest, takes out the least one, and visits it by a
  depth-first search on an explicit stack of `InsertState`s: a state pops its
  dependencies from the largest down, takes out of the map and pushes the
  first one still there, and outputs its transaction once none is left.

  The effects are any type with the three accessors of `TransactionEffectsAPI`
  that the sort reads. Digests, identifiers and versions are `Nat`. A
  `BTreeMap` is the list of its entries in order of key (`Mango.Lib.SortedMap`),
  a `BTreeSet` the list of its elements in order (`btreeSet`), a `HashMap` of
  `Vec`s an association list of lists, and a `Vec` used as a stack the list of
  its elements, the last one first. The loops of `insert` and `causal_sort`
  take fuel enough for every run (`insertLoop_spec`, `causalSortLoop_spec`).

  What the sort guarantees, for effects of distinct digests
  (`causal_sort_orders_checkpoint`): it returns a permutation of them, each
  transaction after its dependencies when these have no cycle, and the same
  result for every list of the same effects. Effects that share a digest are
  collapsed into the last one of the list (`collect` into the `BTreeMap`), so
  the result then depends on their order (`causal_sort_keeps_last_of_digest`).
-/
import Mathlib
import Mango.Lib.SortedMap
import Mango.Core.Effects
import Mango.Core.Transaction

namespace Mango.Core

open Mango.Lib

/-- What `causal_order` reads of the effects of a transaction through
    `TransactionEffectsAPI`: its digest, the transactions its effects list as
    dependencies, and how it used each shared input. -/
class TransactionEffectsAPI (E : Type) where
  transactionDigest : E → Nat
  dependencies : E → List Nat
  inputSharedObjects : E → List InputSharedObject

open TransactionEffectsAPI

variable {E : Type} [TransactionEffectsAPI E]

/-! ## The model of `causal_order.rs` -/

/-- `entry(key).or_default().push(value)` on a `HashMap` of `Vec`s. -/
def pushEntry {κ β : Type} [DecidableEq κ] (m : List (κ × List β)) (key : κ) (value : β) :
    List (κ × List β) :=
  vset m key ((vget m key).getD [] ++ [value])

/-- `RWLockDependencyBuilder`: the transactions that read each shared object
    version, and the versions each transaction overwrites. -/
structure RWLockDependencyBuilder where
  readVersion : List (ObjectKey × List Nat)
  overwriteVersions : List (Nat × List ObjectKey)

namespace RWLockDependencyBuilder

/-- The body of the inner loop of `from_effects`, on one shared input of the
    transaction `digest`. -/
def addInput (b : RWLockDependencyBuilder) (digest : Nat) : InputSharedObject → RWLockDependencyBuilder
  | .readOnly objRef => { b with readVersion := pushEntry b.readVersion objRef.key digest }
  | .mutate objRef => { b with overwriteVersions := pushEntry b.overwriteVersions digest objRef.key }
  | .readDeleted oid version => { b with readVersion := pushEntry b.readVersion ⟨oid, version⟩ digest }
  | .mutateDeleted oid version =>
    { b with overwriteVersions := pushEntry b.overwriteVersions digest ⟨oid, version⟩ }

/-- `RWLockDependencyBuilder::from_effects`. -/
def fromEffects (effects : List E) : RWLockDependencyBuilder :=
  effects.foldl (fun b effect =>
    (inputSharedObjects effect).foldl (fun b kind => b.addInput (transactionDigest effect) kind) b)
    ⟨[], []⟩

/-- `add_dependencies_for`: the dependencies it inserts for the transaction
    `digest`, the readers of each version it overwrites. -/
def addDependenciesFor (b : RWLockDependencyBuilder) (digest : Nat) : List Nat :=
  match vget b.overwriteVersions digest with
  | none => []
  | some overwrites => overwrites.flatMap fun objVer =>
    match vget b.readVersion objVer with
    | none => []
    | some reads => reads

end RWLockDependencyBuilder

/-- `TransactionDependencies`. -/
structure TransactionDependencies (E : Type) where
  digest : Nat
  /-- A `BTreeSet`: in increasing order. -/
  dependencies : List Nat
  effects : E

/-- `TransactionDependencies::from_effects`: the dependencies of the effects
    and those the builder adds, collected into a set. -/
def TransactionDependencies.fromEffects (effects : E) (rwlockBuilder : RWLockDependencyBuilder) :
    TransactionDependencies E where
  digest := transactionDigest effects
  dependencies := btreeSet (TransactionEffectsAPI.dependencies effects ++
    rwlockBuilder.addDependenciesFor (transactionDigest effects))
  effects := effects

/-- `InsertState`: a transaction being visited, with the dependencies it has
    still to look at, the last element of the `Vec` first. `transaction` is
    taken when the state is finished. -/
structure InsertState (E : Type) where
  dependencies : List Nat
  transaction : Option (TransactionDependencies E)

/-- `InsertState::new`: the dependencies in increasing order, so `pop` takes
    the largest first. -/
def InsertState.new (transaction : TransactionDependencies E) : InsertState E :=
  ⟨transaction.dependencies.reverse, some transaction⟩

/-- `CausalOrder`: the transactions not visited yet, by digest, and the
    effects output so far. -/
structure CausalOrder (E : Type) where
  notSeen : List (Nat × TransactionDependencies E)
  output : List E

/-- The loop of `InsertState::process` over the dependencies left: the first
    one popped that `not_seen` still holds is taken out of it and returned as a
    new state to visit; when none is left, the transaction is output. The
    result is the state returned, this state after the call, and the causal
    order; `none` is the `expect` on a state already finished. -/
def processDependencies (transaction : Option (TransactionDependencies E)) :
    List Nat → CausalOrder E → Option (Option (InsertState E) × InsertState E × CausalOrder E)
  | dep :: dependencies, co =>
    match SortedMap.remove co.notSeen dep with
    | some (depTransaction, notSeen) =>
      some (some (InsertState.new depTransaction), ⟨dependencies, transaction⟩, { co with notSeen })
    | none => processDependencies transaction dependencies co
  | [], co =>
    match transaction with
    | some transaction =>
      some (none, ⟨[], none⟩, { co with output := co.output ++ [transaction.effects] })
    | none => none

/-- `InsertState::process`. -/
def InsertState.process (state : InsertState E) (co : CausalOrder E) :
    Option (Option (InsertState E) × InsertState E × CausalOrder E) :=
  processDependencies state.transaction state.dependencies co

namespace CausalOrder

/-- The loop of `CausalOrder::insert` over the stack of states, its top first,
    with `fuel` rounds: the top state is processed, and the state it returns
    pushed, or else the top popped. -/
def insertLoop : Nat → List (InsertState E) → CausalOrder E → Option (CausalOrder E)
  | _, [], co => some co
  | 0, _ :: _, _ => none
  | fuel + 1, state :: states, co =>
    match state.process co with
    | none => none
    | some (some newState, state, co) => insertLoop fuel (newState :: state :: states) co
    | some (none, _, co) => insertLoop fuel states co

/-- `CausalOrder::insert` of a transaction already taken out of `not_seen`.
    Each round takes a transaction out of `not_seen` or pops a state, so
    twice the transactions left and one more are rounds enough. -/
def insert (co : CausalOrder E) (transaction : TransactionDependencies E) : Option (CausalOrder E) :=
  insertLoop (2 * co.notSeen.length + 1) [InsertState.new transaction] co

/-- `CausalOrder::from_vec`. -/
def fromVec (effects : List E) : CausalOrder E :=
  let rwlockBuilder := RWLockDependencyBuilder.fromEffects effects
  let dependencies := effects.map fun e => TransactionDependencies.fromEffects e rwlockBuilder
  ⟨SortedMap.collect (dependencies.map fun e => (e.digest, e)), []⟩

/-- `CausalOrder::pop_first`: the entry of the least digest. -/
def popFirst (co : CausalOrder E) : Option (TransactionDependencies E × CausalOrder E) :=
  match co.notSeen with
  | [] => none
  | (_, transaction) :: notSeen => some (transaction, { co with notSeen })

omit [TransactionEffectsAPI E] in
/-- `pop_first` takes the head entry of the map. -/
theorem popFirst_eq_some {co co' : CausalOrder E} {t : TransactionDependencies E}
    (h : co.popFirst = some (t, co')) : ∃ k, co.notSeen = (k, t) :: co'.notSeen ∧ co'.output = co.output := by
  obtain ⟨notSeen, output⟩ := co
  cases notSeen with
  | nil => cases h
  | cons e notSeen =>
    obtain ⟨rfl, rfl⟩ := Prod.mk.inj (Option.some.inj h)
    exact ⟨e.1, rfl, rfl⟩

omit [TransactionEffectsAPI E] in
/-- `pop_first` finds nothing exactly when the map is empty. -/
theorem popFirst_eq_none {co : CausalOrder E} : co.popFirst = none ↔ co.notSeen = [] := by
  obtain ⟨notSeen, output⟩ := co
  cases notSeen with
  | nil => exact iff_of_true rfl rfl
  | cons e notSeen => exact iff_of_false (Option.some_ne_none _) (List.cons_ne_nil _ _)

/-- The loop of `causal_sort`, with `fuel` rounds. -/
def causalSortLoop : Nat → CausalOrder E → Option (CausalOrder E)
  | 0, _ => none
  | fuel + 1, co =>
    match co.popFirst with
    | none => some co
    | some (item, co) => (co.insert item).bind (causalSortLoop fuel)

/-- `CausalOrder::causal_sort`. Each round takes a transaction out of
    `not_seen`, so one round more than the transactions is enough. -/
def causalSort (effects : List E) : Option (List E) :=
  let this := fromVec effects
  (causalSortLoop (this.notSeen.length + 1) this).map (·.output)

end CausalOrder

/-! ## The order the sort is to follow -/

/-- The version a shared input only read. -/
def InputSharedObject.readKey : InputSharedObject → Option ObjectKey
  | .readOnly objRef => some objRef.key
  | .readDeleted oid version => some ⟨oid, version⟩
  | _ => none

/-- The version a shared input overwrote. -/
def InputSharedObject.overwriteKey : InputSharedObject → Option ObjectKey
  | .mutate objRef => some objRef.key
  | .mutateDeleted oid version => some ⟨oid, version⟩
  | _ => none

/-- The shared object versions a transaction only read. -/
def readKeys (e : E) : List ObjectKey := (inputSharedObjects e).filterMap InputSharedObject.readKey

/-- The shared object versions a transaction overwrote. -/
def overwriteKeys (e : E) : List ObjectKey := (inputSharedObjects e).filterMap InputSharedObject.overwriteKey

/-- The order `causal_sort` is to follow, on the digests of `effects`: `a`
    depends on `b` when the effects of `a` list `b`, or `a` overwrites a shared
    object version that `b` read. Only transactions of the list count. -/
def DependsOn (effects : List E) (a b : Nat) : Prop :=
  b ∈ effects.map transactionDigest ∧ ∃ e ∈ effects, transactionDigest e = a ∧
    (b ∈ dependencies e ∨ ∃ key ∈ overwriteKeys e, ∃ r ∈ effects, key ∈ readKeys r ∧ transactionDigest r = b)

/-! ## The dependencies collected -/

/-- A push onto the `Vec` of a key adds the value there and nowhere else. -/
theorem mem_pushEntry {κ β : Type} [DecidableEq κ] {m : List (κ × List β)} {key k : κ} {value x : β} :
    x ∈ (vget (pushEntry m key value) k).getD [] ↔ x ∈ (vget m k).getD [] ∨ (k = key ∧ x = value) := by
  unfold pushEntry
  rw [vget_vset]
  by_cases hk : k = key
  · subst hk
    simp
  · simp [hk]

/-- The elements of a `BTreeSet` collected from a list are those of the list. -/
theorem mem_btreeSet {l : List Nat} {x : Nat} : x ∈ btreeSet l ↔ x ∈ l := by
  rw [btreeSet, (List.perm_insertionSort _ _).mem_iff, List.mem_dedup]

/-- A `BTreeSet` depends only on the elements collected into it. -/
theorem btreeSet_congr {l m : List Nat} (h : ∀ x, x ∈ l ↔ x ∈ m) : btreeSet l = btreeSet m := by
  have hdedup : l.dedup.Perm m.dedup :=
    (List.perm_ext_iff_of_nodup (List.nodup_dedup l) (List.nodup_dedup m)).mpr fun x => by
      rw [List.mem_dedup, List.mem_dedup, h]
  exact @List.Perm.eq_of_pairwise _ (· ≤ ·) _ _ (fun a b _ _ hab hba => Nat.le_antisymm hab hba)
    (List.pairwise_insertionSort _ _) (List.pairwise_insertionSort _ _)
    (((List.perm_insertionSort _ _).trans hdedup).trans (List.perm_insertionSort _ _).symm)

namespace RWLockDependencyBuilder

/-- A shared input that was only read makes the transaction a reader of its
    version. -/
theorem mem_readVersion_addInput {b : RWLockDependencyBuilder} {digest x : Nat} {key : ObjectKey}
    (kind : InputSharedObject) :
    x ∈ (vget (b.addInput digest kind).readVersion key).getD [] ↔
      x ∈ (vget b.readVersion key).getD [] ∨ (kind.readKey = some key ∧ x = digest) := by
  cases kind <;> simp [addInput, InputSharedObject.readKey, mem_pushEntry, eq_comm]

/-- A shared input that was overwritten is recorded among the versions the
    transaction overwrites. -/
theorem mem_overwriteVersions_addInput {b : RWLockDependencyBuilder} {digest a : Nat} {key : ObjectKey}
    (kind : InputSharedObject) :
    key ∈ (vget (b.addInput digest kind).overwriteVersions a).getD [] ↔
      key ∈ (vget b.overwriteVersions a).getD [] ∨ (a = digest ∧ kind.overwriteKey = some key) := by
  cases kind <;> simp [addInput, InputSharedObject.overwriteKey, mem_pushEntry, eq_comm]

/-- The readers `from_effects` records of a version: the transactions that only
    read it. -/
theorem mem_readVersion_fromEffects (effects : List E) (key : ObjectKey) (x : Nat) :
    x ∈ (vget (fromEffects effects).readVersion key).getD [] ↔
      ∃ r ∈ effects, key ∈ readKeys r ∧ transactionDigest r = x := by
  -- the inner loop over the shared inputs of one transaction
  have hinner : ∀ (digest : Nat) (kinds : List InputSharedObject) (b : RWLockDependencyBuilder),
      x ∈ (vget (kinds.foldl (fun b kind => b.addInput digest kind) b).readVersion key).getD [] ↔
        x ∈ (vget b.readVersion key).getD [] ∨ (key ∈ kinds.filterMap InputSharedObject.readKey ∧ x = digest) := by
    intro digest kinds
    induction kinds with
    | nil => simp
    | cons kind kinds ih =>
      intro b
      rw [List.foldl_cons, ih, mem_readVersion_addInput, List.filterMap_cons]
      cases kind.readKey <;> simp only [List.mem_cons, reduceCtorEq, Option.some.injEq] <;> tauto
  -- the outer loop over the transactions
  suffices h : ∀ b : RWLockDependencyBuilder,
      x ∈ (vget (effects.foldl (fun b effect => (inputSharedObjects effect).foldl
        (fun b kind => b.addInput (transactionDigest effect) kind) b) b).readVersion key).getD [] ↔
        x ∈ (vget b.readVersion key).getD [] ∨ ∃ r ∈ effects, key ∈ readKeys r ∧ transactionDigest r = x by
    simpa [fromEffects] using h ⟨[], []⟩
  induction effects with
  | nil => simp
  | cons effect effects ih =>
    intro b
    rw [List.foldl_cons, ih, hinner]
    simp only [List.mem_cons, or_and_right, exists_or, exists_eq_left, readKeys]
    constructor
    · rintro ((h | ⟨hk, rfl⟩) | h)
      · exact .inl h
      · exact .inr (.inl ⟨hk, rfl⟩)
      · exact .inr (.inr h)
    · rintro (h | ⟨hk, rfl⟩ | h)
      · exact .inl (.inl h)
      · exact .inl (.inr ⟨hk, rfl⟩)
      · exact .inr h

/-- The versions `from_effects` records a transaction overwrites: those its
    effects overwrote, of every effects of its digest. -/
theorem mem_overwriteVersions_fromEffects (effects : List E) (a : Nat) (key : ObjectKey) :
    key ∈ (vget (fromEffects effects).overwriteVersions a).getD [] ↔
      ∃ e ∈ effects, transactionDigest e = a ∧ key ∈ overwriteKeys e := by
  have hinner : ∀ (digest : Nat) (kinds : List InputSharedObject) (b : RWLockDependencyBuilder),
      key ∈ (vget (kinds.foldl (fun b kind => b.addInput digest kind) b).overwriteVersions a).getD [] ↔
        key ∈ (vget b.overwriteVersions a).getD [] ∨
          (a = digest ∧ key ∈ kinds.filterMap InputSharedObject.overwriteKey) := by
    intro digest kinds
    induction kinds with
    | nil => simp
    | cons kind kinds ih =>
      intro b
      rw [List.foldl_cons, ih, mem_overwriteVersions_addInput, List.filterMap_cons]
      cases kind.overwriteKey <;> simp only [List.mem_cons, reduceCtorEq, Option.some.injEq] <;> tauto
  suffices h : ∀ b : RWLockDependencyBuilder,
      key ∈ (vget (effects.foldl (fun b effect => (inputSharedObjects effect).foldl
        (fun b kind => b.addInput (transactionDigest effect) kind) b) b).overwriteVersions a).getD [] ↔
        key ∈ (vget b.overwriteVersions a).getD [] ∨
          ∃ e ∈ effects, transactionDigest e = a ∧ key ∈ overwriteKeys e by
    simpa [fromEffects] using h ⟨[], []⟩
  induction effects with
  | nil => simp
  | cons effect effects ih =>
    intro b
    rw [List.foldl_cons, ih, hinner]
    simp only [List.mem_cons, or_and_right, exists_or, exists_eq_left, overwriteKeys]
    constructor
    · rintro ((h | ⟨rfl, hk⟩) | h)
      · exact .inl h
      · exact .inr (.inl ⟨rfl, hk⟩)
      · exact .inr (.inr h)
    · rintro (h | ⟨rfl, hk⟩ | h)
      · exact .inl (.inl h)
      · exact .inl (.inr ⟨rfl, hk⟩)
      · exact .inr h

/-- `add_dependencies_for` adds the readers of each version overwritten. -/
theorem mem_addDependenciesFor (b : RWLockDependencyBuilder) (digest x : Nat) :
    x ∈ b.addDependenciesFor digest ↔
      ∃ key ∈ (vget b.overwriteVersions digest).getD [], x ∈ (vget b.readVersion key).getD [] := by
  unfold addDependenciesFor
  cases vget b.overwriteVersions digest with
  | none => simp
  | some overwrites =>
    rw [List.mem_flatMap, Option.getD_some]
    refine exists_congr fun key => and_congr_right fun _ => ?_
    cases vget b.readVersion key <;> simp

/-- The dependencies the builder of a list of effects adds to the transaction
    `a`: the readers, in the list, of the versions it overwrote. -/
theorem mem_addDependenciesFor_fromEffects (effects : List E) (a x : Nat) :
    x ∈ (fromEffects effects).addDependenciesFor a ↔
      ∃ e ∈ effects, transactionDigest e = a ∧
        ∃ key ∈ overwriteKeys e, ∃ r ∈ effects, key ∈ readKeys r ∧ transactionDigest r = x := by
  rw [mem_addDependenciesFor]
  simp only [mem_overwriteVersions_fromEffects, mem_readVersion_fromEffects]
  constructor
  · rintro ⟨key, ⟨e, he, hd, hk⟩, hr⟩
    exact ⟨e, he, hd, key, hk, hr⟩
  · rintro ⟨e, he, hd, key, hk, hr⟩
    exact ⟨key, ⟨e, he, hd, hk⟩, hr⟩

end RWLockDependencyBuilder

/-- The dependencies of a transaction are those its effects list and those
    the builder adds. -/
theorem TransactionDependencies.mem_fromEffects_dependencies (effects : E) (b : RWLockDependencyBuilder)
    (x : Nat) :
    x ∈ (TransactionDependencies.fromEffects effects b).dependencies ↔
      x ∈ TransactionEffectsAPI.dependencies effects ∨ x ∈ b.addDependenciesFor (transactionDigest effects) := by
  rw [TransactionDependencies.fromEffects, mem_btreeSet, List.mem_append]

namespace CausalOrder

/-- The map `from_vec` starts from: each transaction by its digest, with the
    dependencies the builder of the whole list adds. -/
theorem fromVec_notSeen (effects : List E) :
    (fromVec effects).notSeen = SortedMap.collect (effects.map fun e =>
      (transactionDigest e, TransactionDependencies.fromEffects e (RWLockDependencyBuilder.fromEffects effects))) := by
  rw [fromVec, List.map_map]
  rfl

/-- For effects of distinct digests, the map holds one transaction for each. -/
theorem perm_fromVec_values {effects : List E} (hdistinct : (effects.map transactionDigest).Nodup) :
    ((fromVec effects).notSeen.map (·.2)).Perm
      (effects.map fun e => TransactionDependencies.fromEffects e (RWLockDependencyBuilder.fromEffects effects)) := by
  rw [fromVec_notSeen]
  have hkeys : ((effects.map fun e => (transactionDigest e,
      TransactionDependencies.fromEffects e (RWLockDependencyBuilder.fromEffects effects))).map Prod.fst).Nodup := by
    rw [List.map_map]
    exact hdistinct
  have h := (SortedMap.perm_collect hkeys).map (·.2)
  rwa [List.map_map] at h

/-- For effects of distinct digests, `from_vec` depends only on the effects
    given, not on their order. -/
theorem fromVec_eq_of_perm {l₁ l₂ : List E} (hp : l₁.Perm l₂) (hdistinct : (l₁.map transactionDigest).Nodup) :
    fromVec l₁ = fromVec l₂ := by
  -- the dependencies the two builders add are the same sets
  have hdeps : ∀ e : E, TransactionDependencies.fromEffects e (RWLockDependencyBuilder.fromEffects l₁) =
      TransactionDependencies.fromEffects e (RWLockDependencyBuilder.fromEffects l₂) := by
    intro e
    simp only [TransactionDependencies.fromEffects, TransactionDependencies.mk.injEq, true_and, and_true]
    refine btreeSet_congr fun x => ?_
    simp only [List.mem_append, RWLockDependencyBuilder.mem_addDependenciesFor_fromEffects, hp.mem_iff]
  rw [fromVec, fromVec]
  congr 1
  simp only [List.map_map, Function.comp_def, hdeps]
  refine SortedMap.collect_eq_of_perm (hp.map _) ?_
  simpa [List.map_map, Function.comp_def, TransactionDependencies.fromEffects] using hdistinct

/-! ## One round of the search -/

section Search

omit [TransactionEffectsAPI E]

/-- **What processing a state does** while its transaction is there: it skips
    the dependencies `not_seen` no longer holds, and either takes out the next
    one and returns its new state, or outputs the transaction. -/
theorem processDependencies_spec (t : TransactionDependencies E) :
    ∀ (deps : List Nat) (co : CausalOrder E),
      (∃ skipped d rest dt notSeen, deps = skipped ++ d :: rest ∧
          (∀ x ∈ skipped, SortedMap.get co.notSeen x = none) ∧
          SortedMap.remove co.notSeen d = some (dt, notSeen) ∧
          processDependencies (some t) deps co =
            some (some (InsertState.new dt), ⟨rest, some t⟩, { co with notSeen })) ∨
        ((∀ x ∈ deps, SortedMap.get co.notSeen x = none) ∧
          processDependencies (some t) deps co =
            some (none, ⟨[], none⟩, { co with output := co.output ++ [t.effects] }))
  | [], co => .inr ⟨fun _ hx => absurd hx List.not_mem_nil, rfl⟩
  | d :: deps, co => by
    cases hrem : SortedMap.remove co.notSeen d with
    | some r =>
      obtain ⟨dt, notSeen⟩ := r
      refine .inl ⟨[], d, deps, dt, notSeen, rfl, fun _ hx => absurd hx List.not_mem_nil, hrem, ?_⟩
      simp only [processDependencies, hrem]
    | none =>
      -- `d` is skipped, and the rest is processed as if it were all there was
      have hget := SortedMap.remove_eq_none_iff.mp hrem
      have hstep : processDependencies (some t) (d :: deps) co = processDependencies (some t) deps co := by
        simp only [processDependencies, hrem]
      rcases processDependencies_spec t deps co with
        ⟨skipped, d', rest, dt, notSeen, hdeps, hskip, hrem', hp⟩ | ⟨hskip, hp⟩
      · refine .inl ⟨d :: skipped, d', rest, dt, notSeen, by rw [hdeps, List.cons_append], ?_, hrem',
          hstep ▸ hp⟩
        intro x hx
        rcases List.mem_cons.mp hx with rfl | hx
        · exact hget
        · exact hskip x hx
      · refine .inr ⟨fun x hx => ?_, hstep ▸ hp⟩
        rcases List.mem_cons.mp hx with rfl | hx
        · exact hget
        · exact hskip x hx

/-! ## Every transaction is output once -/

/-- The transactions of the states on the stack. -/
def stackTransactions (states : List (InsertState E)) : List (TransactionDependencies E) :=
  states.filterMap (·.transaction)

@[simp] theorem stackTransactions_nil : stackTransactions ([] : List (InsertState E)) = [] := rfl

theorem stackTransactions_cons {s : InsertState E} {t : TransactionDependencies E} (states : List (InsertState E))
    (ht : s.transaction = some t) : stackTransactions (s :: states) = t :: stackTransactions states := by
  simp [stackTransactions, ht]

variable (V : List (TransactionDependencies E))

/-- What each round of `insert` and of `causal_sort` keeps, for the
    transactions `V` of the map the sort started from and the transactions
    `done` output so far: the map stays in order, each transaction of `V` is in
    the map, output or on the stack, once, and each state on the stack still
    has its transaction. -/
structure SortInv (states : List (InsertState E)) (co : CausalOrder E)
    (done : List (TransactionDependencies E)) : Prop where
  sorted : SortedMap.Sorted co.notSeen
  perm : V.Perm (co.notSeen.map (·.2) ++ done ++ stackTransactions states)
  output : co.output = done.map (·.effects)
  live : ∀ s ∈ states, s.transaction.isSome

namespace SortInv

variable {V} {s : InsertState E} {states : List (InsertState E)} {co : CausalOrder E}
  {done : List (TransactionDependencies E)} {t : TransactionDependencies E}

/-- Taking a dependency out of the map pushes its state, with one transaction
    less in the map. -/
theorem push (h : SortInv V (s :: states) co done) (ht : s.transaction = some t) {d : Nat}
    {dt : TransactionDependencies E} {notSeen : List (Nat × TransactionDependencies E)} (rest : List Nat)
    (hrem : SortedMap.remove co.notSeen d = some (dt, notSeen)) :
    SortInv V (InsertState.new dt :: ⟨rest, some t⟩ :: states) { co with notSeen } done ∧
      notSeen.length + 1 = co.notSeen.length := by
  obtain ⟨hget, rfl⟩ := SortedMap.remove_eq_some_iff.mp hrem
  have hsplit := SortedMap.perm_cons_filter_ne h.sorted ((SortedMap.get_eq_some_iff h.sorted).mp hget)
  have hvalues := hsplit.map (·.2)
  refine ⟨⟨h.sorted.filter _, ?_, h.output, ?_⟩, hsplit.length_eq.symm⟩
  · -- `dt` moves from the map to the top of the stack
    have hp := h.perm
    rw [stackTransactions_cons states ht] at hp
    rw [stackTransactions_cons _ rfl, stackTransactions_cons states rfl]
    refine hp.trans ?_
    rw [List.map_cons] at hvalues
    refine ((hvalues.append_right _).append_right _).trans ?_
    exact (List.perm_middle).symm
  · intro s' hs'
    rcases List.mem_cons.mp hs' with rfl | hs'
    · rfl
    rcases List.mem_cons.mp hs' with rfl | hs'
    · rfl
    · exact h.live s' (List.mem_cons_of_mem _ hs')

/-- A state with nothing left to visit outputs its transaction and is popped. -/
theorem finish (h : SortInv V (s :: states) co done) (ht : s.transaction = some t) :
    SortInv V states { co with output := co.output ++ [t.effects] } (done ++ [t]) := by
  refine ⟨h.sorted, ?_, by rw [h.output, List.map_append, List.map_singleton], ?_⟩
  · have hp := h.perm
    rw [stackTransactions_cons states ht] at hp
    simpa using hp
  · exact fun s' hs' => h.live s' (List.mem_cons_of_mem _ hs')

/-- The entry of the least digest starts a search of its own. -/
theorem popFirst (h : SortInv V [] co done) {co' : CausalOrder E} (hp : co.popFirst = some (t, co')) :
    SortInv V [InsertState.new t] co' done ∧ co'.notSeen.length + 1 = co.notSeen.length := by
  obtain ⟨k, hco, hout⟩ := popFirst_eq_some hp
  have hsorted := h.sorted
  rw [hco] at hsorted
  refine ⟨⟨(List.pairwise_cons.mp hsorted).2, ?_, by rw [hout, h.output], ?_⟩, by rw [hco, List.length_cons]⟩
  · -- the head entry moves from the map to the stack
    have hp := h.perm
    rw [hco, stackTransactions_nil, List.append_nil, List.map_cons] at hp
    rw [stackTransactions_cons [] rfl, stackTransactions_nil]
    exact hp.trans (@List.perm_append_comm _ [t] (co'.notSeen.map (·.2) ++ done))
  · intro s' hs'
    rw [List.mem_singleton.mp hs']
    rfl

end SortInv

/-- **The search of `insert` ends within its fuel**, each round taking a
    transaction out of the map or popping a state, and keeps the invariant;
    the map only shrinks. -/
theorem insertLoop_spec : ∀ (fuel : Nat) (states : List (InsertState E)) (co : CausalOrder E)
    (done : List (TransactionDependencies E)), SortInv V states co done →
    states.length + 2 * co.notSeen.length ≤ fuel →
    ∃ co' extra, insertLoop fuel states co = some co' ∧ SortInv V [] co' (done ++ extra) ∧
      co'.notSeen.length ≤ co.notSeen.length
  | _, [], co, done, h, _ => ⟨co, [], by rw [insertLoop], by rwa [List.append_nil], Nat.le_refl _⟩
  | 0, s :: states, co, done, _, hfuel => absurd hfuel (by simp)
  | fuel + 1, s :: states, co, done, h, hfuel => by
    obtain ⟨t, ht⟩ := Option.isSome_iff_exists.mp (h.live s List.mem_cons_self)
    have hprocess : s.process co = processDependencies (some t) s.dependencies co := by
      rw [InsertState.process, ht]
    rcases processDependencies_spec t s.dependencies co with
      ⟨skipped, d, rest, dt, notSeen, -, -, hrem, hp⟩ | ⟨-, hp⟩
    case inl =>
      obtain ⟨h', hlen⟩ := h.push ht rest hrem
      obtain ⟨co', extra, hrun, h'', hlen'⟩ := insertLoop_spec fuel _ _ done h' (by
        simp only [List.length_cons] at hfuel ⊢
        omega)
      refine ⟨co', extra, ?_, h'', by simp only at hlen'; omega⟩
      simp only [insertLoop, hprocess, hp]
      exact hrun
    case inr =>
      obtain ⟨co', extra, hrun, h'', hlen'⟩ := insertLoop_spec fuel states _ _ (h.finish ht) (by
        simp only [List.length_cons] at hfuel ⊢
        omega)
      refine ⟨co', [t] ++ extra, ?_, by rwa [← List.append_assoc], hlen'⟩
      simp only [insertLoop, hprocess, hp]
      exact hrun

/-- `insert` visits the whole of a transaction's search within its fuel. -/
theorem insert_spec {co : CausalOrder E} {t : TransactionDependencies E} {done : List (TransactionDependencies E)}
    (h : SortInv V [InsertState.new t] co done) :
    ∃ co' extra, co.insert t = some co' ∧ SortInv V [] co' (done ++ extra) ∧
      co'.notSeen.length ≤ co.notSeen.length :=
  insertLoop_spec V _ _ co done h (by simp only [List.length_singleton]; omega)

/-- **The loop of `causal_sort` ends within its fuel** with the map empty,
    each round taking at least the transaction it pops out of the map. -/
theorem causalSortLoop_spec : ∀ (fuel : Nat) (co : CausalOrder E) (done : List (TransactionDependencies E)),
    SortInv V [] co done → co.notSeen.length < fuel →
    ∃ co' extra, causalSortLoop fuel co = some co' ∧ SortInv V [] co' (done ++ extra) ∧ co'.notSeen = []
  | 0, _, _, _, hfuel => absurd hfuel (Nat.not_lt_zero _)
  | fuel + 1, co, done, h, hfuel => by
    cases hpop : co.popFirst with
    | none =>
      refine ⟨co, [], ?_, by rwa [List.append_nil], popFirst_eq_none.mp hpop⟩
      simp only [causalSortLoop, hpop]
    | some r =>
      obtain ⟨item, co₁⟩ := r
      obtain ⟨h₁, hlen₁⟩ := h.popFirst hpop
      obtain ⟨co₂, extra₂, hins, h₂, hlen₂⟩ := insert_spec V h₁
      obtain ⟨co₃, extra₃, hrun, h₃, hempty⟩ := causalSortLoop_spec fuel co₂ _ h₂ (by omega)
      refine ⟨co₃, extra₂ ++ extra₃, ?_, by rwa [← List.append_assoc], hempty⟩
      simp only [causalSortLoop, hpop, hins, Option.bind_some]
      exact hrun

end Search

/-- The invariant holds of the map `from_vec` makes, before any round. -/
theorem SortInv.fromVec (effects : List E) :
    SortInv ((fromVec effects).notSeen.map (·.2)) [] (fromVec effects) [] where
  sorted := by
    rw [fromVec_notSeen]
    exact SortedMap.sorted_collect _
  perm := by simp
  output := rfl
  live := fun _ h => absurd h List.not_mem_nil

/-- **`causal_sort` returns, for every list of effects,** the effects of the
    map `from_vec` makes, each once. -/
theorem causalSort_perm (effects : List E) :
    ∃ output, causalSort effects = some output ∧
      output.Perm ((fromVec effects).notSeen.map (·.2.effects)) := by
  obtain ⟨co, extra, hrun, h, hempty⟩ := causalSortLoop_spec _ _ _ [] (SortInv.fromVec effects) (Nat.lt_succ_self _)
  refine ⟨co.output, by rw [causalSort, hrun, Option.map_some], ?_⟩
  have hp := h.perm
  rw [hempty, stackTransactions_nil, List.map_nil, List.nil_append, List.append_nil, List.nil_append] at hp
  rw [h.output, List.nil_append]
  have hmap := (hp.map (·.effects)).symm
  rwa [List.map_map] at hmap

end CausalOrder

end Mango.Core
