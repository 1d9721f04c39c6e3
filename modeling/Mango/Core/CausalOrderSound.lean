/-
  Mango.Core.CausalOrderSound

  The order `causal_sort` produces. The depth-first search of `insert` keeps
  its stack a chain (`Frames`): the transaction of each state depends on the
  one of the state above it. A dependency that a state skips, because the map
  no longer holds it, is then output already, outside the sort, or on the
  stack; on the stack it reaches the top through the chain, and the top
  depends on it, which closes a cycle. So when the dependencies have no cycle,
  a transaction is output only after all of its dependencies (`OrderInv`).

  For effects of distinct digests the dependencies of the map are those of
  `DependsOn` (`dependsIn_fromVec_iff`), and `causal_sort_orders_checkpoint`
  puts the three properties together: a permutation, the order, and one result
  for every list of the same effects. Effects of one digest are collapsed into
  the last of them; `causal_sort_keeps_last_of_digest` sorts two lists of the
  same two effects to two different results.
-/
import Mango.Core.CausalOrder

namespace Mango.Core

open Mango.Lib TransactionEffectsAPI

variable {E : Type}

namespace CausalOrder

/-- `a` depends on `b` among the transactions `V`. -/
def DependsIn (V : List (TransactionDependencies E)) (a b : Nat) : Prop :=
  ∃ t ∈ V, t.digest = a ∧ b ∈ t.dependencies ∧ b ∈ V.map (·.digest)

/-- The stack of states of `insert`, its top first, below a state whose
    transaction has digest `above`: the transaction of each state depends on
    the one above it, and each dependency it has popped is outside `V`, among
    the digests `doneKeys` output, or the one above. -/
def Frames (V : List (TransactionDependencies E)) (doneKeys : List Nat) :
    Option Nat → List (InsertState E) → Prop
  | _, [] => True
  | above, s :: states => ∃ t popped, s.transaction = some t ∧
      t.dependencies.reverse = popped ++ s.dependencies ∧
      (∀ a, above = some a → a ∈ t.dependencies) ∧
      (∀ d ∈ popped, d ∉ V.map (·.digest) ∨ d ∈ doneKeys ∨ above = some d) ∧
      Frames V doneKeys (some t.digest) states

namespace Frames

variable {V : List (TransactionDependencies E)}

/-- More digests output keep the frames. -/
theorem mono {K K' : List Nat} (hK : ∀ x ∈ K, x ∈ K') :
    ∀ {above : Option Nat} {states : List (InsertState E)}, Frames V K above states → Frames V K' above states
  | _, [], _ => trivial
  | _, _ :: _, ⟨t, popped, ht, hdeps, hchain, hpopped, hrest⟩ =>
    ⟨t, popped, ht, hdeps, hchain, fun d hd => (hpopped d hd).imp_right (Or.imp_left (hK d)), mono hK hrest⟩

/-- When the top state is output, the state below becomes the top, and the
    dependency it took from the top is done. -/
theorem finish {K : List Nat} {a : Nat} :
    ∀ {states : List (InsertState E)}, Frames V K (some a) states → Frames V (K ++ [a]) none states
  | [], _ => trivial
  | _ :: _, ⟨t, popped, ht, hdeps, _, hpopped, hrest⟩ => by
    refine ⟨t, popped, ht, hdeps, fun _ h => (nomatch h), fun d hd => ?_,
      mono (fun x hx => List.mem_append_left _ hx) hrest⟩
    rcases hpopped d hd with h | h | h
    · exact .inl h
    · exact .inr (.inl (List.mem_append_left _ h))
    · exact .inr (.inl (List.mem_append_right _ (List.mem_singleton.mpr (Option.some.inj h).symm)))

/-- **Every transaction on the stack reaches the one above the stack** by the
    chain of dependencies. -/
theorem reaches {K : List Nat} : ∀ {a : Nat} {states : List (InsertState E)}, Frames V K (some a) states →
    (∀ u ∈ stackTransactions states, u ∈ V) → a ∈ V.map (·.digest) →
    ∀ u ∈ stackTransactions states, Relation.TransGen (DependsIn V) u.digest a
  | _, [], _, _, _, _, hu => absurd hu List.not_mem_nil
  | a, _ :: states, ⟨t, _, ht, _, hchain, _, hrest⟩, hV, ha, u, hu => by
    rw [stackTransactions_cons states ht] at hu hV
    have htV : t ∈ V := hV t List.mem_cons_self
    have hdep : DependsIn V t.digest a := ⟨t, htV, rfl, hchain a rfl, ha⟩
    rcases List.mem_cons.mp hu with rfl | hu
    · exact .single hdep
    · exact (reaches hrest (fun v hv => hV v (List.mem_cons_of_mem _ hv)) (List.mem_map_of_mem htV) u hu).tail hdep

end Frames

section Search

variable (V : List (TransactionDependencies E))

/-- What each round keeps toward the order, besides `SortInv`: each entry of
    the map is under its digest, the stack is a chain of `Frames`, and each
    transaction output comes after its dependencies in `V`. -/
structure OrderInv (states : List (InsertState E)) (co : CausalOrder E)
    (done : List (TransactionDependencies E)) : Prop extends SortInv V states co done where
  digests : ∀ e ∈ co.notSeen, e.1 = e.2.digest
  frames : Frames V (done.map (·.digest)) none states
  topological : ∀ i (hi : i < done.length), ∀ d ∈ done[i].dependencies,
    d ∈ V.map (·.digest) → d ∈ (done.take i).map (·.digest)

namespace OrderInv

variable {V} {s : InsertState E} {states : List (InsertState E)} {co : CausalOrder E}
  {done : List (TransactionDependencies E)} {t : TransactionDependencies E}

/-- The transactions on the stack are transactions of `V`. -/
theorem stack_mem (h : OrderInv V states co done) : ∀ u ∈ stackTransactions states, u ∈ V :=
  fun _ hu => h.perm.mem_iff.mpr (List.mem_append_right _ hu)

/-- **A dependency skipped is done**, when the dependencies have no cycle. The
    map no longer holds it, so it is output, outside `V`, or on the stack; on
    the stack it reaches the top `t`, which depends on it: a cycle. -/
theorem skipped_done (h : OrderInv V (s :: states) co done) (ht : s.transaction = some t)
    (hacyclic : ∀ a, ¬ Relation.TransGen (DependsIn V) a a) {d : Nat} (hd : d ∈ t.dependencies)
    (hget : SortedMap.get co.notSeen d = none) : d ∉ V.map (·.digest) ∨ d ∈ done.map (·.digest) := by
  by_cases hdV : d ∈ V.map (·.digest)
  case neg => exact .inl hdV
  case pos =>
    obtain ⟨u, huV, rfl⟩ := List.mem_map.mp hdV
    have hin := h.perm.mem_iff.mp huV
    rw [stackTransactions_cons states ht] at hin
    rcases List.mem_append.mp hin with hin | hstack
    case inl =>
      rcases List.mem_append.mp hin with hmap | hdone
      case inl =>
        -- still in the map: the lookup would have found it
        obtain ⟨e, he, rfl⟩ := List.mem_map.mp hmap
        exact absurd (h.digests e he ▸ List.mem_map_of_mem he) (SortedMap.get_eq_none_iff.mp hget)
      case inr => exact .inr (List.mem_map_of_mem hdone)
    case inr =>
      exfalso
      have htV : t ∈ V := h.stack_mem t (by rw [stackTransactions_cons states ht]; exact List.mem_cons_self)
      have hdep : DependsIn V t.digest u.digest := ⟨t, htV, rfl, hd, hdV⟩
      have hreach : Relation.ReflTransGen (DependsIn V) u.digest t.digest := by
        rcases List.mem_cons.mp hstack with rfl | hu
        · exact .refl
        · obtain ⟨t', _, ht', _, _, _, hframes⟩ := h.frames
          obtain rfl : t = t' := Option.some.inj (ht.symm.trans ht')
          have hbelow : ∀ v ∈ stackTransactions states, v ∈ V := fun v hv =>
            h.stack_mem v (by rw [stackTransactions_cons states ht]; exact List.mem_cons_of_mem _ hv)
          exact (hframes.reaches hbelow (List.mem_map_of_mem htV) u hu).to_reflTransGen
      exact hacyclic _ (.head' hdep hreach)

/-- Taking a dependency out of the map pushes its state on top of the chain. -/
theorem push (h : OrderInv V (s :: states) co done) (ht : s.transaction = some t)
    (hacyclic : ∀ a, ¬ Relation.TransGen (DependsIn V) a a) {skipped rest : List Nat} {d : Nat}
    {dt : TransactionDependencies E} {notSeen : List (Nat × TransactionDependencies E)}
    (hdeps : s.dependencies = skipped ++ d :: rest) (hskip : ∀ x ∈ skipped, SortedMap.get co.notSeen x = none)
    (hrem : SortedMap.remove co.notSeen d = some (dt, notSeen)) :
    OrderInv V (InsertState.new dt :: ⟨rest, some t⟩ :: states) { co with notSeen } done := by
  obtain ⟨hget, hfilter⟩ := SortedMap.remove_eq_some_iff.mp hrem
  have hd : d = dt.digest := h.digests (d, dt) ((SortedMap.get_eq_some_iff h.sorted).mp hget)
  obtain ⟨t', popped, ht', hpop, -, hpopped, hframes⟩ := h.frames
  obtain rfl : t = t' := Option.some.inj (ht.symm.trans ht')
  have hmem : ∀ x ∈ popped ++ s.dependencies, x ∈ t.dependencies := fun x hx =>
    List.mem_reverse.mp (hpop ▸ hx)
  refine ⟨(h.toSortInv.push ht rest hrem).1, ?_, ?_, h.topological⟩
  · intro e he
    rw [hfilter] at he
    exact h.digests e (List.mem_of_mem_filter he)
  · -- the new state on top, with nothing popped yet
    refine ⟨dt, [], rfl, (List.nil_append _).symm, fun _ h => (nomatch h),
      fun _ h => absurd h List.not_mem_nil, ?_⟩
    -- `t` below it has popped what it had, the dependencies skipped, and `d`
    refine ⟨t, popped ++ skipped ++ [d], rfl, by rw [hpop, hdeps]; simp, ?_, fun x hx => ?_, hframes⟩
    · rintro a ⟨⟩
      exact hd ▸ hmem d (by rw [hdeps]; simp)
    · simp only [List.mem_append, List.mem_singleton] at hx
      rcases hx with (hx | hx) | rfl
      · rcases hpopped x hx with h' | h' | h'
        · exact .inl h'
        · exact .inr (.inl h')
        · cases h'
      · have hx' : x ∈ t.dependencies := hmem x (by rw [hdeps]; simp [hx])
        exact (h.skipped_done ht hacyclic hx' (hskip x hx)).elim .inl (.inr ∘ .inl)
      · exact .inr (.inr (by rw [hd]))

/-- A state with nothing left to visit outputs its transaction after all of
    its dependencies. -/
theorem finish (h : OrderInv V (s :: states) co done) (ht : s.transaction = some t)
    (hacyclic : ∀ a, ¬ Relation.TransGen (DependsIn V) a a)
    (hskip : ∀ x ∈ s.dependencies, SortedMap.get co.notSeen x = none) :
    OrderInv V states { co with output := co.output ++ [t.effects] } (done ++ [t]) := by
  obtain ⟨t', popped, ht', hpop, -, hpopped, hframes⟩ := h.frames
  obtain rfl : t = t' := Option.some.inj (ht.symm.trans ht')
  -- the dependencies of `t` in `V` were popped before, or skipped now: all done
  have hall : ∀ x ∈ t.dependencies, x ∈ V.map (·.digest) → x ∈ done.map (·.digest) := by
    intro x hx hxV
    have hx' : x ∈ popped ++ s.dependencies := hpop ▸ List.mem_reverse.mpr hx
    rcases List.mem_append.mp hx' with hx' | hx'
    · rcases hpopped x hx' with h' | h' | h'
      · exact absurd hxV h'
      · exact h'
      · cases h'
    · exact (h.skipped_done ht hacyclic hx (hskip x hx')).resolve_left (not_not.mpr hxV)
  refine ⟨h.toSortInv.finish ht, h.digests, by simpa using hframes.finish, ?_⟩
  intro i hi x hx hxV
  rw [List.length_append, List.length_singleton] at hi
  by_cases hlt : i < done.length
  case pos =>
    rw [List.getElem_append_left hlt] at hx
    rw [List.take_append_of_le_length (Nat.le_of_lt hlt)]
    exact h.topological i hlt x hx hxV
  case neg =>
    obtain rfl : i = done.length := by omega
    rw [List.getElem_append_right (Nat.le_refl _)] at hx
    rw [List.take_left' rfl]
    exact hall x (by simpa using hx) hxV

/-- The entry of the least digest starts a chain of its own. -/
theorem popFirst (h : OrderInv V [] co done) {co' : CausalOrder E} (hp : co.popFirst = some (t, co')) :
    OrderInv V [InsertState.new t] co' done := by
  obtain ⟨k, hco, -⟩ := popFirst_eq_some hp
  refine ⟨(h.toSortInv.popFirst hp).1, fun e he => h.digests e (by rw [hco]; exact List.mem_cons_of_mem _ he),
    ⟨t, [], rfl, (List.nil_append _).symm, fun _ h => (nomatch h),
      fun _ h => absurd h List.not_mem_nil, trivial⟩, h.topological⟩

end OrderInv

variable {V}

/-- **The search of `insert` outputs each transaction after its dependencies**
    when these have no cycle. -/
theorem insertLoop_ordered (hacyclic : ∀ a, ¬ Relation.TransGen (DependsIn V) a a) :
    ∀ (fuel : Nat) (states : List (InsertState E)) (co : CausalOrder E) (done : List (TransactionDependencies E))
      {co' : CausalOrder E}, OrderInv V states co done → insertLoop fuel states co = some co' →
      ∃ extra, OrderInv V [] co' (done ++ extra)
  | _, [], co, done, co', h, hrun => by
    rw [insertLoop, Option.some.injEq] at hrun
    subst hrun
    exact ⟨[], by rwa [List.append_nil]⟩
  | 0, _ :: _, _, _, _, _, hrun => by
    rw [insertLoop] at hrun
    cases hrun
  | fuel + 1, s :: states, co, done, co', h, hrun => by
    obtain ⟨t, ht⟩ := Option.isSome_iff_exists.mp (h.live s List.mem_cons_self)
    have hprocess : s.process co = processDependencies (some t) s.dependencies co := by
      rw [InsertState.process, ht]
    rcases processDependencies_spec t s.dependencies co with
      ⟨skipped, d, rest, dt, notSeen, hdeps, hskip, hrem, hp⟩ | ⟨hskip, hp⟩
    case inl =>
      simp only [insertLoop, hprocess, hp] at hrun
      exact insertLoop_ordered hacyclic fuel _ _ done (h.push ht hacyclic hdeps hskip hrem) hrun
    case inr =>
      simp only [insertLoop, hprocess, hp] at hrun
      obtain ⟨extra, h'⟩ := insertLoop_ordered hacyclic fuel states _ _ (h.finish ht hacyclic hskip) hrun
      exact ⟨[t] ++ extra, by rwa [← List.append_assoc]⟩

/-- **The loop of `causal_sort` outputs each transaction after its
    dependencies** when these have no cycle. -/
theorem causalSortLoop_ordered (hacyclic : ∀ a, ¬ Relation.TransGen (DependsIn V) a a) :
    ∀ (fuel : Nat) (co : CausalOrder E) (done : List (TransactionDependencies E)) {co' : CausalOrder E},
      OrderInv V [] co done → causalSortLoop fuel co = some co' →
      ∃ extra, OrderInv V [] co' (done ++ extra) ∧ co'.notSeen = []
  | 0, _, _, _, _, hrun => by
    rw [causalSortLoop] at hrun
    cases hrun
  | fuel + 1, co, done, co', h, hrun => by
    cases hpop : co.popFirst with
    | none =>
      simp only [causalSortLoop, hpop, Option.some.injEq] at hrun
      subst hrun
      exact ⟨[], by rwa [List.append_nil], popFirst_eq_none.mp hpop⟩
    | some r =>
      obtain ⟨item, co₁⟩ := r
      simp only [causalSortLoop, hpop] at hrun
      obtain ⟨co₂, hins, hrun⟩ := Option.bind_eq_some_iff.mp hrun
      obtain ⟨extra₂, h₂⟩ := insertLoop_ordered hacyclic _ _ _ _ (h.popFirst hpop) hins
      obtain ⟨extra₃, h₃, hempty⟩ := causalSortLoop_ordered hacyclic fuel co₂ _ h₂ hrun
      exact ⟨extra₂ ++ extra₃, by rwa [← List.append_assoc], hempty⟩

end Search

variable [TransactionEffectsAPI E]

/-- The order invariant holds of the map `from_vec` makes, before any round. -/
theorem OrderInv.fromVec (effects : List E) :
    OrderInv ((fromVec effects).notSeen.map (·.2)) [] (fromVec effects) [] where
  toSortInv := SortInv.fromVec effects
  digests := by
    intro e he
    rw [fromVec_notSeen] at he
    obtain ⟨x, -, rfl⟩ := List.mem_map.mp (SortedMap.mem_of_mem_collect he)
    rfl
  frames := trivial
  topological := fun _ hi => absurd hi (Nat.not_lt_zero _)

/-- **`causal_sort` outputs each transaction after its dependencies** in the
    map `from_vec` makes, when these have no cycle. -/
theorem causalSort_topological {effects output : List E}
    (hacyclic : ∀ a, ¬ Relation.TransGen (DependsIn ((fromVec effects).notSeen.map (·.2))) a a)
    (hsort : causalSort effects = some output) :
    ∃ done : List (TransactionDependencies E), ((fromVec effects).notSeen.map (·.2)).Perm done ∧
      output = done.map (·.effects) ∧
      ∀ i (hi : i < done.length), ∀ d ∈ done[i].dependencies,
        d ∈ ((fromVec effects).notSeen.map (·.2)).map (·.digest) → d ∈ (done.take i).map (·.digest) := by
  unfold causalSort at hsort
  obtain ⟨co, hrun, rfl⟩ := Option.map_eq_some_iff.mp hsort
  obtain ⟨done, h, hempty⟩ := causalSortLoop_ordered hacyclic _ _ [] (OrderInv.fromVec effects) hrun
  rw [List.nil_append] at h
  have hp := h.perm
  rw [hempty, stackTransactions_nil, List.map_nil, List.nil_append, List.append_nil] at hp
  exact ⟨done, hp, h.output, h.topological⟩

section Distinct

variable {effects : List E} (hdistinct : (effects.map transactionDigest).Nodup)
include hdistinct

/-- For effects of distinct digests, each transaction of the map is the one
    `from_effects` makes of one of them. -/
theorem mem_fromVec_values {t : TransactionDependencies E} :
    t ∈ (fromVec effects).notSeen.map (·.2) ↔
      ∃ e ∈ effects, TransactionDependencies.fromEffects e (RWLockDependencyBuilder.fromEffects effects) = t := by
  rw [(perm_fromVec_values hdistinct).mem_iff, List.mem_map]

/-- For effects of distinct digests, the transactions of the map have distinct
    digests. -/
theorem nodup_fromVec_digests : (((fromVec effects).notSeen.map (·.2)).map (·.digest)).Nodup := by
  rw [((perm_fromVec_values hdistinct).map _).nodup_iff, List.map_map]
  exact hdistinct

/-- **For effects of distinct digests, the map follows `DependsOn`**: the
    dependencies collected are those the effects list and the readers of the
    versions they overwrite, each transaction's own. -/
theorem dependsIn_fromVec_iff (a b : Nat) :
    DependsIn ((fromVec effects).notSeen.map (·.2)) a b ↔ DependsOn effects a b := by
  have hkeys : ∀ x, x ∈ ((fromVec effects).notSeen.map (·.2)).map (·.digest) ↔ x ∈ effects.map transactionDigest := by
    intro x
    simp only [List.mem_map, mem_fromVec_values hdistinct]
    constructor
    · rintro ⟨t, ⟨e, he, rfl⟩, rfl⟩
      exact ⟨e, he, rfl⟩
    · rintro ⟨e, he, rfl⟩
      exact ⟨_, ⟨e, he, rfl⟩, rfl⟩
  constructor
  · rintro ⟨t, htV, rfl, hb, hbV⟩
    obtain ⟨e, he, rfl⟩ := (mem_fromVec_values hdistinct).mp htV
    refine ⟨(hkeys b).mp hbV, e, he, rfl, ?_⟩
    rcases (TransactionDependencies.mem_fromEffects_dependencies e _ b).mp hb with hb | hb
    · exact .inl hb
    · -- the builder adds the readers of what the one transaction of this digest overwrote
      obtain ⟨e', he', hd', hrw⟩ := (RWLockDependencyBuilder.mem_addDependenciesFor_fromEffects effects _ b).mp hb
      exact .inr (List.inj_on_of_nodup_map hdistinct he' he hd' ▸ hrw)
  · rintro ⟨hbV, e, he, rfl, hb⟩
    refine ⟨_, (mem_fromVec_values hdistinct).mpr ⟨e, he, rfl⟩, rfl, ?_, (hkeys b).mpr hbV⟩
    rw [TransactionDependencies.mem_fromEffects_dependencies, RWLockDependencyBuilder.mem_addDependenciesFor_fromEffects]
    rcases hb with hb | hb
    · exact .inl hb
    · exact .inr ⟨e, he, rfl, hb⟩

end Distinct

/-! ## The order of a checkpoint -/

/-- Effects given by the three values the sort reads, as the tests of
    `causal_order.rs` build them. -/
structure ListedEffects where
  transactionDigest : Nat
  dependencies : List Nat
  inputSharedObjects : List InputSharedObject
  deriving DecidableEq, Repr

instance : TransactionEffectsAPI ListedEffects :=
  ⟨ListedEffects.transactionDigest, ListedEffects.dependencies, ListedEffects.inputSharedObjects⟩

/-- The effects of `test_causal_order`: 1 depends on 2 and 3, 2 on 3 and 4. -/
def checkpointEffects : List ListedEffects :=
  [⟨1, [2, 3], []⟩, ⟨2, [3, 4], []⟩, ⟨3, [], []⟩, ⟨4, [], []⟩]

/-- **`causal_sort` orders the effects of a checkpoint.** For effects of
    distinct digests it returns a permutation of them; when their dependencies
    (`DependsOn`) have no cycle, each transaction comes after every one of its
    dependencies; and every list of the same effects gives the same result. -/
theorem causal_sort_orders_checkpoint (effects : List E) (hdistinct : (effects.map transactionDigest).Nodup) :
    ∃ output, causalSort effects = some output ∧ output.Perm effects ∧
      ((∀ a, ¬ Relation.TransGen (DependsOn effects) a a) →
        ∀ i j (hi : i < output.length) (hj : j < output.length),
          DependsOn effects (transactionDigest output[j]) (transactionDigest output[i]) → i < j) ∧
      ∀ effects' : List E, (effects'.map transactionDigest).Nodup → (∀ e, e ∈ effects' ↔ e ∈ effects) →
        causalSort effects' = some output := by
  obtain ⟨output, hsort, hperm⟩ := causalSort_perm effects
  -- each transaction of the map is the one of its effects
  have hdigest : ∀ t ∈ (fromVec effects).notSeen.map (·.2), transactionDigest t.effects = t.digest := by
    intro t ht
    obtain ⟨e, -, rfl⟩ := (mem_fromVec_values hdistinct).mp ht
    rfl
  refine ⟨output, hsort, ?_, ?_, ?_⟩
  · have hvalues := (perm_fromVec_values hdistinct).map (·.effects)
    rw [List.map_map, List.map_map] at hvalues
    exact hperm.trans (by simpa [Function.comp_def, TransactionDependencies.fromEffects] using hvalues)
  · intro hacyclic i j hi hj hdep
    have hacyclic' : ∀ a, ¬ Relation.TransGen (DependsIn ((fromVec effects).notSeen.map (·.2))) a a :=
      fun a hc => hacyclic a (Relation.TransGen.mono (fun x y h => (dependsIn_fromVec_iff hdistinct x y).mp h) a a hc)
    obtain ⟨done, hp, rfl, htopo⟩ := causalSort_topological hacyclic' hsort
    have hdone : ∀ t ∈ done, t ∈ (fromVec effects).notSeen.map (·.2) := fun t ht => hp.mem_iff.mpr ht
    have hnodup : (done.map (·.digest)).Nodup := (hp.map _).nodup_iff.mp (nodup_fromVec_digests hdistinct)
    rw [List.length_map] at hi hj
    simp only [List.getElem_map] at hdep
    rw [hdigest _ (hdone _ (List.getElem_mem hj)), hdigest _ (hdone _ (List.getElem_mem hi))] at hdep
    obtain ⟨t, htV, htd, hdt, hkey⟩ := (dependsIn_fromVec_iff hdistinct _ _).mpr hdep
    -- the transaction depending is `done[j]`, the one of its digest
    obtain rfl : t = done[j] :=
      List.inj_on_of_nodup_map (nodup_fromVec_digests hdistinct) htV (hdone _ (List.getElem_mem hj)) htd
    obtain ⟨u, hu, hud⟩ := List.mem_map.mp (htopo j hj _ hdt hkey)
    obtain ⟨k, hk, rfl⟩ := List.mem_take_iff_getElem.mp hu
    have hki : k = i := by
      have hlen : k < done.length := by omega
      have hmap := (@List.Nodup.getElem_inj_iff _ _ hnodup k (by rw [List.length_map]; exact hlen) i
        (by rw [List.length_map]; exact hi)).mp
      exact hmap (by simpa using hud)
    omega
  · intro effects' hdistinct' hsame
    have hp : effects'.Perm effects :=
      (List.perm_ext_iff_of_nodup (hdistinct'.of_map _) (hdistinct.of_map _)).mpr hsame
    unfold causalSort
    rw [fromVec_eq_of_perm hp hdistinct']
    exact hsort

/-- `test_causal_order`, whose effects have distinct digests. -/
theorem causal_sort_orders_checkpoint_test :
    (checkpointEffects.map transactionDigest).Nodup ∧
      ∃ output, causalSort checkpointEffects = some output ∧ output.Perm checkpointEffects ∧
        ((∀ a, ¬ Relation.TransGen (DependsOn checkpointEffects) a a) →
          ∀ i j (hi : i < output.length) (hj : j < output.length),
            DependsOn checkpointEffects (transactionDigest output[j]) (transactionDigest output[i]) → i < j) ∧
        ∀ effects' : List ListedEffects, (effects'.map transactionDigest).Nodup →
          (∀ e, e ∈ effects' ↔ e ∈ checkpointEffects) → causalSort effects' = some output :=
  ⟨by decide, causal_sort_orders_checkpoint checkpointEffects (by decide)⟩

example : (causalSort checkpointEffects).map (·.map transactionDigest) = some [3, 4, 2, 1] := by decide

/-- `test_causal_order_rw_locks`: 5 and 2 read version 1 of object 1, which 3
    overwrites, so 3 comes last. -/
example : (causalSort ([⟨5, [], [.readOnly ⟨1, 1, 0⟩]⟩, ⟨2, [], [.readOnly ⟨1, 1, 0⟩]⟩,
    ⟨3, [], [.mutate ⟨1, 1, 0⟩]⟩] : List ListedEffects)).map (·.map transactionDigest) = some [2, 5, 3] := by
  decide

/-! ## Effects of one digest -/

/-- Effects of digest 1 with no dependency. -/
def plainEffects : ListedEffects := ⟨1, [], []⟩

/-- Effects of the same digest 1 that depend on 5. -/
def dependentEffects : ListedEffects := ⟨1, [5], []⟩

/-- **Effects that share a digest are sorted by their order in the list.**
    `from_vec` collects the two effects of digest 1 into the map under one
    key, the later replacing the earlier, so each of the two orders of the
    same two effects outputs only its last one. -/
theorem causal_sort_keeps_last_of_digest :
    (∀ e, e ∈ [plainEffects, dependentEffects] ↔ e ∈ [dependentEffects, plainEffects]) ∧
      causalSort [plainEffects, dependentEffects] = some [dependentEffects] ∧
      causalSort [dependentEffects, plainEffects] = some [plainEffects] :=
  ⟨fun _ => (List.Perm.swap dependentEffects plainEffects []).mem_iff, by decide, by decide⟩

end CausalOrder

end Mango.Core
