/-
  Mango.Narwhal.Consensus.OrderDag

  `order_dag` (`narwhal/primary/src/consensus/utils.rs`): the pre-order
  depth-first flattening of the sub-dag below a leader, cut at the leader's GC
  round and at what each origin already committed, then stably sorted by round.

  The `while let Some(x) = buffer.pop()` loop is `orderDagLoop`; it is bounded
  by a fuel argument, one unit per popped certificate. Every pushed certificate
  is new to `already_ordered`, and all of them are DAG entries below the
  leader, so `leader.round * n + 1` pops suffice.

  The main result, `orderDag_sound`, says what every flattened sub-dag is: its
  digests are distinct, it is sorted by round, the leader is its last element
  and the only one at its round, and every other element is a causal ancestor
  of the leader above the leader's GC round that its origin has not committed.
-/
import Mathlib
import Mango.Narwhal.Consensus.State
import Mango.Lib.Except

namespace Mango.Narwhal

open Mango.Lib

/-! ## Causal ancestry -/

/-- `c` is a parent of `x`: `x` names `c`'s digest among its parents. -/
def ParentOf (c x : Certificate) : Prop := c.digest ∈ x.parents

/-- `c` is a causal ancestor of `x`, or `x` itself. -/
def IsAncestor : Certificate → Certificate → Prop := Relation.ReflTransGen ParentOf

/-- Every certificate of the DAG sits at its own round and origin. -/
def Dag.KeysConsistent (dag : Dag) : Prop :=
  ∀ r a c, dag r a = some c → c.round = r ∧ c.origin = a

theorem Dag.KeysConsistent.insert {dag : Dag} (h : dag.KeysConsistent) (c : Certificate) :
    (dag.insert c).KeysConsistent := by
  intro r a x hx
  simp only [Dag.insert_apply] at hx
  split at hx
  · rename_i hra
    cases hx
    exact ⟨hra.1.symm, hra.2.symm⟩
  · exact h r a x hx

theorem Dag.KeysConsistent.retainAbove {dag : Dag} (h : dag.KeysConsistent) (g : Nat) :
    (dag.retainAbove g).KeysConsistent := by
  intro r a x hx
  simp only [Dag.retainAbove_apply] at hx
  split at hx
  · exact h r a x hx
  · cases hx

theorem Dag.KeysConsistent.empty : Dag.empty.KeysConsistent := by
  intro r a x hx
  cases hx

/-! ## The loop of `order_dag` -/

/-- The locals of `order_dag`'s loop. `buffer` is a `Vec` used as a stack; its
    top is the head of the list here. `alreadyOrdered` holds digests. -/
structure OrderDagState where
  buffer : List Certificate
  ordered : List Certificate
  alreadyOrdered : List Nat

section Loop

variable (authorities : List Nat) (dag : Dag) (lastCommitted : Nat → Option Nat)

/-- One pass of `for parent in x.header().parents()`: find the parent among the
    certificates of the previous round, and push it unless it is already ordered
    or at or below its origin's last committed round. -/
def pushParent (round : Nat) (st : OrderDagState) (parent : Nat) :
    Except Halt OrderDagState :=
  -- `x.round() - 1` underflows at round zero, and no certificate sits at `u64::MAX`.
  if round = 0 then throw (.panic .parentNotFound) else
  match (Dag.roundTable authorities dag (round - 1)).find? (·.digest == parent) with
  | none => throw (.panic .parentNotFound)
  | some c =>
    if st.alreadyOrdered.contains c.digest || (lastCommitted c.origin).any (c.round ≤ ·) then
      pure st
    else
      pure { st with buffer := c :: st.buffer, alreadyOrdered := c.digest :: st.alreadyOrdered }

/-- `while let Some(x) = buffer.pop()`, with one unit of fuel per pop. -/
def orderDagLoop (gcRound : Nat) : Nat → OrderDagState → Except Halt OrderDagState
  | 0, st => if st.buffer.isEmpty then pure st else throw .outOfFuel
  | fuel + 1, st =>
    match st.buffer with
    | [] => pure st
    | x :: rest =>
      let st := { st with buffer := rest, ordered := st.ordered ++ [x] }
      -- Parents of a certificate at `gc_round + 1` have been garbage collected.
      if x.round = gcRound + 1 then orderDagLoop gcRound fuel st
      else do
        let st ← x.parents.foldlM (pushParent authorities dag lastCommitted x.round) st
        orderDagLoop gcRound fuel st

end Loop

/-- The order of `ordered.sort_by_key(|x| x.round())`. -/
def roundLe (a b : Certificate) : Prop := a.round ≤ b.round

instance : DecidableRel roundLe := fun a b => inferInstanceAs (Decidable (a.round ≤ b.round))

instance : Std.Total roundLe := ⟨fun a b => Nat.le_total a.round b.round⟩

instance : IsTrans Certificate roundLe := ⟨fun _ _ _ => Nat.le_trans⟩

/-- `order_dag`. `sort_by_key` is a stable sort; the stable sort of a list by a
    key is unique, and insertion sort computes it. -/
def orderDag (authorities : List Nat) (leader : Certificate) (state : ConsensusState) :
    Except Halt (List Certificate) := do
  if leader.round = 0 then throw (.panic .leaderRoundZero)
  let gcRound := leader.round - state.gcDepth
  let st ← orderDagLoop authorities state.dag state.lastCommitted gcRound
    (leader.round * authorities.length + 1) ⟨[leader], [], []⟩
  return st.ordered.insertionSort roundLe

/-! ## Step lemmas -/

section Spec

variable {authorities : List Nat} {dag : Dag} {lastCommitted : Nat → Option Nat}

/-- What one parent step can do: find the parent `c` in the DAG one round below,
    and either leave the state alone or push `c` as new. -/
theorem pushParent_cases {round : Nat} {st st' : OrderDagState} {parent : Nat}
    (h : pushParent authorities dag lastCommitted round st parent = .ok st') :
    ∃ c a, 0 < round ∧ a ∈ authorities ∧ dag (round - 1) a = some c ∧ c.digest = parent ∧
      (st' = st ∨
        (c.digest ∉ st.alreadyOrdered ∧ (∀ r, lastCommitted c.origin = some r → r < c.round) ∧
          st' = { st with buffer := c :: st.buffer,
                          alreadyOrdered := c.digest :: st.alreadyOrdered })) := by
  unfold pushParent at h
  split at h
  · exact absurd h Except.throw_ne_ok
  rename_i hround
  split at h
  · exact absurd h Except.throw_ne_ok
  rename_i c hfind
  have hmem := List.mem_of_find?_eq_some hfind
  have hdig : c.digest = parent := by simpa using List.find?_some hfind
  obtain ⟨a, ha, hdag⟩ := Dag.mem_roundTable.mp hmem
  refine ⟨c, a, Nat.pos_of_ne_zero hround, ha, hdag, hdig, ?_⟩
  split at h
  · exact .inl (Except.pure_eq_ok.mp h).symm
  · rename_i hskip
    simp only [Bool.or_eq_true, List.contains_iff_mem, not_or] at hskip
    refine .inr ⟨by simpa using hskip.1, ?_, (Except.pure_eq_ok.mp h).symm⟩
    intro r hr
    have := hskip.2
    simp only [hr, Option.any_some, decide_eq_true_eq, Nat.not_le] at this
    exact this

end Spec

/-! ## The loop invariant -/

/-- What `order_dag`'s loop keeps, for the leader `L` and its GC round `g`: all
    certificates seen so far (ordered or buffered) are ancestors of `L` with
    distinct digests; each one other than `L` is a DAG entry above `g`, below
    `L`'s round, not yet committed by its origin, and recorded as ordered. -/
structure OrderDagInv (dag : Dag) (lastCommitted : Nat → Option Nat) (g : Nat) (L : Certificate)
    (st : OrderDagState) : Prop where
  ancestor : ∀ c ∈ st.ordered ++ st.buffer, IsAncestor c L
  below : ∀ c ∈ st.ordered ++ st.buffer, c ≠ L →
    dag c.round c.origin = some c ∧ g + 1 ≤ c.round ∧ c.round < L.round ∧
      (∀ r, lastCommitted c.origin = some r → r < c.round) ∧ c.digest ∈ st.alreadyOrdered
  nodup : ((st.ordered ++ st.buffer).map (·.digest)).Nodup
  leader_mem : L ∈ st.ordered ++ st.buffer
  leader_fresh : L.digest ∉ st.alreadyOrdered

/-! ## Induction over the loop -/

section Induct

variable {authorities : List Nat} {dag : Dag} {lastCommitted : Nat → Option Nat} {g : Nat}

/-- Induction over `order_dag`'s loop: a property of the loop state that survives
    every pop, and every parent push for a popped certificate that is not at the
    cut round, holds when the loop returns, and the stack is then empty. -/
theorem orderDagLoop_induct (P : OrderDagState → Prop)
    (hpop : ∀ buffer ordered done x rest, buffer = x :: rest →
      P ⟨buffer, ordered, done⟩ → P ⟨rest, ordered ++ [x], done⟩)
    (hpush : ∀ st st' x p, P st → x ∈ st.ordered → x.round ≠ g + 1 → p ∈ x.parents →
      pushParent authorities dag lastCommitted x.round st p = .ok st' → P st') :
    ∀ {fuel : Nat} {st st' : OrderDagState}, P st →
      orderDagLoop authorities dag lastCommitted g fuel st = .ok st' → P st' ∧ st'.buffer = []
  | 0, st, st', hst, h => by
    simp only [orderDagLoop] at h
    split at h
    · rename_i hb
      cases Except.pure_eq_ok.mp h
      exact ⟨hst, List.isEmpty_iff.mp hb⟩
    · exact absurd h Except.throw_ne_ok
  | fuel + 1, ⟨buffer, ordered, done⟩, st', hst, h => by
    cases buffer with
    | nil =>
      simp only [orderDagLoop, Except.pure_eq_ok] at h
      exact h ▸ ⟨hst, rfl⟩
    | cons x rest =>
      have hpopped := hpop _ ordered done x rest rfl hst
      simp only [orderDagLoop] at h
      split at h
      · exact orderDagLoop_induct P hpop hpush hpopped h
      · rename_i hxg
        obtain ⟨st2, hfold, hloop⟩ := Except.bind_eq_ok.mp h
        -- The parent pushes keep `P` and never touch `ordered`, where `x` now is.
        have hst2 : P st2 ∧ x ∈ st2.ordered :=
          foldlM_ok_inv (fun st => P st ∧ x ∈ st.ordered) _ x.parents _ st2
            ⟨hpopped, by simp⟩
            (fun p hp c c' hc hcc' => by
              refine ⟨hpush c c' x p hc.1 hc.2 hxg hp hcc', ?_⟩
              obtain ⟨-, -, -, -, -, -, rfl | ⟨-, -, rfl⟩⟩ := pushParent_cases hcc'
              · exact hc.2
              · exact hc.2)
            hfold
        exact orderDagLoop_induct P hpop hpush hst2.1 hloop

end Induct

section Sound

variable {authorities : List Nat} {dag : Dag} {lastCommitted : Nat → Option Nat}
  {g : Nat} {L : Certificate}

theorem OrderDagInv.init : OrderDagInv dag lastCommitted g L ⟨[L], [], []⟩ where
  ancestor c hc := by
    simp only [List.nil_append, List.mem_singleton] at hc
    exact hc ▸ Relation.ReflTransGen.refl
  below c hc hne := by
    simp only [List.nil_append, List.mem_singleton] at hc
    exact absurd hc hne
  nodup := by simp
  leader_mem := by simp
  leader_fresh := by simp

/-- Every certificate the loop has seen lies between `g + 1` and `L`'s round. -/
theorem OrderDagInv.round_bounds {st : OrderDagState} (hst : OrderDagInv dag lastCommitted g L st)
    (hL : g + 1 ≤ L.round) {c : Certificate} (hc : c ∈ st.ordered ++ st.buffer) :
    g + 1 ≤ c.round ∧ c.round ≤ L.round := by
  by_cases hcL : c = L
  · subst hcL
    exact ⟨hL, Nat.le_refl _⟩
  · obtain ⟨-, hg, hlt, -⟩ := hst.below c hc hcL
    exact ⟨hg, Nat.le_of_lt hlt⟩

/-- Pushing a parent of a seen certificate `x` above `g + 1` keeps the invariant.
    `hinj` is the injectivity of digests on the DAG and the leader. -/
theorem OrderDagInv.pushParent (hdag : dag.KeysConsistent)
    (hinj : ∀ c, dag c.round c.origin = some c → c.digest = L.digest → c = L)
    {x : Certificate} (hxa : IsAncestor x L) (hxr : x.round ≤ L.round) (hxg : g + 1 < x.round)
    {st st' : OrderDagState} {p : Nat} (hp : p ∈ x.parents)
    (hst : OrderDagInv dag lastCommitted g L st)
    (h : pushParent authorities dag lastCommitted x.round st p = .ok st') :
    OrderDagInv dag lastCommitted g L st' := by
  obtain ⟨c, a, -, -, hdagc, hdig, hcase⟩ := pushParent_cases h
  rcases hcase with rfl | ⟨hnew, hlc, rfl⟩
  · exact hst
  obtain ⟨hcr, hca⟩ := hdag _ _ _ hdagc
  have hdagc' : dag c.round c.origin = some c := by rw [hcr, hca]; exact hdagc
  have hcL : c ≠ L := by
    intro hcL
    have : c.round < L.round := by omega
    exact absurd (congrArg Certificate.round hcL) (Nat.ne_of_lt this)
  have hdigL : c.digest ≠ L.digest := fun he => hcL (hinj c hdagc' he)
  have hpar : ParentOf c x := by
    unfold ParentOf
    rw [hdig]
    exact hp
  have hca' : IsAncestor c L := Relation.ReflTransGen.head hpar hxa
  -- The seen certificates gain `c` in the middle: `ordered ++ c :: buffer`.
  have hmem : ∀ y, y ∈ st.ordered ++ c :: st.buffer ↔ y = c ∨ y ∈ st.ordered ++ st.buffer := by
    intro y
    simp only [List.mem_append, List.mem_cons]
    tauto
  refine ⟨?_, ?_, ?_, ?_, ?_⟩
  · intro y hy
    rcases (hmem y).mp hy with rfl | hy
    · exact hca'
    · exact hst.ancestor y hy
  · intro y hy hyL
    rcases (hmem y).mp hy with rfl | hy
    · exact ⟨hdagc', by omega, by omega, hlc, List.mem_cons_self⟩
    · obtain ⟨h1, h2, h3, h4, h5⟩ := hst.below y hy hyL
      exact ⟨h1, h2, h3, h4, List.mem_cons_of_mem _ h5⟩
  · have hfresh : c.digest ∉ (st.ordered ++ st.buffer).map (·.digest) := by
      simp only [List.mem_map, not_exists, not_and]
      intro y hy hyd
      by_cases hyL : y = L
      · exact hdigL (hyd ▸ hyL ▸ rfl)
      · exact hnew (hyd ▸ (hst.below y hy hyL).2.2.2.2)
    simp only [List.map_append, List.map_cons]
    rw [List.nodup_middle, List.nodup_cons, ← List.map_append]
    exact ⟨hfresh, hst.nodup⟩
  · exact (hmem L).mpr (.inr hst.leader_mem)
  · simp only [List.mem_cons, not_or]
    exact ⟨fun he => hdigL he.symm, hst.leader_fresh⟩

/-- Every run of the loop that returns keeps the invariant and empties the stack. -/
theorem orderDagLoop_inv (hdag : dag.KeysConsistent)
    (hinj : ∀ c, dag c.round c.origin = some c → c.digest = L.digest → c = L)
    (hL : g + 1 ≤ L.round) {fuel : Nat} {st st' : OrderDagState}
    (hst : OrderDagInv dag lastCommitted g L st)
    (h : orderDagLoop authorities dag lastCommitted g fuel st = .ok st') :
    OrderDagInv dag lastCommitted g L st' ∧ st'.buffer = [] := by
  refine orderDagLoop_induct (OrderDagInv dag lastCommitted g L) ?_ ?_ hst h
  · -- Popping `x` moves it from the stack to `ordered`: the seen list is unchanged.
    intro buffer ordered done x rest hb hst
    subst hb
    have hseen : ordered ++ [x] ++ rest = ordered ++ x :: rest := by simp
    exact ⟨hseen ▸ hst.ancestor, hseen ▸ hst.below, hseen ▸ hst.nodup,
      hseen ▸ hst.leader_mem, hst.leader_fresh⟩
  · intro st st' x p hst hx hxg hp hpush
    have hx' : x ∈ st.ordered ++ st.buffer := List.mem_append_left _ hx
    obtain ⟨hxg1, hxL⟩ := hst.round_bounds hL hx'
    exact hst.pushParent hdag hinj (hst.ancestor x hx') hxL (by omega) hp hpush

end Sound

/-! ## What `order_dag` returns -/

/-- What a flattened sub-dag of the leader `L` is: distinct digests, sorted by
    round, `L` last, and every element an ancestor of `L` above `L`'s GC round;
    every element other than `L` is a DAG entry below `L`'s round that its origin
    has not committed. -/
structure FlattenedSubDag (dag : Dag) (lastCommitted : Nat → Option Nat) (gcDepth : Nat)
    (L : Certificate) (out : List Certificate) : Prop where
  nodup : (out.map (·.digest)).Nodup
  sorted : out.Pairwise fun a b => a.round ≤ b.round
  last : out.getLast? = some L
  ancestor : ∀ c ∈ out, IsAncestor c L
  above_gc : ∀ c ∈ out, L.round - gcDepth < c.round
  below : ∀ c ∈ out, c ≠ L →
    c.round < L.round ∧ dag c.round c.origin = some c ∧
      ∀ r, lastCommitted c.origin = some r → r < c.round

/-- In a list sorted by round, an element above the round of every other element
    is the last one. -/
theorem getLast?_eq_of_pairwise_round {out : List Certificate} {L : Certificate}
    (hs : out.Pairwise fun a b => a.round ≤ b.round) (hL : L ∈ out)
    (hlt : ∀ c ∈ out, c ≠ L → c.round < L.round) : out.getLast? = some L := by
  rcases List.eq_nil_or_concat out with rfl | ⟨l, z, rfl⟩
  · cases hL
  rw [List.concat_eq_append, List.getLast?_concat]
  by_contra hz
  have hzL : z ≠ L := fun h => hz (h ▸ rfl)
  have hLl : L ∈ l := by
    rcases List.mem_append.mp (List.concat_eq_append ▸ hL) with h | h
    · exact h
    · exact absurd (List.mem_singleton.mp h).symm hzL
  have hle : L.round ≤ z.round :=
    (List.pairwise_append.mp (List.concat_eq_append ▸ hs)).2.2 L hLl z (by simp)
  have hzlt := hlt z (by simp) hzL
  omega

/-- A successful `order_dag` ran its loop from the leader alone and sorted what
    the loop ordered. -/
theorem orderDag_ok {authorities : List Nat} {s : ConsensusState} {L : Certificate}
    {out : List Certificate} (h : orderDag authorities L s = .ok out) :
    0 < L.round ∧ ∃ st, orderDagLoop authorities s.dag s.lastCommitted (L.round - s.gcDepth)
      (L.round * authorities.length + 1) ⟨[L], [], []⟩ = .ok st ∧
      out = st.ordered.insertionSort roundLe := by
  unfold orderDag at h
  split at h
  · exact absurd h Except.throw_ne_ok
  rename_i hL0
  obtain ⟨st, hloop, hout⟩ := Except.bind_eq_ok.mp h
  exact ⟨Nat.pos_of_ne_zero hL0, st, hloop, (Except.pure_eq_ok.mp hout).symm⟩

/-- What `order_dag` returns for any GC depth: the leader, and certificates of the
    DAG below the leader's round, from committee origins, that their origin has
    not committed. -/
theorem orderDag_mem {authorities : List Nat} {s : ConsensusState} {L : Certificate}
    {out : List Certificate} (hdag : s.dag.KeysConsistent)
    (h : orderDag authorities L s = .ok out) :
    L ∈ out ∧ ∀ c ∈ out, c ≠ L →
      c.origin ∈ authorities ∧ s.dag c.round c.origin = some c ∧ c.round < L.round ∧
        ∀ r, s.lastCommitted c.origin = some r → r < c.round := by
  obtain ⟨-, st, hloop, rfl⟩ := orderDag_ok h
  -- The property of one seen certificate; it does not mention the loop state.
  let Q : Certificate → Prop := fun c => c ≠ L →
    c.origin ∈ authorities ∧ s.dag c.round c.origin = some c ∧ c.round < L.round ∧
      ∀ r, s.lastCommitted c.origin = some r → r < c.round
  have hQ : ∀ c, Q c → c.round ≤ L.round := by
    intro c hc
    by_cases hcL : c = L
    · exact hcL ▸ Nat.le_refl _
    · exact Nat.le_of_lt (hc hcL).2.2.1
  obtain ⟨⟨hL, hall⟩, hbuf⟩ := orderDagLoop_induct
    (fun st => L ∈ st.ordered ++ st.buffer ∧ ∀ c ∈ st.ordered ++ st.buffer, Q c)
    (fun buffer ordered done x rest hb hst => by
      subst hb
      have hseen : ordered ++ [x] ++ rest = ordered ++ x :: rest := by simp
      exact hseen ▸ hst)
    (fun st st' x p hst hx _ _ hpush => by
      obtain ⟨c, a, hx0, ha, hdagc, -, hcase⟩ := pushParent_cases hpush
      rcases hcase with rfl | ⟨-, hlc, rfl⟩
      · exact hst
      obtain ⟨hcr, hca⟩ := hdag _ _ _ hdagc
      have hxL := hQ x (hst.2 x (List.mem_append_left _ hx))
      have hc : Q c := fun _ => ⟨hca ▸ ha, by rw [hcr, hca]; exact hdagc, by omega, hlc⟩
      constructor
      · exact List.mem_append.mpr ((List.mem_append.mp hst.1).imp id (List.mem_cons_of_mem c))
      · intro y hy
        rcases List.mem_append.mp hy with hy | hy
        · exact hst.2 y (List.mem_append_left _ hy)
        · rcases List.mem_cons.mp hy with rfl | hy
          · exact hc
          · exact hst.2 y (List.mem_append_right _ hy))
    (show L ∈ [] ++ [L] ∧ ∀ c ∈ [] ++ [L], Q c from ⟨by simp, by simp [Q]⟩) hloop
  simp only [hbuf, List.append_nil] at hL hall
  exact ⟨(List.mem_insertionSort roundLe).mpr hL,
    fun c hc => hall c ((List.mem_insertionSort roundLe).mp hc)⟩

/-- The flattening of `order_dag` with a GC depth of at least one. `hinj` is the
    injectivity of digests on the DAG and the leader. -/
theorem orderDag_sound {authorities : List Nat} {s : ConsensusState} {L : Certificate}
    {out : List Certificate} (hdag : s.dag.KeysConsistent)
    (hinj : ∀ c, s.dag c.round c.origin = some c → c.digest = L.digest → c = L)
    (hgc : 0 < s.gcDepth) (h : orderDag authorities L s = .ok out) :
    FlattenedSubDag s.dag s.lastCommitted s.gcDepth L out := by
  obtain ⟨hL0, st, hloop, hout⟩ := orderDag_ok h
  have hL : L.round - s.gcDepth + 1 ≤ L.round := by omega
  obtain ⟨hinv, hbuf⟩ := orderDagLoop_inv hdag hinj hL OrderDagInv.init hloop
  have hseen : st.ordered ++ st.buffer = st.ordered := by rw [hbuf, List.append_nil]
  have hmem : ∀ c, c ∈ out ↔ c ∈ st.ordered ++ st.buffer := by
    intro c
    rw [hout, List.mem_insertionSort, hseen]
  have hsorted : out.Pairwise fun a b => a.round ≤ b.round := by
    rw [hout]
    exact List.pairwise_insertionSort roundLe st.ordered
  have hbelow : ∀ c ∈ out, c ≠ L →
      c.round < L.round ∧ s.dag c.round c.origin = some c ∧
        ∀ r, s.lastCommitted c.origin = some r → r < c.round := by
    intro c hc hcL
    obtain ⟨h1, -, h3, h4, -⟩ := hinv.below c ((hmem c).mp hc) hcL
    exact ⟨h3, h1, h4⟩
  refine ⟨?_, hsorted, ?_, fun c hc => hinv.ancestor c ((hmem c).mp hc), ?_, hbelow⟩
  · rw [hout]
    exact (((List.perm_insertionSort roundLe st.ordered).map _).nodup_iff).mpr (hseen ▸ hinv.nodup)
  · exact getLast?_eq_of_pairwise_round hsorted ((hmem L).mpr hinv.leader_mem)
      fun c hc hcL => (hbelow c hc hcL).1
  · intro c hc
    have := (hinv.round_bounds hL ((hmem c).mp hc)).1
    omega

end Mango.Narwhal
