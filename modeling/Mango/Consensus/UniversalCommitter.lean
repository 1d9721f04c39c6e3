/-
  Mango.Consensus.UniversalCommitter

  The universal committer of Mysticeti (`consensus/core/src/universal_committer.rs`):
  how a validator turns the DAG in memory into a sequence of decided leaders
  with a list of base committers (several leaders a round, or pipelined
  waves). From two rounds below the highest accepted round down to the round
  of the last decided leader, each committer, last first, decides the leader
  it elects for the round: by the direct rule, or, when that leaves it
  undecided, by the indirect rule with the leaders decided so far, the ones
  above, as anchors. The search stops on reaching the last decided leader.
  The sequence returned is the decided leaders in round order up to the
  first undecided one, genesis left out.

  The committers share the validator's DAG state and committee, which the
  model carries as a field. Metrics and logs are left out, and so is the
  `Decision` (direct or indirect) that only they read.

  `tryCommit_eq_ok` says what a call returns: decided leaders in round
  order, each of a round it searched, and each the decision of one of the
  committers for the leader it elects there (`DecidedBy`). A committed
  leader block is of the elected slot and certified at the decision round
  (`DecidedBy.commit`).
-/
import Mango.Consensus.BaseCommitter

namespace Mango.Consensus

namespace Dag

open Mango.Lib

/-- `UniversalCommitter`: its committers share the DAG state and the
    committee of the validator's context. -/
structure UniversalCommitter where
  committee : Committee
  dagState : DagState
  committers : List BaseCommitter
  shared : ∀ c ∈ committers, c.committee = committee ∧ c.dagState = dagState

namespace UniversalCommitter

/-- The `for` loop over the committers at one round, given last first: the
    leaders decided so far, and whether the search reached the last decided
    leader (`break 'outer`). -/
def decideRound (fuel : Nat) (lastDecided : Slot) (round : Nat) :
    List BaseCommitter → List LeaderStatus → Except BaseCommitter.Panic (List LeaderStatus × Bool)
  | [], leaders => pure (leaders, false)
  | committer :: rest, leaders =>
    match committer.electLeader round with
    | none => decideRound fuel lastDecided round rest leaders
    | some leader =>
      if leader = lastDecided then pure (leaders, true)
      else do
        let status ← committer.tryDirectDecide fuel leader
        if status.isDecided then decideRound fuel lastDecided round rest (status :: leaders)
        else do
          -- the anchors are the leaders decided so far, front first
          let status ← committer.tryIndirectDecide fuel leader leaders
          decideRound fuel lastDecided round rest (status :: leaders)

/-- The `'outer` loop over the rounds, given highest first. -/
def decideRounds (fuel : Nat) (lastDecided : Slot) (committers : List BaseCommitter) :
    List Nat → List LeaderStatus → Except BaseCommitter.Panic (List LeaderStatus)
  | [], leaders => pure leaders
  | round :: rest, leaders => do
    let (leaders, reached) ← decideRound fuel lastDecided round committers leaders
    if reached then pure leaders else decideRounds fuel lastDecided committers rest leaders

/-- `try_commit`: the rounds are `(last_decided.round..=highest_accepted_round.saturating_sub(2)).rev()`,
    and the `VecDeque` of leaders a list with its front first. -/
def tryCommit (self : UniversalCommitter) (fuel : Nat) (lastDecided : Slot) :
    Except BaseCommitter.Panic (List LeaderStatus) := do
  let highestAcceptedRound := self.dagState.highestAcceptedRound
  let rounds := (List.range' lastDecided.round (highestAcceptedRound - 2 + 1 - lastDecided.round)).reverse
  let leaders ← decideRounds fuel lastDecided self.committers.reverse rounds []
  pure ((leaders.filter fun x => 0 < x.round).takeWhile LeaderStatus.isDecided)

/-- `get_leaders`. -/
def getLeaders (self : UniversalCommitter) (round : Nat) : List Nat :=
  (self.committers.filterMap fun committer => committer.electLeader round).map Slot.authority

/-! ## What a call returns -/

/-- `s` is what the committer `c` decides of the leader it elects at `round`,
    by the direct rule or by the indirect one. -/
def DecidedBy (fuel round : Nat) (c : BaseCommitter) (s : LeaderStatus) : Prop :=
  ∃ leader, c.electLeader round = some leader ∧
    (c.tryDirectDecide fuel leader = .ok s ∨ ∃ anchors, c.tryIndirectDecide fuel leader anchors = .ok s)

section Calls

variable {fuel : Nat} {lastDecided : Slot}

theorem DecidedBy.round {round : Nat} {c : BaseCommitter} {s : LeaderStatus} (h : DecidedBy fuel round c s) :
    s.round = round := by
  obtain ⟨leader, helect, hdirect | ⟨anchors, hindirect⟩⟩ := h
  · rw [BaseCommitter.tryDirectDecide_round hdirect, (BaseCommitter.electLeader_eq_some helect).1]
  · rw [BaseCommitter.tryIndirectDecide_round hindirect, (BaseCommitter.electLeader_eq_some helect).1]

/-- **A leader block a committer commits**, by either rule, is of the slot it
    elects and certified at the decision round of the wave. -/
theorem DecidedBy.commit {round : Nat} {c : BaseCommitter} {L : VerifiedBlock}
    (h : DecidedBy fuel round c (.commit L)) :
    ∃ leader, leader.round = round ∧ L ∈ c.dagState.getUncommittedBlocksAtSlot leader ∧
      c.CertifiedAt fuel (round + c.options.waveLength - 1) L := by
  obtain ⟨leader, helect, hdecide⟩ := h
  obtain ⟨hround, hdecision⟩ := BaseCommitter.electLeader_eq_some helect
  have hcommit : L ∈ c.dagState.getUncommittedBlocksAtSlot leader ∧
      c.CertifiedAt fuel (c.decisionRound (c.waveNumber leader.round)) L := by
    rcases hdecide with hdirect | ⟨anchors, hindirect⟩
    · exact BaseCommitter.tryDirectDecide_commit hdirect
    · exact BaseCommitter.tryIndirectDecide_commit hindirect
  rw [hround, hdecision] at hcommit
  exact ⟨leader, hround, hcommit⟩

/-- The loop over the committers puts in front of the leaders it is given
    what some of them decide of the round. -/
theorem decideRound_eq_ok {round : Nat} :
    ∀ {cs : List BaseCommitter} {leaders leaders' : List LeaderStatus} {reached : Bool},
      decideRound fuel lastDecided round cs leaders = .ok (leaders', reached) →
      ∃ new, leaders' = new ++ leaders ∧ ∀ s ∈ new, ∃ c ∈ cs, DecidedBy fuel round c s
  | [], leaders, leaders', reached, h => by
    rw [decideRound, Except.pure_eq_ok, Prod.mk.injEq] at h
    exact ⟨[], by rw [h.1, List.nil_append], by simp⟩
  | c :: rest, leaders, leaders', reached, h => by
    rw [decideRound] at h
    -- what the rest decide after the status `c` decided
    have hpush : ∀ status, DecidedBy fuel round c status →
        decideRound fuel lastDecided round rest (status :: leaders) = .ok (leaders', reached) →
        ∃ new, leaders' = new ++ leaders ∧ ∀ s ∈ new, ∃ c' ∈ c :: rest, DecidedBy fuel round c' s := by
      intro status hstatus hrest
      obtain ⟨new, rfl, hnew⟩ := decideRound_eq_ok hrest
      refine ⟨new ++ [status], by simp, fun s hs => ?_⟩
      rcases List.mem_append.mp hs with hs | hs
      · obtain ⟨c', hc', hd⟩ := hnew s hs
        exact ⟨c', List.mem_cons_of_mem c hc', hd⟩
      · rw [List.mem_singleton.mp hs]
        exact ⟨c, List.mem_cons_self, hstatus⟩
    cases helect : c.electLeader round with
    | none =>
      rw [helect] at h
      obtain ⟨new, rfl, hnew⟩ := decideRound_eq_ok h
      refine ⟨new, rfl, fun s hs => ?_⟩
      obtain ⟨c', hc', hd⟩ := hnew s hs
      exact ⟨c', List.mem_cons_of_mem c hc', hd⟩
    | some leader =>
      rw [helect] at h
      dsimp only at h
      split at h
      · -- the last decided leader: the search stops
        rw [Except.pure_eq_ok, Prod.mk.injEq] at h
        exact ⟨[], by rw [h.1, List.nil_append], by simp⟩
      obtain ⟨status, hdirect, h⟩ := Except.bind_eq_ok.mp h
      split at h
      · exact hpush status ⟨leader, helect, .inl hdirect⟩ h
      · obtain ⟨status', hindirect, h⟩ := Except.bind_eq_ok.mp h
        exact hpush status' ⟨leader, helect, .inr ⟨leaders, hindirect⟩⟩ h

/-- **The loop over the rounds keeps the leaders in round order**: each round,
    lower than the ones before, puts its decisions in front. -/
theorem decideRounds_eq_ok {cs : List BaseCommitter} :
    ∀ {rounds : List Nat} {leaders out : List LeaderStatus},
      rounds.Pairwise (· > ·) → leaders.Pairwise (·.round ≤ ·.round) →
      (∀ s ∈ leaders, ∀ r ∈ rounds, r ≤ s.round) →
      decideRounds fuel lastDecided cs rounds leaders = .ok out →
      out.Pairwise (·.round ≤ ·.round) ∧ ∀ s ∈ out, s ∈ leaders ∨ ∃ r ∈ rounds, ∃ c ∈ cs, DecidedBy fuel r c s
  | [], leaders, out, _, hsorted, _, h => by
    rw [decideRounds, Except.pure_eq_ok] at h
    subst h
    exact ⟨hsorted, fun s hs => .inl hs⟩
  | r :: rest, leaders, out, hrounds, hsorted, habove, h => by
    rw [decideRounds] at h
    obtain ⟨⟨leaders', reached⟩, hround, h⟩ := Except.bind_eq_ok.mp h
    dsimp only at h
    obtain ⟨new, rfl, hnew⟩ := decideRound_eq_ok hround
    have hnewRound : ∀ s ∈ new, s.round = r := fun s hs =>
      let ⟨_, _, hd⟩ := hnew s hs
      hd.round
    obtain ⟨hgt, hrest⟩ := List.pairwise_cons.mp hrounds
    -- the decisions of the round go in front of those of the rounds above
    have hsorted' : (new ++ leaders).Pairwise (·.round ≤ ·.round) := by
      refine List.pairwise_append.mpr ⟨List.pairwise_of_forall_mem_list fun a ha b hb => ?_, hsorted, ?_⟩
      · rw [hnewRound a ha, hnewRound b hb]
      · intro a ha b hb
        rw [hnewRound a ha]
        exact habove b hb r List.mem_cons_self
    have habove' : ∀ s ∈ new ++ leaders, ∀ r' ∈ rest, r' ≤ s.round := by
      intro s hs r' hr'
      have hlt := hgt r' hr'
      rcases List.mem_append.mp hs with hs | hs
      · rw [hnewRound s hs]
        omega
      · exact habove s hs r' (List.mem_cons_of_mem r hr')
    -- a status of the output was given, decided at this round or at a lower one
    have hlift : ∀ s ∈ new ++ leaders, s ∈ leaders ∨ ∃ r' ∈ r :: rest, ∃ c ∈ cs, DecidedBy fuel r' c s := by
      intro s hs
      rcases List.mem_append.mp hs with hs | hs
      · exact .inr ⟨r, List.mem_cons_self, hnew s hs⟩
      · exact .inl hs
    cases reached with
    | true =>
      rw [if_pos rfl, Except.pure_eq_ok] at h
      subst h
      exact ⟨hsorted', hlift⟩
    | false =>
      simp only [Bool.false_eq_true, if_false] at h
      obtain ⟨hout, hmem⟩ := decideRounds_eq_ok hrest hsorted' habove' h
      refine ⟨hout, fun s hs => ?_⟩
      rcases hmem s hs with hs | ⟨r', hr', hd⟩
      · exact hlift s hs
      · exact .inr ⟨r', List.mem_cons_of_mem r hr', hd⟩

/-- **What `try_commit` returns**: decided leaders in round order, none of
    genesis, each of a round from the last decided leader's to two below the
    highest accepted round, and each what one of the committers decides of
    the leader it elects there. -/
theorem tryCommit_eq_ok {u : UniversalCommitter} {out : List LeaderStatus}
    (h : u.tryCommit fuel lastDecided = .ok out) :
    out.Pairwise (·.round ≤ ·.round) ∧
      ∀ s ∈ out, s.isDecided = true ∧ 0 < s.round ∧ lastDecided.round ≤ s.round ∧
        s.round ≤ u.dagState.highestAcceptedRound - 2 ∧ ∃ c ∈ u.committers, DecidedBy fuel s.round c s := by
  unfold tryCommit at h
  dsimp only at h
  obtain ⟨leaders, hleaders, h⟩ := Except.bind_eq_ok.mp h
  rw [Except.pure_eq_ok] at h
  subst h
  have hrounds : (List.range' lastDecided.round
      (u.dagState.highestAcceptedRound - 2 + 1 - lastDecided.round)).reverse.Pairwise (· > ·) :=
    List.pairwise_reverse.mpr (List.pairwise_lt_range' 1)
  obtain ⟨hsorted, hmem⟩ := decideRounds_eq_ok hrounds List.Pairwise.nil (by simp) hleaders
  -- the output is a sublist of the leaders
  have hsub : ((leaders.filter fun x => 0 < x.round).takeWhile LeaderStatus.isDecided).Sublist leaders :=
    (List.takeWhile_sublist _).trans List.filter_sublist
  refine ⟨hsorted.sublist hsub, fun s hs => ?_⟩
  have hpos : 0 < s.round := by
    simpa using (List.mem_filter.mp ((List.takeWhile_sublist _).subset hs)).2
  rcases hmem s (hsub.subset hs) with hnil | ⟨r, hr, c, hc, hd⟩
  · cases hnil
  obtain rfl := hd.round
  obtain ⟨i, hi, hri⟩ := List.mem_range'.mp (List.mem_reverse.mp hr)
  exact ⟨List.mem_takeWhile_imp hs, hpos, by omega, by omega, c, List.mem_reverse.mp hc, hd⟩

/-- **A block `try_commit` commits**, under the default wave, is a block of
    its slot certified two rounds above it, in any memory that holds the
    committers' and is read with their committee. -/
theorem certified_of_mem_tryCommit {u : UniversalCommitter} {out : List LeaderStatus}
    (h : u.tryCommit fuel lastDecided = .ok out)
    (hwave : ∀ c ∈ u.committers, c.options.waveLength = defaultWaveLength) {C : BaseCommitter}
    (hcomm : u.committee = C.committee) (hsub : u.dagState.recentBlocks.entries ⊆ C.dagState.recentBlocks.entries)
    {L : VerifiedBlock} (hL : .commit L ∈ out) :
    L ∈ C.dagState.getUncommittedBlocksAtSlot L.reference.slot ∧ C.CertifiedAt fuel (L.round + 2) L := by
  obtain ⟨c, hc, hd⟩ := ((tryCommit_eq_ok h).2 _ hL).2.2.2.2
  obtain ⟨leader, -, hmem, hcert⟩ := hd.commit
  have hdecision : (LeaderStatus.commit L).round + c.options.waveLength - 1 = L.round + 2 := by
    rw [hwave c hc]
    rfl
  rw [hdecision] at hcert
  -- the committer reads the validator's memory and committee
  obtain ⟨hcommc, hdag⟩ := u.shared c hc
  have hsub' : c.dagState.recentBlocks.entries ⊆ C.dagState.recentBlocks.entries := hdag ▸ hsub
  obtain ⟨hlookup, -⟩ := DagState.mem_getUncommittedBlocksAtSlot.mp hmem
  exact ⟨DagState.mem_getUncommittedBlocksAtSlot.mpr ⟨BaseCommitter.lookup_mono hsub' hlookup, rfl⟩,
    BaseCommitter.certifiedAt_mono hsub' (hcommc.trans hcomm) hcert⟩

end Calls

end UniversalCommitter

end Dag

end Mango.Consensus
