/-
  Mango.Consensus.CommitSafety

  Why the commit rule of `base_committer.rs` is safe: the committer never
  finds two certified blocks for one leader slot, so the assertions that at
  most one block is certified never fire; a leader skipped on a blame is
  committed by neither rule, in the memory it was skipped in or in any that
  holds more blocks; and the committed sequences of `try_commit` agree.

  The argument is the one of Mysticeti. The byzantine authorities hold less
  than a third of the stake, and an honest authority has at most one block of
  a round in memory (`NoEquivocation`). With the default wave of three rounds,
  every vote a certificate of the decision round counts is a block of the
  round right after the leader round, whose first ancestor of the leader's
  slot is the leader block (`VoteAmong.vote`). Two quorums share an honest
  authority (`Committee.exists_honest_of_quorums`), whose one block of that
  round then votes for both leader blocks, so that they are one block
  (`certified_unique`); and that block cannot also be one of the blames that
  skipped the leader (`not_certified_of_blamed`). A certificate stays one in
  a memory that holds more blocks (`certifiedAt_mono`), so that two calls of
  the universal committer over memories one such DAG holds, by two
  validators or by one at two times, commit the same block of a slot
  (`tryCommit_agree`).

  The blocks in memory have their ancestors at lower rounds, as
  `accept_block` keeps them (`acceptBlock_ancestors_below`).
-/
import Mango.Consensus.UniversalCommitter
import Mango.Lib.Tally

namespace Mango.Consensus

open Mango.Lib

/-! ## Stake -/

namespace Committee

theorem sum_stake_le_totalStake (committee : Committee) (S : Finset Nat) :
    ∑ a ∈ S, committee.stake a ≤ committee.totalStake :=
  sum_getD_le_sum committee.stakes S

/-- **Two quorums share an honest authority** when the byzantine ones hold
    less than a third of the stake. -/
theorem exists_honest_of_quorums {committee : Committee} {byzantine S₁ S₂ : Finset Nat}
    (hbyz : 3 * ∑ a ∈ byzantine, committee.stake a < committee.totalStake)
    (h₁ : committee.quorumThreshold ≤ ∑ a ∈ S₁, committee.stake a)
    (h₂ : committee.quorumThreshold ≤ ∑ a ∈ S₂, committee.stake a) :
    ∃ a ∈ S₁, a ∈ S₂ ∧ a ∉ byzantine := by
  apply exists_mem_inter_not_mem committee.stake (committee.sum_stake_le_totalStake (S₁ ∪ S₂))
  -- `n + f < 2 (2n/3 + 1)` when `3f < n`
  unfold quorumThreshold at h₁ h₂
  omega

end Committee

namespace Dag

/-! ## Honest authorities -/

/-- No authority outside `byzantine` has two blocks of one round in memory. -/
def NoEquivocation (dag : DagState) (byzantine : Finset Nat) : Prop :=
  ∀ e₁ ∈ dag.recentBlocks.entries, ∀ e₂ ∈ dag.recentBlocks.entries,
    e₁.1.round = e₂.1.round → e₁.1.author = e₂.1.author → e₁.1.author ∉ byzantine → e₁.1 = e₂.1

instance (dag : DagState) (byzantine : Finset Nat) : Decidable (NoEquivocation dag byzantine) := by
  unfold NoEquivocation
  infer_instance

/-- Two blocks in memory of one round by one honest authority are one block. -/
theorem NoEquivocation.eq {dag : DagState} {byzantine : Finset Nat} (h : NoEquivocation dag byzantine)
    {v₁ v₂ : VerifiedBlock} (h₁ : dag.recentBlocks.lookup v₁.reference = some v₁)
    (h₂ : dag.recentBlocks.lookup v₂.reference = some v₂) (hround : v₁.round = v₂.round)
    (hauthor : v₁.author = v₂.author) (hhonest : v₁.author ∉ byzantine) : v₁ = v₂ := by
  have href : v₁.reference = v₂.reference :=
    h _ (AList.mem_lookup_iff.mp h₁) _ (AList.mem_lookup_iff.mp h₂) hround hauthor hhonest
  rw [href, h₂] at h₁
  exact (Option.some.inj h₁).symm

/-! ## Votes of the default wave -/

section Votes

variable {c : BaseCommitter} {fuel : Nat} {L : VerifiedBlock}

/-- With the default wave, the decision round is at most two rounds above the
    leader round. -/
theorem decisionRound_le {round : Nat} (hwave : c.options.waveLength = defaultWaveLength)
    (hoffset : c.options.roundOffset ≤ round) : c.decisionRound (c.waveNumber round) ≤ round + 2 := by
  unfold BaseCommitter.decisionRound BaseCommitter.waveNumber
  rw [hwave]
  have hdiv := Nat.div_mul_le_self (round - c.options.roundOffset) defaultWaveLength
  unfold defaultWaveLength minimumWaveLength at *
  omega

/-- A block in memory at most a round above a leader block votes for it only
    from the round right after, where its first ancestor of the slot is the
    leader block. -/
theorem isVote_round {v : VerifiedBlock} (hbelow : AncestorsBelow c.dagState.recentBlocks)
    (hv : c.dagState.recentBlocks.lookup v.reference = some v) (hle : v.round ≤ L.round + 1)
    (h : c.isVote fuel v L = .ok true) :
    v.round = L.round + 1 ∧ v.ancestors.find? (fun a => a.slot = L.reference.slot) = some L.reference := by
  rw [BaseCommitter.isVote_eq_ok_true] at h
  have hslot : L.reference.slot.round = L.round := rfl
  -- a block below the leader round supports nothing
  have hge : L.reference.slot.round ≤ v.round := by
    by_contra hlt
    rw [BaseCommitter.findSupportedBlock_of_lt (Nat.lt_of_not_le hlt)] at h
    cases h
  have hanc : ∀ a ∈ v.ancestors, a.round < v.round := hbelow _ _ hv
  cases fuel with
  | zero =>
    rw [BaseCommitter.findSupportedBlock_zero hge] at h
    exact absurd h Except.throw_ne_ok
  | succ fuel =>
    -- the ancestors are at or below the leader round: the search looks no further down
    rw [BaseCommitter.findSupportedBlock_of_le hge fun a ha => by have := hanc a ha; omega] at h
    have hfirst := Except.ok.inj h
    have hround := hanc _ (List.mem_of_find?_eq_some hfirst)
    exact ⟨by simp only [VerifiedBlock.reference_round] at hround; omega, hfirst⟩

/-- **A vote a certificate counts**, of a certificate in memory at most two
    rounds above the leader block, is a block in memory by the voter, of the
    round right after the leader block, whose first ancestor of the slot is
    the leader block. -/
theorem BaseCommitter.VoteAmong.vote {C : VerifiedBlock} {a : Nat} (hbelow : AncestorsBelow c.dagState.recentBlocks)
    (hC : c.dagState.recentBlocks.lookup C.reference = some C) (hCround : C.round ≤ L.round + 2)
    (h : c.VoteAmong fuel L C.ancestors a) :
    ∃ v, c.dagState.recentBlocks.lookup v.reference = some v ∧ v.author = a ∧ v.round = L.round + 1 ∧
      v.ancestors.find? (fun x => x.slot = L.reference.slot) = some L.reference := by
  obtain ⟨r, hr, hauthor, v, hv, hvote⟩ := h
  obtain rfl : v.reference = r := c.dagState.reference_of_lookup hv
  -- the voter's block is below the certificate
  have hlt : v.round < C.round := hbelow _ _ hC _ hr
  obtain ⟨hround, hfirst⟩ := isVote_round hbelow hv (by omega) hvote
  exact ⟨v, hv, hauthor, hround, hfirst⟩

end Votes

/-! ## Two waves of four authorities -/

/-- The leader block of round 1, by authority 0. -/
def waveLeader : VerifiedBlock := ⟨⟨1, 0, 0, []⟩, 1⟩

/-- The block of round 2 by `a` that links to the leader block. -/
def waveVote (a : Nat) : VerifiedBlock := ⟨⟨2, a, 0, [waveLeader.reference]⟩, 2⟩

/-- The block of round 3 by `a` that links to the votes of authorities 0, 1 and 2. -/
def waveCertificate (a : Nat) : VerifiedBlock :=
  ⟨⟨3, a, 0, [(waveVote 0).reference, (waveVote 1).reference, (waveVote 2).reference]⟩, 3⟩

/-- The block of round 2 by `a` with no ancestor. -/
def waveBlame (a : Nat) : VerifiedBlock := ⟨⟨2, a, 0, []⟩, 4⟩

/-- The block of round 3 by `a` that links to the blames of authorities 1, 2 and 3. -/
def waveAfterBlames (a : Nat) : VerifiedBlock :=
  ⟨⟨3, a, 0, [(waveBlame 1).reference, (waveBlame 2).reference, (waveBlame 3).reference]⟩, 5⟩

/-- Memory that has accepted the blocks in turn. -/
def recentBlocksOf (blocks : List VerifiedBlock) : RecentBlocks :=
  blocks.foldl (fun m b => m.insert b.reference b) ∅

/-- A memory of a DAG, nothing committed yet. -/
def waveDag (blocks : List VerifiedBlock) (highestAcceptedRound : Nat)
    (h : ∀ e ∈ (recentBlocksOf blocks).entries, e.2.reference = e.1) : DagState :=
  ⟨0, recentBlocksOf blocks, List.replicate 4 SortedSet.empty, none, highestAcceptedRound, h⟩

/-- Three of the four authorities vote for the leader block at round 2 and
    certify it at round 3. -/
def certifiedWave : DagState :=
  waveDag (waveLeader :: [0, 1, 2].map waveVote ++ [0, 1, 2].map waveCertificate) 3 (by decide)

/-- Authorities 1, 2 and 3 blame the leader at round 2. -/
def blamedWave : DagState :=
  waveDag (waveLeader :: [1, 2, 3].map waveBlame) 2 (by decide)

/-- The blamed wave, and a round above it. -/
def blamedWaveLater : DagState :=
  waveDag (waveLeader :: [1, 2, 3].map waveBlame ++ [0, 1, 2].map waveAfterBlames) 3 (by decide)

/-- The committer of `Context::new_for_test(4)` with the default wave, leader
    rounds 1, 4, … and authority 0 the leader of every round. -/
def waveCommitter (dag : DagState) : BaseCommitter :=
  ⟨equalCommittee, fun _ _ => 0, dag, ⟨defaultWaveLength, 0, 1⟩, le_rfl⟩

example : (waveCommitter certifiedWave).tryDirectDecide 1 ⟨1, 0⟩ = .ok (.commit waveLeader) := by decide

example : (waveCommitter blamedWave).tryDirectDecide 1 ⟨1, 0⟩ = .ok (.skip ⟨1, 0⟩) := by decide

/-! ## Safety -/

section Safety

variable {c : BaseCommitter} {byzantine : Finset Nat} {fuel : Nat} {slot : Slot}

/-- **Two leader blocks of one slot certified at a round at most two above it
    are one block.** -/
theorem certified_unique (hbelow : AncestorsBelow c.dagState.recentBlocks)
    (hequiv : NoEquivocation c.dagState byzantine)
    (hbyz : 3 * ∑ a ∈ byzantine, c.committee.stake a < c.committee.totalStake) {fuel₁ fuel₂ d₁ d₂ : Nat}
    (hd₁ : d₁ ≤ slot.round + 2) (hd₂ : d₂ ≤ slot.round + 2) {L₁ L₂ : VerifiedBlock}
    (hL₁ : L₁ ∈ c.dagState.getUncommittedBlocksAtSlot slot) (hL₂ : L₂ ∈ c.dagState.getUncommittedBlocksAtSlot slot)
    (h₁ : c.CertifiedAt fuel₁ d₁ L₁) (h₂ : c.CertifiedAt fuel₂ d₂ L₂) : L₁ = L₂ := by
  obtain ⟨hlookup₁, hslot₁⟩ := DagState.mem_getUncommittedBlocksAtSlot.mp hL₁
  obtain ⟨hlookup₂, hslot₂⟩ := DagState.mem_getUncommittedBlocksAtSlot.mp hL₂
  obtain ⟨C₁, hC₁, hround₁, S₁, hq₁, hvotes₁⟩ := h₁
  obtain ⟨C₂, hC₂, hround₂, S₂, hq₂, hvotes₂⟩ := h₂
  have hr₁ : L₁.round = slot.round := DagState.round_of_mem_getUncommittedBlocksAtSlot hL₁
  have hr₂ : L₂.round = slot.round := DagState.round_of_mem_getUncommittedBlocksAtSlot hL₂
  -- an honest authority in both quorums
  obtain ⟨a, ha₁, ha₂, hhonest⟩ := Committee.exists_honest_of_quorums hbyz hq₁ hq₂
  obtain ⟨v₁, hv₁, hauthor₁, hvr₁, hfirst₁⟩ := (hvotes₁ a ha₁).vote hbelow hC₁ (by omega)
  obtain ⟨v₂, hv₂, hauthor₂, hvr₂, hfirst₂⟩ := (hvotes₂ a ha₂).vote hbelow hC₂ (by omega)
  -- its one block of the round after the leader round votes for both
  obtain rfl : v₁ = v₂ := hequiv.eq hv₁ hv₂ (by omega) (hauthor₁.trans hauthor₂.symm) (hauthor₁ ▸ hhonest)
  rw [hslot₁] at hfirst₁
  rw [hslot₂] at hfirst₂
  have href : L₁.reference = L₂.reference := Option.some.inj (hfirst₁.symm.trans hfirst₂)
  rw [href, hlookup₂] at hlookup₁
  exact (Option.some.inj hlookup₁).symm

/-- **A leader blamed by a quorum has no block certified** at a round at most
    two above it, in any memory that holds the blames. -/
theorem not_certified_of_blamed {c₁ : BaseCommitter} (hbelow : AncestorsBelow c.dagState.recentBlocks)
    (hequiv : NoEquivocation c.dagState byzantine)
    (hbyz : 3 * ∑ a ∈ byzantine, c.committee.stake a < c.committee.totalStake)
    (hcomm : c₁.committee = c.committee)
    (hsub : c₁.dagState.recentBlocks.entries ⊆ c.dagState.recentBlocks.entries)
    (hblame : c₁.enoughLeaderBlame (slot.round + 1) slot.authority = .ok true) {d : Nat}
    (hd : d ≤ slot.round + 2) {L : VerifiedBlock} (hL : L ∈ c.dagState.getUncommittedBlocksAtSlot slot)
    (hcert : c.CertifiedAt fuel d L) : False := by
  obtain ⟨-, hslot⟩ := DagState.mem_getUncommittedBlocksAtSlot.mp hL
  obtain ⟨hround, hauthor⟩ := DagState.slot_eq_iff.mp hslot
  obtain ⟨C, hC, hCround, S, hq, hvotes⟩ := hcert
  obtain ⟨B, hB, hblames⟩ := BaseCommitter.enoughLeaderBlame_true hblame
  rw [hcomm] at hB
  -- an honest authority both blames the leader and votes for its block
  obtain ⟨a, haB, haS, hhonest⟩ := Committee.exists_honest_of_quorums hbyz hB hq
  obtain ⟨b, hb, hbround, hbauthor, hbanc⟩ := hblames a haB
  obtain ⟨v, hv, hvauthor, hvround, hfirst⟩ := (hvotes a haS).vote hbelow hC (by simp at hround; omega)
  -- the blame is in the larger memory, where it is the authority's one block of the round
  have hb' : c.dagState.recentBlocks.lookup b.reference = some b :=
    AList.mem_lookup_iff.mpr (hsub (AList.mem_lookup_iff.mp hb))
  obtain rfl : b = v :=
    hequiv.eq hb' hv (by simp at hround; omega) (hbauthor.trans hvauthor.symm) (hbauthor ▸ hhonest)
  -- and it has the leader block among its ancestors
  exact hbanc _ (List.mem_of_find?_eq_some hfirst) hauthor

/-- **Neither decision rule ever panics on more than one certified block**:
    under the default wave, with ancestors below their blocks, no honest
    equivocation and less than a third of the stake byzantine, the errors of
    the direct and of the indirect rule are never the conflicts. -/
theorem decide_never_conflicts {leader : Slot} (hwave : c.options.waveLength = defaultWaveLength)
    (hoffset : c.options.roundOffset ≤ leader.round)
    (hrounds : ∀ e ∈ c.dagState.recentBlocks.entries, ∀ x ∈ e.2.ancestors, x.round < e.2.round)
    (hequiv : NoEquivocation c.dagState byzantine)
    (hbyz : 3 * ∑ a ∈ byzantine, c.committee.stake a < c.committee.totalStake) :
    ErrorsIn (·.isConflict = false) (c.tryDirectDecide fuel leader) ∧
      ∀ leaders, ErrorsIn (·.isConflict = false) (c.tryIndirectDecide fuel leader leaders) := by
  have hbelow := c.dagState.ancestorsBelow hrounds
  have hd := decisionRound_le hwave hoffset
  constructor
  · intro e he
    by_contra hc
    obtain ⟨L₁, L₂, hne, ⟨h₁, hc₁⟩, ⟨h₂, hc₂⟩⟩ := BaseCommitter.tryDirectDecide_conflict he (by simpa using hc)
    exact hne (certified_unique hbelow hequiv hbyz hd hd h₁ h₂ hc₁ hc₂)
  · intro leaders e he
    by_contra hc
    obtain ⟨anchor, ha⟩ := BaseCommitter.tryIndirectDecide_eq_error he
    obtain ⟨L₁, L₂, hne, ⟨h₁, hc₁⟩, ⟨h₂, hc₂⟩⟩ :=
      BaseCommitter.decideLeaderFromAnchor_conflict ha (by simpa using hc)
    exact hne (certified_unique hbelow hequiv hbyz hd hd h₁ h₂ hc₁ hc₂)

theorem decide_never_conflicts_certifiedWave :
    (waveCommitter certifiedWave).options.waveLength = defaultWaveLength ∧
      (waveCommitter certifiedWave).options.roundOffset ≤ 1 ∧
      (∀ e ∈ certifiedWave.recentBlocks.entries, ∀ x ∈ e.2.ancestors, x.round < e.2.round) ∧
      NoEquivocation certifiedWave {3} ∧
      3 * ∑ a ∈ ({3} : Finset Nat), equalCommittee.stake a < equalCommittee.totalStake ∧
      ErrorsIn (·.isConflict = false) ((waveCommitter certifiedWave).tryDirectDecide 1 ⟨1, 0⟩) ∧
      ∀ leaders, ErrorsIn (·.isConflict = false) ((waveCommitter certifiedWave).tryIndirectDecide 1 ⟨1, 0⟩ leaders) :=
  ⟨rfl, by decide, by decide, by decide, by decide,
    @decide_never_conflicts (waveCommitter certifiedWave) {3} 1 ⟨1, 0⟩ rfl (by decide) (by decide) (by decide)
      (by decide)⟩

/-- **A leader the direct rule skips is committed by neither rule**, in the
    memory it was skipped in or in any that holds its blocks, for the same
    committee. -/
theorem skipped_never_committed {c₁ : BaseCommitter} {leader : Slot} {fuel₁ : Nat}
    (hskip : c₁.tryDirectDecide fuel₁ leader = .ok (.skip leader)) (hcomm : c₁.committee = c.committee)
    (hsub : c₁.dagState.recentBlocks.entries ⊆ c.dagState.recentBlocks.entries)
    (hwave : c.options.waveLength = defaultWaveLength) (hoffset : c.options.roundOffset ≤ leader.round)
    (hrounds : ∀ e ∈ c.dagState.recentBlocks.entries, ∀ x ∈ e.2.ancestors, x.round < e.2.round)
    (hequiv : NoEquivocation c.dagState byzantine)
    (hbyz : 3 * ∑ a ∈ byzantine, c.committee.stake a < c.committee.totalStake) (L : VerifiedBlock) :
    c.tryDirectDecide fuel leader ≠ .ok (.commit L) ∧
      ∀ leaders, c.tryIndirectDecide fuel leader leaders ≠ .ok (.commit L) := by
  have hbelow := c.dagState.ancestorsBelow hrounds
  have hd := decisionRound_le hwave hoffset
  have hblame := BaseCommitter.tryDirectDecide_skip hskip
  constructor
  · intro h
    obtain ⟨hL, hcert⟩ := BaseCommitter.tryDirectDecide_commit h
    exact not_certified_of_blamed hbelow hequiv hbyz hcomm hsub hblame hd hL hcert
  · intro leaders h
    obtain ⟨hL, hcert⟩ := BaseCommitter.tryIndirectDecide_commit h
    exact not_certified_of_blamed hbelow hequiv hbyz hcomm hsub hblame hd hL hcert

theorem skipped_never_committed_blamedWave :
    (waveCommitter blamedWave).tryDirectDecide 1 ⟨1, 0⟩ = .ok (.skip ⟨1, 0⟩) ∧
      blamedWave.recentBlocks.entries ⊆ blamedWaveLater.recentBlocks.entries ∧
      (∀ e ∈ blamedWaveLater.recentBlocks.entries, ∀ x ∈ e.2.ancestors, x.round < e.2.round) ∧
      NoEquivocation blamedWaveLater {3} ∧
      (waveCommitter blamedWaveLater).tryDirectDecide 1 ⟨1, 0⟩ ≠ .ok (.commit waveLeader) ∧
      ∀ leaders, (waveCommitter blamedWaveLater).tryIndirectDecide 1 ⟨1, 0⟩ leaders ≠ .ok (.commit waveLeader) :=
  ⟨by decide, by decide, by decide, by decide,
    @skipped_never_committed (waveCommitter blamedWaveLater) {3} 1 (waveCommitter blamedWave) ⟨1, 0⟩ 1
      (by decide) rfl (by decide) rfl (by decide) (by decide) (by decide) (by decide) waveLeader⟩

/-! ## Agreement -/

/-- The universal committer of the certified wave: one committer. -/
def certifiedUniversal : UniversalCommitter :=
  ⟨equalCommittee, certifiedWave, [waveCommitter certifiedWave], by
    intro c hc
    rw [List.mem_singleton.mp hc]
    exact ⟨rfl, rfl⟩⟩

example : certifiedUniversal.tryCommit 1 ⟨0, 0⟩ = .ok [.commit waveLeader] := by decide

/-- The wave in which all four authorities vote and certify. -/
def fullWave : DagState :=
  waveDag (waveLeader :: [0, 1, 2, 3].map waveVote ++ [0, 1, 2, 3].map waveCertificate) 3 (by decide)

/-- A validator that has received every vote of the full wave but only the
    certificates of authorities 1, 2 and 3. -/
def laterCertifiedWave : DagState :=
  waveDag (waveLeader :: [0, 1, 2, 3].map waveVote ++ [1, 2, 3].map waveCertificate) 3 (by decide)

/-- The universal committer of that validator. -/
def laterUniversal : UniversalCommitter :=
  ⟨equalCommittee, laterCertifiedWave, [waveCommitter laterCertifiedWave], by
    intro c hc
    rw [List.mem_singleton.mp hc]
    exact ⟨rfl, rfl⟩⟩

/-- **Agreement**: two calls of `try_commit`, by two validators or by one at
    two times, over memories that one DAG without honest equivocation holds,
    never commit two different blocks of one slot. -/
theorem tryCommit_agree {u₁ u₂ : UniversalCommitter} {dag : DagState} {fuel₁ fuel₂ : Nat} {last₁ last₂ : Slot}
    {out₁ out₂ : List LeaderStatus} (h₁ : u₁.tryCommit fuel₁ last₁ = .ok out₁)
    (h₂ : u₂.tryCommit fuel₂ last₂ = .ok out₂) (hcomm : u₁.committee = u₂.committee)
    (hsub₁ : u₁.dagState.recentBlocks.entries ⊆ dag.recentBlocks.entries)
    (hsub₂ : u₂.dagState.recentBlocks.entries ⊆ dag.recentBlocks.entries)
    (hwave₁ : ∀ c ∈ u₁.committers, c.options.waveLength = defaultWaveLength)
    (hwave₂ : ∀ c ∈ u₂.committers, c.options.waveLength = defaultWaveLength)
    (hrounds : ∀ e ∈ dag.recentBlocks.entries, ∀ x ∈ e.2.ancestors, x.round < e.2.round)
    (hequiv : NoEquivocation dag byzantine)
    (hbyz : 3 * ∑ a ∈ byzantine, u₁.committee.stake a < u₁.committee.totalStake)
    {L₁ L₂ : VerifiedBlock} (hL₁ : .commit L₁ ∈ out₁) (hL₂ : .commit L₂ ∈ out₂)
    (hslot : L₁.reference.slot = L₂.reference.slot) : L₁ = L₂ := by
  -- the one DAG, read with the shared committee
  let C : BaseCommitter := ⟨u₁.committee, fun _ _ => 0, dag, BaseCommitterOptions.default, le_rfl⟩
  -- each block is of the slot and certified two rounds above it there
  obtain ⟨hm₁, hcert₁⟩ := UniversalCommitter.certified_of_mem_tryCommit h₁ hwave₁ (C := C) rfl hsub₁ hL₁
  obtain ⟨hm₂, hcert₂⟩ := UniversalCommitter.certified_of_mem_tryCommit h₂ hwave₂ (C := C) hcomm.symm hsub₂ hL₂
  rw [← hslot] at hm₂
  have hround : L₂.round ≤ L₁.round := (congrArg Slot.round hslot).ge
  exact certified_unique (C.dagState.ancestorsBelow hrounds) hequiv hbyz le_rfl (Nat.add_le_add_right hround 2)
    hm₁ hm₂ hcert₁ hcert₂

theorem tryCommit_agree_certifiedWave :
    certifiedUniversal.tryCommit 1 ⟨0, 0⟩ = .ok [.commit waveLeader] ∧
      laterUniversal.tryCommit 1 ⟨0, 0⟩ = .ok [.commit waveLeader] ∧
      certifiedWave.recentBlocks.entries ⊆ fullWave.recentBlocks.entries ∧
      laterCertifiedWave.recentBlocks.entries ⊆ fullWave.recentBlocks.entries ∧
      (∀ e ∈ fullWave.recentBlocks.entries, ∀ x ∈ e.2.ancestors, x.round < e.2.round) ∧
      NoEquivocation fullWave {3} ∧ waveLeader = waveLeader :=
  have h₁ : certifiedUniversal.tryCommit 1 ⟨0, 0⟩ = .ok [.commit waveLeader] := by decide
  have h₂ : laterUniversal.tryCommit 1 ⟨0, 0⟩ = .ok [.commit waveLeader] := by decide
  have hsub₁ : certifiedWave.recentBlocks.entries ⊆ fullWave.recentBlocks.entries := by decide
  have hsub₂ : laterCertifiedWave.recentBlocks.entries ⊆ fullWave.recentBlocks.entries := by decide
  have hrounds : ∀ e ∈ fullWave.recentBlocks.entries, ∀ x ∈ e.2.ancestors, x.round < e.2.round := by decide
  have hequiv : NoEquivocation fullWave {3} := by decide
  have hwave₁ : ∀ c ∈ certifiedUniversal.committers, c.options.waveLength = defaultWaveLength := by decide
  have hwave₂ : ∀ c ∈ laterUniversal.committers, c.options.waveLength = defaultWaveLength := by decide
  ⟨h₁, h₂, hsub₁, hsub₂, hrounds, hequiv,
    tryCommit_agree h₁ h₂ rfl hsub₁ hsub₂ hwave₁ hwave₂ hrounds hequiv (by decide) (List.mem_singleton_self _)
      (List.mem_singleton_self _) rfl⟩

end Safety

end Dag

end Mango.Consensus
