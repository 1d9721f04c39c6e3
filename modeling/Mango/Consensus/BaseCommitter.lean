/-
  Mango.Consensus.BaseCommitter

  The commit rule of Mysticeti (`consensus/core/src/base_committer.rs` and
  `commit.rs`): how a committer decides, from the DAG in memory, whether the
  leader of a slot is committed, skipped or still undecided.

  Rounds come in waves of `wave_length` rounds: the leader round first, the
  decision round last. A block of a later round *votes* for a leader block
  when the search of its history for the slot (`find_supported_block`, first
  ancestor first, down through ancestors above the leader round) meets that
  leader block first. A block *certifies* a leader block when the authors of
  its ancestors that vote for it hold a quorum of stake. The direct rule skips
  a leader whose voting round holds a quorum of *blames* (blocks with no
  ancestor by the leader), and commits a leader block certified by a quorum of
  blocks of the decision round. The indirect rule decides a leader from the
  first committed leader at least a wave later (the anchor): the leader block
  is committed when a block of its decision round in the anchor's history
  certifies it, and skipped otherwise.

  The leader schedule is a function of the round and the leader offset: the
  weighted shuffle seeded by the round is left out. A panic is an `.error`,
  and `expect` on a block that memory does not hold is the panic
  `missingSubDag`. The recursion of `find_supported_block` has no bound in
  the code; the model runs it on fuel, and running out of it is the model's
  own `outOfFuel`, as is the walk of `ancestors_at_uncommitted_round` it
  calls. The `HashMap` of votes is a list of pairs, looked up first to last.

  Each function has its lemma: what a call that returns says about the
  blocks in memory. A vote of a block whose ancestors are all at or below the
  leader round is its first ancestor in the slot (`findSupportedBlock_of_le`);
  a certificate has a quorum of voting ancestors (`CertifiedBy`,
  `isCertificate_eq_ok`), and so does every leader block the direct or the
  indirect rule commits (`tryDirectDecide_commit`, `tryIndirectDecide_commit`);
  a skip rests on a quorum of blocks of the voting round without an ancestor
  by the leader (`tryDirectDecide_skip`, `enoughLeaderBlame_true`). Every
  panic below the decisions is a lookup's or the fuel's (`ErrorsIn`), so that
  a decision panics on more than one certified block only when two distinct
  blocks of the slot are certified (`tryDirectDecide_conflict`,
  `decideLeaderFromAnchor_conflict`).
-/
import Mango.Consensus.DagState
import Mango.Lib.Except

namespace Mango.Consensus

namespace Dag

open Mango.Lib

/-! ## Leaders and their status -/

/-- `MINIMUM_WAVE_LENGTH`. -/
def minimumWaveLength : Nat := 3

/-- `DEFAULT_WAVE_LENGTH`. -/
def defaultWaveLength : Nat := minimumWaveLength

/-- `LeaderStatus`. -/
inductive LeaderStatus
  | commit (block : VerifiedBlock)
  | skip (leader : Slot)
  | undecided (leader : Slot)
  deriving DecidableEq, Repr

namespace LeaderStatus

/-- `LeaderStatus::round`. -/
def round : LeaderStatus → Nat
  | .commit block => block.round
  | .skip leader => leader.round
  | .undecided leader => leader.round

/-- `LeaderStatus::authority`. -/
def authority : LeaderStatus → Nat
  | .commit block => block.author
  | .skip leader => leader.authority
  | .undecided leader => leader.authority

/-- `LeaderStatus::is_decided`. -/
def isDecided : LeaderStatus → Bool
  | .commit _ => true
  | .skip _ => true
  | .undecided _ => false

end LeaderStatus

/-- `BaseCommitterOptions`. -/
structure BaseCommitterOptions where
  waveLength : Nat
  leaderOffset : Nat
  roundOffset : Nat
  deriving DecidableEq, Repr

/-- `BaseCommitterOptions::default`. -/
def BaseCommitterOptions.default : BaseCommitterOptions := ⟨defaultWaveLength, 0, 0⟩

/-- `BaseCommitter`: the committee of the context, the leader schedule, the
    DAG in memory and the options, whose wave length `BaseCommitter::new`
    asserts to be at least the minimum. -/
structure BaseCommitter where
  committee : Committee
  leaderSchedule : Nat → Nat → Nat
  dagState : DagState
  options : BaseCommitterOptions
  waveLength_ge : minimumWaveLength ≤ options.waveLength

namespace BaseCommitter

/-- The panics of the committer, by what their messages name. -/
inductive Panic
  /-- A panic of the `DagState` call. -/
  | dag (e : Dag.Panic)
  /-- "We should have the whole sub-dag by now" -/
  | missingSubDag (reference : BlockRef)
  /-- "More than one certified block for {leader}" -/
  | moreThanOneCertified (leader : Slot)
  /-- "More than one certified block at wave {wave} from leader {leader_slot}" -/
  | moreThanOneCertifiedAtWave (wave : Nat) (leader : Slot)
  /-- The search of `find_supported_block` has not ended within the fuel the model gives it. -/
  | outOfFuel
  deriving DecidableEq, Repr

/-- `BaseCommitter::new`: `none` is its assertion on the wave length failing. -/
def new (committee : Committee) (leaderSchedule : Nat → Nat → Nat) (dagState : DagState)
    (options : BaseCommitterOptions) : Option BaseCommitter :=
  if h : minimumWaveLength ≤ options.waveLength then some ⟨committee, leaderSchedule, dagState, options, h⟩
  else none

variable (self : BaseCommitter)

/-! ## Waves -/

/-- `leader_round`: the first round of a wave. -/
def leaderRound (wave : Nat) : Nat := wave * self.options.waveLength + self.options.roundOffset

/-- `decision_round`: the last round of a wave. -/
def decisionRound (wave : Nat) : Nat :=
  wave * self.options.waveLength + self.options.waveLength - 1 + self.options.roundOffset

/-- `wave_number`, with `saturating_sub` as the truncated subtraction. -/
def waveNumber (round : Nat) : Nat := (round - self.options.roundOffset) / self.options.waveLength

/-- `elect_leader`: a leader for the leader round of a wave, none for another round. -/
def electLeader (round : Nat) : Option Slot :=
  let wave := self.waveNumber round
  if self.leaderRound wave ≠ round then none
  else some ⟨round, self.leaderSchedule round self.options.leaderOffset⟩

/-! ## Votes and certificates -/

/-- `get_uncommitted_block(reference).expect("We should have the whole sub-dag by now")`. -/
def getSubDagBlock (reference : BlockRef) : Except Panic VerifiedBlock :=
  match self.dagState.getUncommittedBlock reference with
  | some block => pure block
  | none => throw (.missingSubDag reference)

/-- The `for` loop of `find_supported_block` over the ancestors of a block,
    with the search of an ancestor's own history as `search`. -/
def supportedAmong (leaderSlot : Slot) (search : VerifiedBlock → Except Panic (Option BlockRef)) :
    List BlockRef → Except Panic (Option BlockRef)
  | [] => pure none
  | ancestor :: rest =>
    if ancestor.slot = leaderSlot then pure (some ancestor)
    -- weak links may point to blocks below the leader round
    else if ancestor.round ≤ leaderSlot.round then supportedAmong leaderSlot search rest
    else do
      let block ← self.getSubDagBlock ancestor
      match ← search block with
      | some support => pure (some support)
      | none => supportedAmong leaderSlot search rest

/-- `find_supported_block`: the block of the slot that `fromBlock` supports,
    the first one the search of its history meets. -/
def findSupportedBlock (leaderSlot : Slot) : Nat → VerifiedBlock → Except Panic (Option BlockRef)
  | fuel, fromBlock =>
    if fromBlock.round < leaderSlot.round then pure none
    else
      match fuel with
      | 0 => throw .outOfFuel
      | fuel + 1 => self.supportedAmong leaderSlot (findSupportedBlock leaderSlot fuel) fromBlock.ancestors

/-- `is_vote`. -/
def isVote (fuel : Nat) (potentialVote leaderBlock : VerifiedBlock) : Except Panic Bool := do
  let reference := leaderBlock.reference
  let leaderSlot := reference.slot
  let support ← self.findSupportedBlock leaderSlot fuel potentialVote
  pure (decide (support = some reference))

/-- `all_votes`: what `is_vote` said of each reference looked at. -/
abbrev VoteCache := List (BlockRef × Bool)

/-- `all_votes.get(reference)`, or else `is_vote` of the block of the
    reference, then cached. -/
def cachedIsVote (fuel : Nat) (leaderBlock : VerifiedBlock) (allVotes : VoteCache) (reference : BlockRef) :
    Except Panic (Bool × VoteCache) :=
  match allVotes.lookup reference with
  | some isVote => pure (isVote, allVotes)
  | none => do
    let potentialVote ← self.getSubDagBlock reference
    let isVote ← self.isVote fuel potentialVote leaderBlock
    pure (isVote, (reference, isVote) :: allVotes)

/-- The `for` loop of `is_certificate` over the ancestors of the potential
    certificate, with the stake of the votes counted so far. -/
def certificateLoop (fuel : Nat) (leaderBlock : VerifiedBlock) :
    StakeAggregator → VoteCache → List BlockRef → Except Panic (Bool × VoteCache)
  | _, allVotes, [] => pure (false, allVotes)
  | aggregator, allVotes, reference :: rest => do
    let (isVote, allVotes) ← self.cachedIsVote fuel leaderBlock allVotes reference
    if isVote then
      let (aggregator, reached) := aggregator.add reference.author self.committee
      if reached then pure (true, allVotes)
      else certificateLoop fuel leaderBlock aggregator allVotes rest
    else certificateLoop fuel leaderBlock aggregator allVotes rest

/-- `is_certificate`, with the cache it updates. -/
def isCertificate (fuel : Nat) (potentialCertificate leaderBlock : VerifiedBlock) (allVotes : VoteCache) :
    Except Panic (Bool × VoteCache) :=
  self.certificateLoop fuel leaderBlock StakeAggregator.new allVotes potentialCertificate.ancestors

/-! ## The direct rule -/

/-- The `for` loop of `enough_leader_blame` over the blocks of the voting round. -/
def blameLoop (leader : Nat) : StakeAggregator → List VerifiedBlock → Bool
  | _, [] => false
  | aggregator, votingBlock :: rest =>
    let voter := votingBlock.reference.author
    if votingBlock.ancestors.all fun ancestor => ancestor.author != leader then
      let (aggregator, reached) := aggregator.add voter self.committee
      if reached then true else blameLoop leader aggregator rest
    else blameLoop leader aggregator rest

/-- `enough_leader_blame`. -/
def enoughLeaderBlame (votingRound leader : Nat) : Except Panic Bool := do
  let votingBlocks ← (self.dagState.getUncommittedBlocksAtRound votingRound).mapError .dag
  pure (self.blameLoop leader StakeAggregator.new votingBlocks)

/-- The `for` loop of `enough_leader_support` over the blocks of the decision
    round; the aggregator counts an authority only once its block certifies. -/
def supportLoop (fuel : Nat) (leaderBlock : VerifiedBlock) :
    StakeAggregator → VoteCache → List VerifiedBlock → Except Panic Bool
  | _, _, [] => pure false
  | aggregator, allVotes, decisionBlock :: rest => do
    let authority := decisionBlock.reference.author
    let (isCertificate, allVotes) ← self.isCertificate fuel decisionBlock leaderBlock allVotes
    if isCertificate then
      let (aggregator, reached) := aggregator.add authority self.committee
      if reached then pure true else supportLoop fuel leaderBlock aggregator allVotes rest
    else supportLoop fuel leaderBlock aggregator allVotes rest

/-- `enough_leader_support`: first the quick rejection when all the blocks of
    the decision round together hold no quorum. -/
def enoughLeaderSupport (fuel decisionRound : Nat) (leaderBlock : VerifiedBlock) : Except Panic Bool := do
  let decisionBlocks ← (self.dagState.getUncommittedBlocksAtRound decisionRound).mapError .dag
  let totalStake := (decisionBlocks.map fun b => self.committee.stake b.author).sum
  if !self.committee.reachedQuorum totalStake then pure false
  else self.supportLoop fuel leaderBlock StakeAggregator.new [] decisionBlocks

/-- `try_direct_decide`. -/
def tryDirectDecide (fuel : Nat) (leader : Slot) : Except Panic LeaderStatus := do
  let votingRound := leader.round + 1
  if ← self.enoughLeaderBlame votingRound leader.authority then pure (.skip leader)
  else do
    let wave := self.waveNumber leader.round
    let decisionRound := self.decisionRound wave
    let leaderBlocks := self.dagState.getUncommittedBlocksAtSlot leader
    let leadersWithEnoughSupport ← leaderBlocks.filterM (self.enoughLeaderSupport fuel decisionRound)
    if leadersWithEnoughSupport.length > 1 then throw (.moreThanOneCertified leader)
    else
      match leadersWithEnoughSupport.getLast? with
      | some leaderBlock => pure (.commit leaderBlock)
      | none => pure (.undecided leader)

/-! ## The indirect rule -/

/-- `potential_certificates.iter().any(..)` over `is_certificate`, one cache
    kept across the blocks. -/
def anyCertificate (fuel : Nat) (leaderBlock : VerifiedBlock) : VoteCache → List VerifiedBlock → Except Panic Bool
  | _, [] => pure false
  | allVotes, potentialCertificate :: rest => do
    let (isCertificate, allVotes) ← self.isCertificate fuel potentialCertificate leaderBlock allVotes
    if isCertificate then pure true else anyCertificate fuel leaderBlock allVotes rest

/-- `decide_leader_from_anchor`: a leader block certified in the anchor's
    history at the decision round is committed, and the leader skipped otherwise. -/
def decideLeaderFromAnchor (fuel : Nat) (anchor : VerifiedBlock) (leaderSlot : Slot) : Except Panic LeaderStatus := do
  let leaderBlocks := self.dagState.getUncommittedBlocksAtSlot leaderSlot
  let wave := self.waveNumber leaderSlot.round
  let decisionRound := self.decisionRound wave
  let potentialCertificates ← (self.dagState.ancestorsAtUncommittedRound anchor decisionRound fuel).mapError .dag
  let certifiedLeaderBlocks ← leaderBlocks.filterM fun leaderBlock =>
    self.anyCertificate fuel leaderBlock [] potentialCertificates
  if certifiedLeaderBlocks.length > 1 then throw (.moreThanOneCertifiedAtWave wave leaderSlot)
  else
    match certifiedLeaderBlocks.getLast? with
    | some certifiedLeaderBlock => pure (.commit certifiedLeaderBlock)
    | none => pure (.skip leaderSlot)

/-- The `for` loop of `try_indirect_decide` over the anchors: the first
    committed one decides, a skipped one is passed over, and an undecided one
    stops the search. -/
def anchorLoop (fuel : Nat) (leaderSlot : Slot) : List LeaderStatus → Except Panic LeaderStatus
  | [] => pure (.undecided leaderSlot)
  | .commit anchor :: _ => self.decideLeaderFromAnchor fuel anchor leaderSlot
  | .skip _ :: rest => anchorLoop fuel leaderSlot rest
  | .undecided _ :: _ => pure (.undecided leaderSlot)

/-- `try_indirect_decide`: the anchors are the leaders at least a wave above. -/
def tryIndirectDecide (fuel : Nat) (leaderSlot : Slot) (leaders : List LeaderStatus) : Except Panic LeaderStatus :=
  self.anchorLoop fuel leaderSlot (leaders.filter fun x => leaderSlot.round + self.options.waveLength ≤ x.round)

/-! ## What each call says about memory -/

section Spec

variable {self} {fuel : Nat} {leaderSlot : Slot} {leaderBlock : VerifiedBlock}

theorem getSubDagBlock_eq_ok {reference : BlockRef} {block : VerifiedBlock} :
    self.getSubDagBlock reference = .ok block ↔ self.dagState.recentBlocks.lookup reference = some block := by
  unfold getSubDagBlock DagState.getUncommittedBlock
  cases self.dagState.recentBlocks.lookup reference <;> simp [Except.pure_eq_ok]

/-- Among ancestors none of which is above the leader round, the search
    returns the first one of the slot and looks no further down. -/
theorem supportedAmong_of_le {search : VerifiedBlock → Except Panic (Option BlockRef)} :
    ∀ {l : List BlockRef}, (∀ a ∈ l, a.round ≤ leaderSlot.round) →
      self.supportedAmong leaderSlot search l = .ok (l.find? fun a => a.slot = leaderSlot)
  | [], _ => rfl
  | a :: rest, h => by
    have hrest : self.supportedAmong leaderSlot search rest = .ok (rest.find? fun a => a.slot = leaderSlot) :=
      supportedAmong_of_le fun x hx => h x (List.mem_cons_of_mem a hx)
    by_cases hs : a.slot = leaderSlot
    · rw [supportedAmong, if_pos hs, List.find?_cons_of_pos (by simpa using hs)]
      rfl
    · rw [supportedAmong, if_neg hs, if_pos (h a List.mem_cons_self), hrest,
        List.find?_cons_of_neg (by simpa using hs)]

theorem findSupportedBlock_of_lt {fromBlock : VerifiedBlock} (h : fromBlock.round < leaderSlot.round) :
    self.findSupportedBlock leaderSlot fuel fromBlock = .ok none := by
  rw [findSupportedBlock.eq_def]
  simp only [if_pos h]
  rfl

theorem findSupportedBlock_zero {fromBlock : VerifiedBlock} (hge : leaderSlot.round ≤ fromBlock.round) :
    self.findSupportedBlock leaderSlot 0 fromBlock = throw .outOfFuel := by
  rw [findSupportedBlock.eq_def]
  simp only [if_neg (Nat.not_lt.mpr hge)]

theorem findSupportedBlock_succ {fromBlock : VerifiedBlock} (hge : leaderSlot.round ≤ fromBlock.round) :
    self.findSupportedBlock leaderSlot (fuel + 1) fromBlock =
      self.supportedAmong leaderSlot (self.findSupportedBlock leaderSlot fuel) fromBlock.ancestors := by
  rw [findSupportedBlock.eq_def]
  simp only [if_neg (Nat.not_lt.mpr hge)]

/-- A block whose ancestors are all at or below the leader round supports its
    first ancestor of the slot. -/
theorem findSupportedBlock_of_le {fromBlock : VerifiedBlock} (hge : leaderSlot.round ≤ fromBlock.round)
    (h : ∀ a ∈ fromBlock.ancestors, a.round ≤ leaderSlot.round) :
    self.findSupportedBlock leaderSlot (fuel + 1) fromBlock =
      .ok (fromBlock.ancestors.find? fun a => a.slot = leaderSlot) := by
  rw [findSupportedBlock_succ hge]
  exact supportedAmong_of_le h

theorem isVote_eq_ok_true {potentialVote : VerifiedBlock} :
    self.isVote fuel potentialVote leaderBlock = .ok true ↔
      self.findSupportedBlock leaderBlock.reference.slot fuel potentialVote = .ok (some leaderBlock.reference) := by
  unfold isVote
  rw [Except.bind_eq_ok]
  constructor
  · rintro ⟨support, hs, hv⟩
    rw [Except.pure_eq_ok, decide_eq_true_iff] at hv
    rwa [← hv]
  · intro h
    exact ⟨_, h, by rw [Except.pure_eq_ok, decide_eq_true_iff]⟩

/-! ### The cache of votes -/

/-- Every answer in the cache is what `is_vote` says of the block in memory
    under its reference. -/
def VotesCorrect (fuel : Nat) (leaderBlock : VerifiedBlock) (allVotes : VoteCache) : Prop :=
  ∀ r b, allVotes.lookup r = some b →
    ∃ v, self.dagState.recentBlocks.lookup r = some v ∧ self.isVote fuel v leaderBlock = .ok b

theorem votesCorrect_nil : self.VotesCorrect fuel leaderBlock [] := by
  intro r b h
  cases h

/-- A vote read from the cache or worked out is what `is_vote` says of the
    block, and the cache stays correct. -/
theorem cachedIsVote_eq_ok {allVotes allVotes' : VoteCache} {reference : BlockRef} {b : Bool}
    (hc : self.VotesCorrect fuel leaderBlock allVotes)
    (h : self.cachedIsVote fuel leaderBlock allVotes reference = .ok (b, allVotes')) :
    (∃ v, self.dagState.recentBlocks.lookup reference = some v ∧ self.isVote fuel v leaderBlock = .ok b) ∧
      self.VotesCorrect fuel leaderBlock allVotes' := by
  unfold cachedIsVote at h
  cases hl : allVotes.lookup reference with
  | some b' =>
    rw [hl, Except.pure_eq_ok, Prod.mk.injEq] at h
    obtain ⟨rfl, rfl⟩ := h
    exact ⟨hc reference b' hl, hc⟩
  | none =>
    rw [hl] at h
    obtain ⟨v, hv, h⟩ := Except.bind_eq_ok.mp h
    obtain ⟨b', hb', h⟩ := Except.bind_eq_ok.mp h
    rw [Except.pure_eq_ok, Prod.mk.injEq] at h
    obtain ⟨rfl, rfl⟩ := h
    have hlookup := getSubDagBlock_eq_ok.mp hv
    refine ⟨⟨v, hlookup, hb'⟩, ?_⟩
    -- the new answer is looked up first
    intro r b h
    rw [List.lookup_cons] at h
    by_cases hr : r = reference
    · subst hr
      simp at h
      exact h ▸ ⟨v, hlookup, hb'⟩
    · have hne : (r == reference) = false := by simpa using hr
      rw [hne] at h
      exact hc r b h

/-! ### Certificates -/

/-- `a` is the author of a reference among `P` whose block in memory votes
    for the leader block. -/
def VoteAmong (fuel : Nat) (leaderBlock : VerifiedBlock) (P : List BlockRef) (a : Nat) : Prop :=
  ∃ r ∈ P, r.author = a ∧ ∃ v, self.dagState.recentBlocks.lookup r = some v ∧ self.isVote fuel v leaderBlock = .ok true

/-- What a certificate rests on: the authors `S` of ancestors of `C` whose
    blocks vote for the leader block hold a quorum. -/
structure CertifiedBy (fuel : Nat) (C leaderBlock : VerifiedBlock) (S : Finset Nat) : Prop where
  quorum : self.committee.quorumThreshold ≤ ∑ a ∈ S, self.committee.stake a
  votes : ∀ a ∈ S, self.VoteAmong fuel leaderBlock C.ancestors a

/-- A block in memory of round `round` certifies the leader block. -/
def CertifiedAt (fuel round : Nat) (leaderBlock : VerifiedBlock) : Prop :=
  ∃ C, self.dagState.recentBlocks.lookup C.reference = some C ∧ C.round = round ∧
    ∃ S, self.CertifiedBy fuel C leaderBlock S

/-- An aggregator after a vote counts the voter too. -/
theorem counts_of_add {aggregator aggregator' : StakeAggregator} {S : Finset Nat} {vote : Nat} {reached : Bool}
    (hcount : aggregator.Counts self.committee S) (hadd : aggregator.add vote self.committee = (aggregator', reached)) :
    aggregator'.Counts self.committee (insert vote S) := by
  have h := hcount.add vote
  rwa [hadd] at h

/-- An aggregator that reports a quorum has counted one. -/
theorem quorum_of_add {aggregator aggregator' : StakeAggregator} {S : Finset Nat} {vote : Nat}
    (hcount : aggregator.Counts self.committee S) (hadd : aggregator.add vote self.committee = (aggregator', true)) :
    self.committee.quorumThreshold ≤ ∑ a ∈ insert vote S, self.committee.stake a := by
  have hreached : self.committee.reachedQuorum aggregator'.stake = true := by
    have h : (aggregator.add vote self.committee).2 =
        self.committee.reachedQuorum (aggregator.add vote self.committee).1.stake := StakeAggregator.add_snd
    rw [hadd] at h
    exact h.symm
  rw [← (counts_of_add hcount hadd).stake_eq]
  exact of_decide_eq_true hreached

/-- The loop over the ancestors of a potential certificate keeps the cache
    correct, and reports a certificate only once the authors of the votes it
    counted hold a quorum; `P` holds the references it is given. -/
theorem certificateLoop_eq_ok {P : List BlockRef} :
    ∀ {l : List BlockRef} {aggregator : StakeAggregator} {S : Finset Nat} {allVotes allVotes' : VoteCache} {b : Bool},
      aggregator.Counts self.committee S → (∀ a ∈ S, self.VoteAmong fuel leaderBlock P a) → l ⊆ P →
      self.VotesCorrect fuel leaderBlock allVotes →
      self.certificateLoop fuel leaderBlock aggregator allVotes l = .ok (b, allVotes') →
      self.VotesCorrect fuel leaderBlock allVotes' ∧
        (b = true → ∃ S', self.committee.quorumThreshold ≤ ∑ a ∈ S', self.committee.stake a ∧
          ∀ a ∈ S', self.VoteAmong fuel leaderBlock P a)
  | [], _, _, _, _, _, _, _, _, hc, h => by
    rw [certificateLoop, Except.pure_eq_ok, Prod.mk.injEq] at h
    obtain ⟨rfl, rfl⟩ := h
    exact ⟨hc, fun h => by cases h⟩
  | reference :: rest, aggregator, S, allVotes, allVotes', b, hcount, hS, hsub, hc, h => by
    rw [certificateLoop] at h
    obtain ⟨⟨isVote, allVotes₁⟩, hcached, h⟩ := Except.bind_eq_ok.mp h
    obtain ⟨⟨v, hv, hvote⟩, hc₁⟩ := cachedIsVote_eq_ok hc hcached
    have hrest : rest ⊆ P := fun x hx => hsub (List.mem_cons_of_mem _ hx)
    cases isVote with
    | false => exact certificateLoop_eq_ok hcount hS hrest hc₁ h
    | true =>
      -- the vote counts its author, whose reference is one of `P`
      have hvoter : self.VoteAmong fuel leaderBlock P reference.author :=
        ⟨reference, hsub List.mem_cons_self, rfl, v, hv, hvote⟩
      have hS' : ∀ a ∈ insert reference.author S, self.VoteAmong fuel leaderBlock P a :=
        (Finset.forall_mem_insert _ _ _).mpr ⟨hvoter, hS⟩
      generalize hadd : aggregator.add reference.author self.committee = added at h
      obtain ⟨aggregator', reached⟩ := added
      have hcount' := counts_of_add hcount hadd
      cases reached with
      | true =>
        simp only [if_true, Except.pure_eq_ok, Prod.mk.injEq] at h
        obtain ⟨rfl, rfl⟩ := h
        exact ⟨hc₁, fun _ => ⟨_, quorum_of_add hcount hadd, hS'⟩⟩
      | false =>
        simp only [if_true, Bool.false_eq_true, if_false] at h
        exact certificateLoop_eq_ok hcount' hS' hrest hc₁ h

/-- `is_certificate` keeps the cache correct, and a certificate it reports
    rests on a quorum of votes among the ancestors. -/
theorem isCertificate_eq_ok {C : VerifiedBlock} {allVotes allVotes' : VoteCache} {b : Bool}
    (hc : self.VotesCorrect fuel leaderBlock allVotes)
    (h : self.isCertificate fuel C leaderBlock allVotes = .ok (b, allVotes')) :
    self.VotesCorrect fuel leaderBlock allVotes' ∧ (b = true → ∃ S, self.CertifiedBy fuel C leaderBlock S) := by
  obtain ⟨hc', hcert⟩ := certificateLoop_eq_ok (P := C.ancestors) (StakeAggregator.counts_new self.committee)
    (fun _ ha => absurd ha (Finset.notMem_empty _)) (fun _ hx => hx) hc h
  refine ⟨hc', fun hb => ?_⟩
  obtain ⟨S, hq, hvotes⟩ := hcert hb
  exact ⟨S, hq, hvotes⟩

/-- A leader block the loop over the decision round finds supported has a
    certificate among the blocks it went through. -/
theorem supportLoop_true :
    ∀ {blocks : List VerifiedBlock} {aggregator : StakeAggregator} {allVotes : VoteCache},
      self.VotesCorrect fuel leaderBlock allVotes →
      self.supportLoop fuel leaderBlock aggregator allVotes blocks = .ok true →
      ∃ C ∈ blocks, ∃ S, self.CertifiedBy fuel C leaderBlock S
  | [], _, _, _, h => by
    rw [supportLoop, Except.pure_eq_ok] at h
    cases h
  | C :: rest, aggregator, allVotes, hc, h => by
    rw [supportLoop] at h
    obtain ⟨⟨isCert, allVotes₁⟩, hcert, h⟩ := Except.bind_eq_ok.mp h
    obtain ⟨hc₁, hS⟩ := isCertificate_eq_ok hc hcert
    cases isCert with
    | false =>
      simp only [Bool.false_eq_true, if_false] at h
      obtain ⟨C', hC', hS'⟩ := supportLoop_true hc₁ h
      exact ⟨C', List.mem_cons_of_mem C hC', hS'⟩
    | true => exact ⟨C, List.mem_cons_self, hS rfl⟩

/-- **A leader block with enough support has a certificate** in memory at the
    decision round. -/
theorem enoughLeaderSupport_true {decisionRound : Nat}
    (h : self.enoughLeaderSupport fuel decisionRound leaderBlock = .ok true) :
    self.CertifiedAt fuel decisionRound leaderBlock := by
  unfold enoughLeaderSupport at h
  obtain ⟨blocks, hblocks, h⟩ := Except.bind_eq_ok.mp h
  rw [Except.mapError_eq_ok] at hblocks
  -- the quick rejection returns `false`
  by_cases hq : self.committee.reachedQuorum (blocks.map fun b => self.committee.stake b.author).sum = true
  · simp only [hq, Bool.not_true, Bool.false_eq_true, if_false] at h
    obtain ⟨C, hC, hS⟩ := supportLoop_true votesCorrect_nil h
    obtain ⟨hlookup, hround⟩ := (DagState.mem_getUncommittedBlocksAtRound hblocks).mp hC
    exact ⟨C, hlookup, hround, hS⟩
  · simp [hq] at h

/-- A potential certificate the indirect rule accepts is a certificate. -/
theorem anyCertificate_true :
    ∀ {certificates : List VerifiedBlock} {allVotes : VoteCache},
      self.VotesCorrect fuel leaderBlock allVotes →
      self.anyCertificate fuel leaderBlock allVotes certificates = .ok true →
      ∃ C ∈ certificates, ∃ S, self.CertifiedBy fuel C leaderBlock S
  | [], _, _, h => by
    rw [anyCertificate, Except.pure_eq_ok] at h
    cases h
  | C :: rest, allVotes, hc, h => by
    rw [anyCertificate] at h
    obtain ⟨⟨isCert, allVotes₁⟩, hcert, h⟩ := Except.bind_eq_ok.mp h
    obtain ⟨hc₁, hS⟩ := isCertificate_eq_ok hc hcert
    cases isCert with
    | false =>
      simp only [Bool.false_eq_true, if_false] at h
      obtain ⟨C', hC', hS'⟩ := anyCertificate_true hc₁ h
      exact ⟨C', List.mem_cons_of_mem C hC', hS'⟩
    | true => exact ⟨C, List.mem_cons_self, hS rfl⟩

/-! ### Blames -/

/-- `b` blames the leader: none of its ancestors is by the leader. -/
theorem all_bne_iff {b : VerifiedBlock} {leader : Nat} :
    (b.ancestors.all fun ancestor => ancestor.author != leader) = true ↔ ∀ x ∈ b.ancestors, x.author ≠ leader := by
  simp

/-- The loop over the voting round reports a blame only once the authors of
    the blames it counted hold a quorum; `P` holds the blocks it is given. -/
theorem blameLoop_true {leader : Nat} {P : List VerifiedBlock} :
    ∀ {blocks : List VerifiedBlock} {aggregator : StakeAggregator} {S : Finset Nat},
      aggregator.Counts self.committee S →
      (∀ a ∈ S, ∃ b ∈ P, b.author = a ∧ ∀ x ∈ b.ancestors, x.author ≠ leader) → blocks ⊆ P →
      self.blameLoop leader aggregator blocks = true →
      ∃ S', self.committee.quorumThreshold ≤ ∑ a ∈ S', self.committee.stake a ∧
        ∀ a ∈ S', ∃ b ∈ P, b.author = a ∧ ∀ x ∈ b.ancestors, x.author ≠ leader
  | [], _, _, _, _, _, h => by
    rw [blameLoop] at h
    cases h
  | b :: rest, aggregator, S, hcount, hS, hsub, h => by
    have hrest : rest ⊆ P := fun x hx => hsub (List.mem_cons_of_mem _ hx)
    simp only [blameLoop] at h
    by_cases hblame : (b.ancestors.all fun ancestor => ancestor.author != leader) = true
    · -- the blame counts its author
      rw [if_pos hblame] at h
      have hS' : ∀ a ∈ insert b.author S, ∃ b' ∈ P, b'.author = a ∧ ∀ x ∈ b'.ancestors, x.author ≠ leader :=
        (Finset.forall_mem_insert _ _ _).mpr ⟨⟨b, hsub List.mem_cons_self, rfl, all_bne_iff.mp hblame⟩, hS⟩
      generalize hadd : aggregator.add b.reference.author self.committee = added at h
      obtain ⟨aggregator', reached⟩ := added
      have hcount' := counts_of_add hcount hadd
      cases reached with
      | true => exact ⟨_, quorum_of_add hcount hadd, hS'⟩
      | false =>
        simp only [Bool.false_eq_true, if_false] at h
        exact blameLoop_true hcount' hS' hrest h
    · rw [if_neg hblame] at h
      exact blameLoop_true hcount hS hrest h

/-- **A blamed leader has a quorum of blames**: blocks in memory of the voting
    round, none of whose ancestors is by the leader. -/
theorem enoughLeaderBlame_true {votingRound leader : Nat} (h : self.enoughLeaderBlame votingRound leader = .ok true) :
    ∃ S, self.committee.quorumThreshold ≤ ∑ a ∈ S, self.committee.stake a ∧
      ∀ a ∈ S, ∃ b, self.dagState.recentBlocks.lookup b.reference = some b ∧ b.round = votingRound ∧
        b.author = a ∧ ∀ x ∈ b.ancestors, x.author ≠ leader := by
  unfold enoughLeaderBlame at h
  obtain ⟨blocks, hblocks, h⟩ := Except.bind_eq_ok.mp h
  rw [Except.mapError_eq_ok] at hblocks
  rw [Except.pure_eq_ok] at h
  obtain ⟨S, hq, hS⟩ := blameLoop_true (P := blocks) (StakeAggregator.counts_new self.committee)
    (fun _ ha => absurd ha (Finset.notMem_empty _)) (fun _ hx => hx) h
  refine ⟨S, hq, fun a ha => ?_⟩
  obtain ⟨b, hb, hauthor, hanc⟩ := hS a ha
  obtain ⟨hlookup, hround⟩ := (DagState.mem_getUncommittedBlocksAtRound hblocks).mp hb
  exact ⟨b, hlookup, hround, hauthor, hanc⟩

/-! ### The decisions -/

/-- What the direct rule decides: a skip on a blame, and otherwise a block of
    the slot that the filter on support kept, or nothing. -/
theorem tryDirectDecide_eq_ok {leader : Slot} {status : LeaderStatus}
    (h : self.tryDirectDecide fuel leader = .ok status) :
    (self.enoughLeaderBlame (leader.round + 1) leader.authority = .ok true ∧ status = .skip leader) ∨
      ∃ supported, (self.dagState.getUncommittedBlocksAtSlot leader).filterM
          (self.enoughLeaderSupport fuel (self.decisionRound (self.waveNumber leader.round))) = .ok supported ∧
        ((∃ L ∈ supported, status = .commit L) ∨ status = .undecided leader) := by
  unfold tryDirectDecide at h
  obtain ⟨blamed, hblamed, h⟩ := Except.bind_eq_ok.mp h
  cases blamed with
  | true => exact .inl ⟨hblamed, (Except.pure_eq_ok.mp h).symm⟩
  | false =>
    simp only [Bool.false_eq_true, if_false] at h
    obtain ⟨supported, hsupported, h⟩ := Except.bind_eq_ok.mp h
    refine .inr ⟨supported, hsupported, ?_⟩
    split at h
    · exact absurd h Except.throw_ne_ok
    · cases hlast : supported.getLast? with
      | some L =>
        rw [hlast, Except.pure_eq_ok] at h
        exact .inl ⟨L, List.mem_of_getLast? hlast, h.symm⟩
      | none =>
        rw [hlast, Except.pure_eq_ok] at h
        exact .inr h.symm

/-- **A leader the direct rule skips is blamed** by a quorum of its voting round. -/
theorem tryDirectDecide_skip {leader s : Slot} (h : self.tryDirectDecide fuel leader = .ok (.skip s)) :
    self.enoughLeaderBlame (leader.round + 1) leader.authority = .ok true := by
  rcases tryDirectDecide_eq_ok h with ⟨hblame, -⟩ | ⟨_, _, ⟨_, _, hL⟩ | hL⟩ <;> first | exact hblame | cases hL

/-- **A leader block the direct rule commits is of the slot, and certified at
    the decision round.** -/
theorem tryDirectDecide_commit {leader : Slot} {L : VerifiedBlock}
    (h : self.tryDirectDecide fuel leader = .ok (.commit L)) :
    L ∈ self.dagState.getUncommittedBlocksAtSlot leader ∧
      self.CertifiedAt fuel (self.decisionRound (self.waveNumber leader.round)) L := by
  rcases tryDirectDecide_eq_ok h with ⟨-, hL⟩ | ⟨supported, hsupported, ⟨L', hL', hL⟩ | hL⟩
  · cases hL
  · cases hL
    obtain ⟨hsub, hp⟩ := filterM_ok hsupported
    exact ⟨hsub.subset hL', enoughLeaderSupport_true (hp _ hL')⟩
  · cases hL

/-- What the indirect rule decides from an anchor: a skip, or a block of the
    slot certified at the decision round by a block of the anchor's history. -/
theorem decideLeaderFromAnchor_eq_ok {anchor : VerifiedBlock} {status : LeaderStatus}
    (h : self.decideLeaderFromAnchor fuel anchor leaderSlot = .ok status) :
    status = .skip leaderSlot ∨ ∃ L, status = .commit L ∧ L ∈ self.dagState.getUncommittedBlocksAtSlot leaderSlot ∧
      self.CertifiedAt fuel (self.decisionRound (self.waveNumber leaderSlot.round)) L := by
  unfold decideLeaderFromAnchor at h
  obtain ⟨certificates, hcertificates, h⟩ := Except.bind_eq_ok.mp h
  rw [Except.mapError_eq_ok] at hcertificates
  obtain ⟨certified, hcertified, h⟩ := Except.bind_eq_ok.mp h
  split at h
  · exact absurd h Except.throw_ne_ok
  · cases hlast : certified.getLast? with
    | none =>
      rw [hlast, Except.pure_eq_ok] at h
      exact .inl h.symm
    | some L =>
      rw [hlast, Except.pure_eq_ok] at h
      obtain ⟨hsub, hp⟩ := filterM_ok hcertified
      have hmem := List.mem_of_getLast? hlast
      -- the certificate is among the anchor's ancestors of the decision round
      obtain ⟨C, hC, hS⟩ := anyCertificate_true votesCorrect_nil (hp _ hmem)
      obtain ⟨hlookup, hround⟩ := mem_ancestorsAtUncommittedRound hcertificates hC
      exact .inr ⟨L, h.symm, hsub.subset hmem, C, hlookup, hround, hS⟩

theorem decideLeaderFromAnchor_commit {anchor L : VerifiedBlock}
    (h : self.decideLeaderFromAnchor fuel anchor leaderSlot = .ok (.commit L)) :
    L ∈ self.dagState.getUncommittedBlocksAtSlot leaderSlot ∧
      self.CertifiedAt fuel (self.decisionRound (self.waveNumber leaderSlot.round)) L := by
  rcases decideLeaderFromAnchor_eq_ok h with h | ⟨L', hL', hmem, hcert⟩
  · cases h
  · cases hL'
    exact ⟨hmem, hcert⟩

/-- The loop over the anchors ends undecided or in the decision from one anchor. -/
theorem anchorLoop_cases :
    ∀ anchors : List LeaderStatus, self.anchorLoop fuel leaderSlot anchors = pure (.undecided leaderSlot) ∨
      ∃ anchor, self.anchorLoop fuel leaderSlot anchors = self.decideLeaderFromAnchor fuel anchor leaderSlot
  | [] => .inl rfl
  | .commit anchor :: _ => .inr ⟨anchor, rfl⟩
  | .skip _ :: rest => by
    rw [anchorLoop]
    exact anchorLoop_cases rest
  | .undecided _ :: _ => .inl rfl

/-- **A leader block the indirect rule commits is of the slot, and certified
    at the decision round.** -/
theorem tryIndirectDecide_commit {leaders : List LeaderStatus} {L : VerifiedBlock}
    (h : self.tryIndirectDecide fuel leaderSlot leaders = .ok (.commit L)) :
    L ∈ self.dagState.getUncommittedBlocksAtSlot leaderSlot ∧
      self.CertifiedAt fuel (self.decisionRound (self.waveNumber leaderSlot.round)) L := by
  unfold tryIndirectDecide at h
  rcases @anchorLoop_cases self fuel leaderSlot _ with hloop | ⟨anchor, hloop⟩
  · rw [hloop, Except.pure_eq_ok] at h
    cases h
  · rw [hloop] at h
    exact decideLeaderFromAnchor_commit h

/-- The direct rule decides of the leader's own round. -/
theorem tryDirectDecide_round {leader : Slot} {status : LeaderStatus}
    (h : self.tryDirectDecide fuel leader = .ok status) : status.round = leader.round := by
  rcases tryDirectDecide_eq_ok h with ⟨-, rfl⟩ | ⟨supported, hsupported, ⟨L, hL, rfl⟩ | rfl⟩
  · rfl
  · exact DagState.round_of_mem_getUncommittedBlocksAtSlot ((filterM_ok hsupported).1.subset hL)
  · rfl

/-- So does the indirect rule. -/
theorem tryIndirectDecide_round {leaders : List LeaderStatus} {status : LeaderStatus}
    (h : self.tryIndirectDecide fuel leaderSlot leaders = .ok status) : status.round = leaderSlot.round := by
  unfold tryIndirectDecide at h
  rcases @anchorLoop_cases self fuel leaderSlot _ with hloop | ⟨anchor, hloop⟩
  · rw [hloop, Except.pure_eq_ok] at h
    subst h
    rfl
  · rw [hloop] at h
    rcases decideLeaderFromAnchor_eq_ok h with rfl | ⟨L, rfl, hmem, -⟩
    · rfl
    · exact DagState.round_of_mem_getUncommittedBlocksAtSlot hmem

/-- A leader is elected only at the first round of a wave, whose decision
    round is the wave's last. -/
theorem electLeader_eq_some {round : Nat} {leader : Slot} (h : self.electLeader round = some leader) :
    leader.round = round ∧ self.decisionRound (self.waveNumber round) = round + self.options.waveLength - 1 := by
  unfold electLeader at h
  dsimp only at h
  split at h
  · cases h
  · rename_i hlead
    cases h
    refine ⟨rfl, ?_⟩
    have hwave := self.waveLength_ge
    unfold minimumWaveLength at hwave
    unfold leaderRound at hlead
    unfold decisionRound
    generalize self.waveNumber round * self.options.waveLength = p at *
    omega

/-! ### Conflicts -/

/-- The two panics of a slot with more than one certified leader block. -/
def Panic.isConflict : Panic → Bool
  | .moreThanOneCertified _ => true
  | .moreThanOneCertifiedAtWave _ _ => true
  | _ => false

theorem getSubDagBlock_noConflict (reference : BlockRef) :
    ErrorsIn (·.isConflict = false) (self.getSubDagBlock reference) := by
  unfold getSubDagBlock
  split
  · exact .pure _
  · exact .throw rfl

theorem supportedAmong_noConflict {search : VerifiedBlock → Except Panic (Option BlockRef)}
    (hsearch : ∀ block, ErrorsIn (·.isConflict = false) (search block)) :
    ∀ l, ErrorsIn (·.isConflict = false) (self.supportedAmong leaderSlot search l)
  | [] => .pure _
  | ancestor :: rest => by
    rw [supportedAmong]
    split
    · exact .pure _
    split
    · exact supportedAmong_noConflict hsearch rest
    refine .bind (getSubDagBlock_noConflict ancestor) fun block _ => .bind (hsearch block) fun support _ => ?_
    cases support with
    | some _ => exact .pure _
    | none => exact supportedAmong_noConflict hsearch rest

/-- The search of a block's history panics only on a missing block or out of fuel. -/
theorem findSupportedBlock_noConflict (fuel : Nat) :
    ∀ fromBlock, ErrorsIn (·.isConflict = false) (self.findSupportedBlock leaderSlot fuel fromBlock) := by
  induction fuel with
  | zero =>
    intro fromBlock
    by_cases h : fromBlock.round < leaderSlot.round
    · rw [findSupportedBlock_of_lt h]
      exact .ok _
    · rw [findSupportedBlock_zero (Nat.not_lt.mp h)]
      exact .throw rfl
  | succ fuel ih =>
    intro fromBlock
    by_cases h : fromBlock.round < leaderSlot.round
    · rw [findSupportedBlock_of_lt h]
      exact .ok _
    · rw [findSupportedBlock_succ (Nat.not_lt.mp h)]
      exact supportedAmong_noConflict ih _

theorem cachedIsVote_noConflict (allVotes : VoteCache) (reference : BlockRef) :
    ErrorsIn (·.isConflict = false) (self.cachedIsVote fuel leaderBlock allVotes reference) := by
  unfold cachedIsVote isVote
  split
  · exact .pure _
  · exact .bind (getSubDagBlock_noConflict reference) fun _ _ =>
      .bind (.bind (findSupportedBlock_noConflict fuel _) fun _ _ => .pure _) fun _ _ => .pure _

theorem certificateLoop_noConflict :
    ∀ (aggregator : StakeAggregator) (allVotes : VoteCache) (l : List BlockRef),
      ErrorsIn (·.isConflict = false) (self.certificateLoop fuel leaderBlock aggregator allVotes l)
  | _, _, [] => .pure _
  | aggregator, allVotes, reference :: rest => by
    rw [certificateLoop]
    refine .bind (cachedIsVote_noConflict allVotes reference) ?_
    rintro ⟨isVote, allVotes₁⟩ -
    dsimp only
    split
    · split
      · exact .pure _
      · exact certificateLoop_noConflict _ _ rest
    · exact certificateLoop_noConflict _ _ rest

theorem supportLoop_noConflict :
    ∀ (aggregator : StakeAggregator) (allVotes : VoteCache) (blocks : List VerifiedBlock),
      ErrorsIn (·.isConflict = false) (self.supportLoop fuel leaderBlock aggregator allVotes blocks)
  | _, _, [] => .pure _
  | aggregator, allVotes, C :: rest => by
    rw [supportLoop]
    refine .bind (certificateLoop_noConflict _ _ _) ?_
    rintro ⟨isCert, allVotes₁⟩ -
    dsimp only
    split
    · split
      · exact .pure _
      · exact supportLoop_noConflict _ _ rest
    · exact supportLoop_noConflict _ _ rest

theorem enoughLeaderSupport_noConflict (decisionRound : Nat) (leaderBlock : VerifiedBlock) :
    ErrorsIn (·.isConflict = false) (self.enoughLeaderSupport fuel decisionRound leaderBlock) := by
  unfold enoughLeaderSupport
  refine .bind (.mapError fun _ => rfl) fun _ _ => ?_
  dsimp only
  split
  · exact .pure _
  · exact supportLoop_noConflict _ _ _

theorem enoughLeaderBlame_noConflict (votingRound leader : Nat) :
    ErrorsIn (·.isConflict = false) (self.enoughLeaderBlame votingRound leader) :=
  .bind (.mapError fun _ => rfl) fun _ _ => .pure _

theorem anyCertificate_noConflict :
    ∀ (allVotes : VoteCache) (certificates : List VerifiedBlock),
      ErrorsIn (·.isConflict = false) (self.anyCertificate fuel leaderBlock allVotes certificates)
  | _, [] => .pure _
  | allVotes, C :: rest => by
    rw [anyCertificate]
    refine .bind (certificateLoop_noConflict _ _ _) ?_
    rintro ⟨isCert, allVotes₁⟩ -
    dsimp only
    split
    · exact .pure _
    · exact anyCertificate_noConflict _ rest

/-- **The direct rule panics on a conflict only with two distinct leader
    blocks of the slot, each certified at the decision round.** -/
theorem tryDirectDecide_conflict {leader : Slot} {e : Panic} (h : self.tryDirectDecide fuel leader = .error e)
    (hc : e.isConflict = true) :
    ∃ L₁ L₂, L₁ ≠ L₂ ∧
      (L₁ ∈ self.dagState.getUncommittedBlocksAtSlot leader ∧
        self.CertifiedAt fuel (self.decisionRound (self.waveNumber leader.round)) L₁) ∧
      (L₂ ∈ self.dagState.getUncommittedBlocksAtSlot leader ∧
        self.CertifiedAt fuel (self.decisionRound (self.waveNumber leader.round)) L₂) := by
  unfold tryDirectDecide at h
  rcases Except.bind_eq_error.mp h with hb | ⟨blamed, -, h⟩
  · exact absurd (enoughLeaderBlame_noConflict _ _ e hb) (by simp [hc])
  cases blamed with
  | true => exact absurd h Except.pure_ne_error
  | false =>
    simp only [Bool.false_eq_true, if_false] at h
    rcases Except.bind_eq_error.mp h with hf | ⟨supported, hf, h⟩
    · exact absurd (ErrorsIn.filterM (fun _ => enoughLeaderSupport_noConflict _ _) _ e hf) (by simp [hc])
    split at h
    · -- the panic: two blocks of the slot passed the filter
      obtain ⟨L₁, L₂, hne, ⟨h₁, hs₁⟩, ⟨h₂, hs₂⟩⟩ :=
        filterM_ok_two (DagState.nodup_getUncommittedBlocksAtSlot _ _) hf (by omega)
      exact ⟨L₁, L₂, hne, ⟨h₁, enoughLeaderSupport_true hs₁⟩, ⟨h₂, enoughLeaderSupport_true hs₂⟩⟩
    · split at h <;> exact absurd h Except.pure_ne_error

/-- **The indirect rule panics on a conflict only with two distinct leader
    blocks of the slot, each certified at the decision round.** -/
theorem decideLeaderFromAnchor_conflict {anchor : VerifiedBlock} {e : Panic}
    (h : self.decideLeaderFromAnchor fuel anchor leaderSlot = .error e) (hc : e.isConflict = true) :
    ∃ L₁ L₂, L₁ ≠ L₂ ∧
      (L₁ ∈ self.dagState.getUncommittedBlocksAtSlot leaderSlot ∧
        self.CertifiedAt fuel (self.decisionRound (self.waveNumber leaderSlot.round)) L₁) ∧
      (L₂ ∈ self.dagState.getUncommittedBlocksAtSlot leaderSlot ∧
        self.CertifiedAt fuel (self.decisionRound (self.waveNumber leaderSlot.round)) L₂) := by
  unfold decideLeaderFromAnchor at h
  rcases Except.bind_eq_error.mp h with hb | ⟨certificates, hcertificates, h⟩
  · exact absurd (ErrorsIn.mapError (Q := (·.isConflict = false)) (fun _ => rfl) e hb) (by simp [hc])
  rw [Except.mapError_eq_ok] at hcertificates
  rcases Except.bind_eq_error.mp h with hf | ⟨certified, hf, h⟩
  · exact absurd (ErrorsIn.filterM (fun _ => anyCertificate_noConflict _ _) _ e hf) (by simp [hc])
  -- a certified block of the slot is certified at a block of the anchor's history
  have hcert : ∀ L, self.anyCertificate fuel L [] certificates = .ok true →
      self.CertifiedAt fuel (self.decisionRound (self.waveNumber leaderSlot.round)) L := by
    intro L hL
    obtain ⟨C, hC, hS⟩ := anyCertificate_true votesCorrect_nil hL
    obtain ⟨hlookup, hround⟩ := mem_ancestorsAtUncommittedRound hcertificates hC
    exact ⟨C, hlookup, hround, hS⟩
  split at h
  · obtain ⟨L₁, L₂, hne, ⟨h₁, hs₁⟩, ⟨h₂, hs₂⟩⟩ :=
      filterM_ok_two (DagState.nodup_getUncommittedBlocksAtSlot _ _) hf (by omega)
    exact ⟨L₁, L₂, hne, ⟨h₁, hcert L₁ hs₁⟩, ⟨h₂, hcert L₂ hs₂⟩⟩
  · split at h <;> exact absurd h Except.pure_ne_error

/-- The indirect rule ends in a panic only through the decision from an anchor. -/
theorem tryIndirectDecide_eq_error {leaders : List LeaderStatus} {e : Panic}
    (h : self.tryIndirectDecide fuel leaderSlot leaders = .error e) :
    ∃ anchor, self.decideLeaderFromAnchor fuel anchor leaderSlot = .error e := by
  unfold tryIndirectDecide at h
  rcases @anchorLoop_cases self fuel leaderSlot _ with hloop | ⟨anchor, hloop⟩
  · rw [hloop] at h
    exact absurd h Except.pure_ne_error
  · rw [hloop] at h
    exact ⟨anchor, h⟩

/-! ### Memory that grows

What a committer finds in memory it finds again in any memory holding
those blocks: lookups, votes and certificates only depend on blocks that
are there. -/

section Grow

variable {c₁ c₂ : BaseCommitter} (hsub : c₁.dagState.recentBlocks.entries ⊆ c₂.dagState.recentBlocks.entries)
include hsub

theorem lookup_mono {r : BlockRef} {b : VerifiedBlock} (h : c₁.dagState.recentBlocks.lookup r = some b) :
    c₂.dagState.recentBlocks.lookup r = some b :=
  AList.mem_lookup_iff.mpr (hsub (AList.mem_lookup_iff.mp h))

theorem supportedAmong_mono {search₁ search₂ : VerifiedBlock → Except Panic (Option BlockRef)}
    (hsearch : ∀ b x, search₁ b = .ok x → search₂ b = .ok x) :
    ∀ {l : List BlockRef} {x : Option BlockRef}, c₁.supportedAmong leaderSlot search₁ l = .ok x →
      c₂.supportedAmong leaderSlot search₂ l = .ok x
  | [], _, h => h
  | a :: rest, x, h => by
    rw [supportedAmong] at h ⊢
    by_cases hs : a.slot = leaderSlot
    · rw [if_pos hs] at h ⊢
      exact h
    rw [if_neg hs] at h ⊢
    by_cases hr : a.round ≤ leaderSlot.round
    · rw [if_pos hr] at h ⊢
      exact supportedAmong_mono hsearch h
    rw [if_neg hr] at h ⊢
    -- the ancestor is in the larger memory, and its search finds the same
    obtain ⟨block, hb, h⟩ := Except.bind_eq_ok.mp h
    obtain ⟨support, hsupport, h⟩ := Except.bind_eq_ok.mp h
    rw [getSubDagBlock_eq_ok.mpr (lookup_mono hsub (getSubDagBlock_eq_ok.mp hb)), Except.ok_bind,
      hsearch _ _ hsupport, Except.ok_bind]
    cases support with
    | some _ => exact h
    | none => exact supportedAmong_mono hsearch h

theorem findSupportedBlock_mono (fuel : Nat) :
    ∀ {v : VerifiedBlock} {x : Option BlockRef}, c₁.findSupportedBlock leaderSlot fuel v = .ok x →
      c₂.findSupportedBlock leaderSlot fuel v = .ok x := by
  induction fuel with
  | zero =>
    intro v x h
    by_cases hlt : v.round < leaderSlot.round
    · rw [findSupportedBlock_of_lt hlt] at h ⊢
      exact h
    · rw [findSupportedBlock_zero (Nat.not_lt.mp hlt)] at h
      exact absurd h Except.throw_ne_ok
  | succ fuel ih =>
    intro v x h
    by_cases hlt : v.round < leaderSlot.round
    · rw [findSupportedBlock_of_lt hlt] at h ⊢
      exact h
    · rw [findSupportedBlock_succ (Nat.not_lt.mp hlt)] at h ⊢
      exact supportedAmong_mono hsub (fun _ _ => ih) h

/-- **A certificate stays one in a larger memory**, for the same committee. -/
theorem certifiedAt_mono (hcomm : c₁.committee = c₂.committee) {d : Nat}
    (h : c₁.CertifiedAt fuel d leaderBlock) : c₂.CertifiedAt fuel d leaderBlock := by
  obtain ⟨C, hC, hround, S, hq, hvotes⟩ := h
  refine ⟨C, lookup_mono hsub hC, hround, S, hcomm ▸ hq, fun a ha => ?_⟩
  obtain ⟨r, hr, hauthor, v, hv, hvote⟩ := hvotes a ha
  exact ⟨r, hr, hauthor, v, lookup_mono hsub hv,
    isVote_eq_ok_true.mpr (findSupportedBlock_mono hsub fuel (isVote_eq_ok_true.mp hvote))⟩

end Grow

end Spec

end BaseCommitter

end Dag

end Mango.Consensus
