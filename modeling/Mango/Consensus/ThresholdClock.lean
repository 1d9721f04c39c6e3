/-
  Mango.Consensus.ThresholdClock

  The round clock of the Mysticeti core (`consensus/core/src/threshold_clock.rs`)
  with the quorum aggregator it counts with
  (`consensus/core/src/stake_aggregator.rs`) and the committee thresholds of
  `consensus/config/src/committee.rs`.

  The clock holds the round it builds and the authors of the blocks of that
  round it has seen. A block of a lower round is ignored; a block of a higher
  round moves the clock to that round, with its author as the only one seen;
  a block of the round adds its author, and once the authors seen hold a
  quorum of stake the clock moves to the next round.

  An authority index is an index into the committee, so `stake` reads the
  committee's list (an index outside it, which the code cannot build, reads
  zero). Rounds and stakes are `Nat`: the `u32` rounds and `u64` stakes do
  not come near their bounds. The block digest, the time of the last quorum
  and the metrics are left out; `HashSet::insert` is a membership test and
  an append.

  What the clock is to compute is stated over the blocks added
  (`clockBounds`): the greatest of the initial round, the rounds of the
  blocks and one past each round whose distinct authors hold a quorum. A
  block of a higher round is added without asking whether its author alone
  is a quorum, so such an author's block leaves the clock one round behind
  (`threshold_clock_lags_quorum_author`).
-/
import Mathlib

namespace Mango.Consensus

/-- `Committee`, by the stakes of its authorities in index order;
    `Committee::new` asserts that there is one and that the total stake is
    not zero. -/
structure Committee where
  stakes : List Nat
  nonempty : stakes ≠ []
  totalStake_pos : 0 < stakes.sum

namespace Committee

variable (committee : Committee)

/-- `Committee::total_stake`. -/
def totalStake : Nat := committee.stakes.sum

/-- `quorum_threshold`, `2f + 1` when `n = 3f + 1`. -/
def quorumThreshold : Nat := 2 * committee.totalStake / 3 + 1

/-- `Committee::stake`. -/
def stake (authorityIndex : Nat) : Nat := committee.stakes.getD authorityIndex 0

/-- `Committee::reached_quorum`. -/
def reachedQuorum (stake : Nat) : Bool := decide (committee.quorumThreshold ≤ stake)

end Committee

/-- `BlockRef`, without its digest. -/
structure BlockRef where
  round : Nat
  author : Nat
  deriving DecidableEq, Repr

/-- `StakeAggregator<QuorumThreshold>`: the authorities that voted and their
    stake. -/
structure StakeAggregator where
  votes : List Nat
  stake : Nat
  deriving DecidableEq, Repr

namespace StakeAggregator

/-- `StakeAggregator::new`. -/
def new : StakeAggregator := ⟨[], 0⟩

/-- `StakeAggregator::add`: a vote is counted once for an authority; whether
    the stake counted reaches a quorum. -/
def add (self : StakeAggregator) (vote : Nat) (committee : Committee) : StakeAggregator × Bool :=
  let self : StakeAggregator :=
    if vote ∈ self.votes then self else ⟨self.votes ++ [vote], self.stake + committee.stake vote⟩
  (self, committee.reachedQuorum self.stake)

/-- `StakeAggregator::clear`. -/
def clear (_ : StakeAggregator) : StakeAggregator := ⟨[], 0⟩

section Add

variable {aggregator : StakeAggregator} {vote : Nat} {committee : Committee}

theorem add_fst_of_mem (h : vote ∈ aggregator.votes) : (aggregator.add vote committee).1 = aggregator := by
  simp only [StakeAggregator.add, if_pos h]

theorem add_fst_of_not_mem (h : vote ∉ aggregator.votes) :
    (aggregator.add vote committee).1 = ⟨aggregator.votes ++ [vote], aggregator.stake + committee.stake vote⟩ := by
  simp only [StakeAggregator.add, if_neg h]

/-- `add` reports whether the stake it counted reaches a quorum. -/
theorem add_snd : (aggregator.add vote committee).2 = committee.reachedQuorum (aggregator.add vote committee).1.stake :=
  rfl

end Add

/-- The aggregator has counted, once each, the authorities of `s` and their
    stake. -/
structure Counts (committee : Committee) (aggregator : StakeAggregator) (s : Finset Nat) : Prop where
  nodup : aggregator.votes.Nodup
  toFinset_votes : aggregator.votes.toFinset = s
  stake_eq : aggregator.stake = ∑ a ∈ s, committee.stake a

theorem counts_new (committee : Committee) : Counts committee new ∅ := ⟨List.nodup_nil, rfl, rfl⟩

/-- A vote adds its authority to those counted. -/
theorem Counts.add {committee : Committee} {aggregator : StakeAggregator} {s : Finset Nat}
    (h : Counts committee aggregator s) (vote : Nat) :
    Counts committee (aggregator.add vote committee).1 (insert vote s) := by
  by_cases hv : vote ∈ aggregator.votes
  · -- a second vote of an authority changes nothing
    have hs : vote ∈ s := h.toFinset_votes ▸ List.mem_toFinset.mpr hv
    rw [add_fst_of_mem hv, Finset.insert_eq_of_mem hs]
    exact h
  · have hs : vote ∉ s := fun hs => hv (List.mem_toFinset.mp (h.toFinset_votes ▸ hs))
    rw [add_fst_of_not_mem hv]
    refine ⟨h.nodup.append (List.nodup_singleton vote) (by simpa using hv), ?_, ?_⟩
    · rw [List.toFinset_append, h.toFinset_votes, Finset.insert_eq, Finset.union_comm]
      rfl
    · rw [Finset.sum_insert hs, h.stake_eq, Nat.add_comm]

end StakeAggregator

/-- `ThresholdClock`: its aggregator and the round it builds. -/
structure ThresholdClock where
  aggregator : StakeAggregator
  round : Nat
  deriving DecidableEq, Repr

namespace ThresholdClock

variable (committee : Committee)

/-- `ThresholdClock::new`. -/
def new (round : Nat) : ThresholdClock := ⟨StakeAggregator.new, round⟩

/-- `ThresholdClock::add_block`. -/
def addBlock (self : ThresholdClock) (block : BlockRef) : ThresholdClock :=
  match compare block.round self.round with
  -- blocks with round less than what we currently build are irrelevant here
  | .lt => self
  -- the jump: the block's author is added, and whether it is a quorum is not asked
  | .gt => ⟨(self.aggregator.clear.add block.author committee).1, block.round⟩
  | .eq =>
    let (aggregator, reached) := self.aggregator.add block.author committee
    if reached then ⟨aggregator.clear, block.round + 1⟩ else ⟨aggregator, self.round⟩

/-- `ThresholdClock::add_blocks`: the clock after the blocks, and its round if
    it advanced. -/
def addBlocks (self : ThresholdClock) (blocks : List BlockRef) : ThresholdClock × Option Nat :=
  let clock := blocks.foldl (addBlock committee) self
  (clock, if clock.round > self.round then some clock.round else none)

end ThresholdClock

/-! ## What the clock computes -/

/-- The distinct authors of the blocks of round `r`. -/
def authorsAt (blocks : List BlockRef) (r : Nat) : Finset Nat :=
  ((blocks.filter fun b => b.round = r).map BlockRef.author).toFinset

/-- The blocks of round `r` are a quorum: their distinct authors hold a
    quorum of stake. -/
def QuorumAt (committee : Committee) (blocks : List BlockRef) (r : Nat) : Prop :=
  committee.quorumThreshold ≤ ∑ a ∈ authorsAt blocks r, committee.stake a

instance (committee : Committee) (blocks : List BlockRef) (r : Nat) : Decidable (QuorumAt committee blocks r) :=
  inferInstanceAs (Decidable (_ ≤ _))

/-- The values the round of the clock is to be the greatest of: the initial
    round, the round of each block, and one past each round whose blocks are
    a quorum. -/
def clockBounds (committee : Committee) (r0 : Nat) (blocks : List BlockRef) : Set Nat :=
  {n | n = r0 ∨ (∃ b ∈ blocks, n = b.round) ∨ ∃ b ∈ blocks, QuorumAt committee blocks b.round ∧ n = b.round + 1}


/-- Four authorities of stake 1, as `Context::new_for_test(4)` makes them. -/
def equalCommittee : Committee := ⟨[1, 1, 1, 1], by decide, by decide⟩

-- The start of `test_threshold_clock_add_block`: three authors of round 0 advance the clock to 1.
example : ((ThresholdClock.new 0).addBlocks equalCommittee [⟨0, 0⟩, ⟨0, 1⟩, ⟨0, 2⟩]).1.round = 1 := by
  decide

/-- A committee in which authority 0 holds a quorum alone: stakes 3 and 1,
    quorum threshold 3. -/
def dominantCommittee : Committee := ⟨[3, 1], by decide, by decide⟩

/-- The round-1 block of authority 0 moves the clock to round 1 and no
    further, though the greatest of the three values is 2. -/
theorem threshold_clock_lags_quorum_author :
    ((ThresholdClock.new 0).addBlocks dominantCommittee [⟨1, 0⟩]).1.round = 1 ∧
      IsGreatest (clockBounds dominantCommittee 0 [⟨1, 0⟩]) 2 := by
  refine ⟨rfl, .inr (.inr ⟨⟨1, 0⟩, List.mem_singleton_self _, by decide, rfl⟩), fun n hn => ?_⟩
  rcases hn with rfl | ⟨b, hb, rfl⟩ | ⟨b, hb, -, rfl⟩
  · decide
  · rw [List.mem_singleton.mp hb]
    decide
  · rw [List.mem_singleton.mp hb]

end Mango.Consensus
