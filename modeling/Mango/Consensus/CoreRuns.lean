/-
  Mango.Consensus.CoreRuns

  A run of a Mysticeti core's calls (`Core::add_blocks` and
  `Core::force_new_block`, `consensus/core/src/core.rs`) that panics. The
  timestamp assertion of `ancestors_to_propose` reads peer data: a peer block
  stamped past the proposer's time makes the next proposal that would
  reference it panic, however well formed the blocks it was given
  (`run_panics_on_late_ancestor`).
-/
import Mango.Consensus.Core

namespace Mango.Consensus

namespace Dag

namespace Core

open Mango.Lib

/-- The genesis blocks as `Core::new` counts them: the others', then the own. -/
def genesisBlocks (hash : Block → BlockDigest) (committee : Committee) (ownIndex : Nat) : List VerifiedBlock :=
  (genesis hash committee ownIndex).2 ++ [(genesis hash committee ownIndex).1]

/-! ## A panic on peer timestamps -/

/-- A peer block of round 1 by `author`, listing the four genesis blocks. -/
def roundOneBlock (hash : Block → BlockDigest) (author timestampMs : Nat) (digest : BlockDigest) : VerifiedBlock :=
  ⟨⟨1, author, timestampMs, (List.range 4).map fun a => (verify hash (genesisBlock a)).reference⟩, digest⟩

/-- Two peer blocks of round 1, listing the genesis blocks (a quorum of round
    0, known and below), one of them stamped far ahead: the first call proposes
    at round 1 at time 1, which moves the clock to round 2, and the forced
    proposal of round 2 at time 2 asserts that the peer block is not later, and
    panics. Whatever digest each block hashes to. -/
theorem run_panics_on_late_ancestor (hash : Block → BlockDigest) :
    (∀ b ∈ [roundOneBlock hash 1 1000000 11, roundOneBlock hash 2 1 12],
      (∀ a ∈ b.ancestors, a.round < b.round ∧ ∃ x ∈ genesisBlocks hash equalCommittee 0, x.reference = a) ∧
      QuorumAt equalCommittee (b.ancestors.map BlockRef.clockRef) (b.round - 1)) ∧
    (Core.new hash equalCommittee ⟨0, by decide⟩).run hash
      [.addBlocks [roundOneBlock hash 1 1000000 11, roundOneBlock hash 2 1 12] 1, .forceNewBlock 2 2] =
      .error (.ancestorTimestamp 1000000 2) := by
  refine ⟨?_, ?_⟩
  · simp [roundOneBlock, genesisBlocks, genesis, List.range_succ, verify, genesisBlock, VerifiedBlock.reference,
      VerifiedBlock.round, VerifiedBlock.ancestors, VerifiedBlock.author, BlockRef.clockRef]
    decide
  · -- the two calls, evaluated; the digests are only ever compared with themselves or across authors
    simp +decide [Core.run, Core.step, Core.new, genesis, Core.addBlocksProposing, BlockManager.addBlocks,
      roundOneBlock, Core.tryNewBlock, Core.forceNewBlock, Core.ancestorsToPropose, pendingBelow, compressAncestors,
      Core.lastQuorumLeadersExist, Core.leaders, Core.lastProposedRound, verify, genesisBlock,
      VerifiedBlock.reference, VerifiedBlock.round, VerifiedBlock.author, VerifiedBlock.timestampMs,
      VerifiedBlock.ancestors, List.range_succ, ThresholdClock.addBlocks, ThresholdClock.addBlock,
      ThresholdClock.new, StakeAggregator.add, StakeAggregator.new, StakeAggregator.clear, equalCommittee,
      Committee.stake, Committee.reachedQuorum, Committee.quorumThreshold, Committee.totalStake, SortedMap.push,
      SortedMap.get, SortedMap.insert, BlockRef.clockRef, List.insertionSort, List.orderedInsert]
    rfl

end Core

end Dag

end Mango.Consensus
