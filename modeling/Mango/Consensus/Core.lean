/-
  Mango.Consensus.Core

  The proposer of a Mysticeti authority (`consensus/core/src/core.rs`) and the
  block manager it accepts blocks through (`consensus/core/src/block_manager.rs`).

  `Core` keeps the threshold clock, its last proposed block, the blocks it
  may still reference (`pending_ancestors`, a `BTreeMap` from round to
  blocks, as a `SortedMap`) and the block manager, which for now accepts
  every block once, in round order. `add_blocks` accepts blocks, counts them
  on the clock, keeps them as pending ancestors and tries to propose;
  `force_new_block` proposes on a leader timeout. A proposal is made at the
  clock's round when it is above the last proposed round: its ancestors are
  the pending blocks of lower rounds that no other of them lists as an
  ancestor, and the last proposed block, after an assertion that none of
  those pending blocks has a timestamp above the proposal's.

  The time a proposal reads (`timestamp_utc_ms`) is an input of each call,
  and the digest of a block (its BCS bytes hashed) a function `hash` the
  model is given. A `HashSet` is a list without repetition, its order left
  as the model builds it. The transactions, the epoch, the signature, the
  signals and the metrics are left out; `add_blocks` returns no references
  to fetch, as the code does for now. `Core.run` runs calls in turn and
  reports, as the events of the run, the blocks the block manager accepted
  and the blocks proposed (those `new_block_ready` signals).
-/
import Mathlib
import Mango.Lib.Except
import Mango.Lib.List
import Mango.Lib.SortedMap
import Mango.Consensus.Block

namespace Mango.Consensus

namespace Dag

open Mango.Lib

/-- `BlockManager`, which for now accepts every block, once. -/
structure BlockManager where
  acceptedBlocks : List BlockRef
  deriving DecidableEq, Repr

namespace BlockManager

/-- `BlockManager::new`. -/
def new : BlockManager := ⟨[]⟩

/-- `BlockManager::add_blocks`: the blocks sorted by round, each returned the
    first time `accepted_blocks.insert` sees its reference. -/
def addBlocks (self : BlockManager) (blocks : List VerifiedBlock) : BlockManager × List VerifiedBlock :=
  (blocks.insertionSort fun b₁ b₂ => b₁.round ≤ b₂.round).foldl
    (fun acc block =>
      if block.reference ∈ acc.1.acceptedBlocks then acc
      else (⟨acc.1.acceptedBlocks ++ [block.reference]⟩, acc.2 ++ [block]))
    (self, [])

end BlockManager

/-- `Core`, with `context.committee` and `context.own_index` for the context. -/
structure Core where
  committee : Committee
  ownIndex : Nat
  thresholdClock : ThresholdClock
  lastProposedBlock : VerifiedBlock
  pendingAncestors : List (Nat × List VerifiedBlock)
  blockManager : BlockManager

namespace Core

/-- The panics of the proposer, by what their messages name. -/
inductive Panic
  /-- "Violation, ancestor block timestamp {} greater than our timestamp {block_timestamp}" -/
  | ancestorTimestamp (timestamp blockTimestamp : Nat)
  /-- `assert!(!to_propose.is_empty())`. -/
  | noAncestors
  deriving DecidableEq, Repr

variable (hash : Block → BlockDigest)

/-- A block and its digest: `VerifiedBlock::new_verified_unserialized`. -/
def verify (block : Block) : VerifiedBlock := ⟨block, hash block⟩

/-- `BlockV1::genesis`. -/
def genesisBlock (author : Nat) : Block := ⟨0, author, 0, []⟩

/-- `Block::genesis`: the genesis block of every authority, split into the own
    one and the others in index order. -/
def genesis (committee : Committee) (ownIndex : Nat) : VerifiedBlock × List VerifiedBlock :=
  (verify hash (genesisBlock ownIndex),
    ((List.range committee.stakes.length).filter (· ≠ ownIndex)).map fun a => verify hash (genesisBlock a))

/-- `Core::new`: the genesis blocks, the others' then the own, counted on a
    clock from round 0 and kept as pending ancestors. -/
def new (committee : Committee) (ownIndex : Fin committee.stakes.length) : Core :=
  let (genesisMy, genesisOthers) := genesis hash committee ownIndex
  let (thresholdClock, pendingAncestors) := (genesisOthers ++ [genesisMy]).foldl
    (fun (acc : ThresholdClock × List (Nat × List VerifiedBlock)) ancestor =>
      (acc.1.addBlock committee ancestor.reference.clockRef, SortedMap.push ancestor.round ancestor acc.2))
    (ThresholdClock.new 0, [])
  ⟨committee, ownIndex, thresholdClock, genesisMy, pendingAncestors, BlockManager.new⟩

/-- `last_proposed_round`. -/
def lastProposedRound (self : Core) : Nat := self.lastProposedBlock.round

/-- `leaders`: for now one leader a round, in turn. -/
def leaders (self : Core) (round : Nat) : List Nat := [round % self.committee.stakes.length]

/-- `last_quorum_leaders_exist`: every leader of the round below the clock's
    has a pending block of that round. -/
def lastQuorumLeadersExist (self : Core) : Bool :=
  let quorumRound := self.thresholdClock.round - 1
  match SortedMap.get self.pendingAncestors quorumRound with
  | some ancestors => (self.leaders quorumRound).all fun leader =>
      ancestors.any fun entry => entry.reference.author = leader
  | none => false

/-- `pending_ancestors.range(0..round)`, flattened: the pending blocks below a round, by round. -/
def pendingBelow (pendingAncestors : List (Nat × List VerifiedBlock)) (round : Nat) : List VerifiedBlock :=
  (pendingAncestors.filter fun e => e.1 < round).flatMap (·.2)

/-- The compression of `ancestors_to_propose`: the references of the blocks
    that no block among them lists as an ancestor. -/
def compressAncestors (ancestors : List VerifiedBlock) : List BlockRef :=
  let allAncestorsParents := ancestors.flatMap VerifiedBlock.ancestors
  ancestors.foldl
    (fun toPropose block => if block.reference ∈ allAncestorsParents then toPropose else toPropose.insert block.reference)
    []

/-- `ancestors_to_propose`: the pending blocks below the clock round, checked
    against the proposal's timestamp, compressed, with the last proposed
    block; the pending blocks below the clock round are then dropped. -/
def ancestorsToPropose (self : Core) (clockRound blockTimestamp : Nat) : Except Panic (Core × List BlockRef) := do
  let ancestors := pendingBelow self.pendingAncestors clockRound
  ancestors.forM fun block =>
    if blockTimestamp < block.timestampMs then throw (.ancestorTimestamp block.timestampMs blockTimestamp)
    else pure ()
  let toPropose := (compressAncestors ancestors).insert self.lastProposedBlock.reference
  if toPropose.isEmpty then throw .noAncestors
  pure ({ self with pendingAncestors := self.pendingAncestors.filter fun e => clockRound ≤ e.1 }, toPropose)

/-- `try_new_block`: a block of the clock round, when that is above the last
    proposed round and the leaders are there or the check is skipped. -/
def tryNewBlock (self : Core) (ignoreLeadersCheck : Bool) (now : Nat) : Except Panic (Core × Option VerifiedBlock) :=
  let clockRound := self.thresholdClock.round
  if clockRound ≤ self.lastProposedRound then pure (self, none)
  else if ignoreLeadersCheck || self.lastQuorumLeadersExist then do
    let (self, ancestors) ← self.ancestorsToPropose clockRound now
    let verifiedBlock := verify hash ⟨clockRound, self.ownIndex, now, ancestors⟩
    pure ({ self with
      thresholdClock := self.thresholdClock.addBlock self.committee verifiedBlock.reference.clockRef
      pendingAncestors := SortedMap.push verifiedBlock.round verifiedBlock self.pendingAncestors
      blockManager := (self.blockManager.addBlocks [verifiedBlock]).1
      lastProposedBlock := verifiedBlock }, some verifiedBlock)
  else pure (self, none)

/-- The body of `add_blocks`, with the blocks the block manager accepted and
    the block proposed, which the code signals and drops. -/
def addBlocksProposing (self : Core) (blocks : List VerifiedBlock) (now : Nat) :
    Except Panic (Core × List VerifiedBlock × Option VerifiedBlock) := do
  let (blockManager, acceptedBlocks) := self.blockManager.addBlocks blocks
  let thresholdClock := (self.thresholdClock.addBlocks self.committee
    (acceptedBlocks.map fun b => b.reference.clockRef)).1
  let pendingAncestors := acceptedBlocks.foldl (fun pending b => SortedMap.push b.round b pending) self.pendingAncestors
  let (core, proposed) ← tryNewBlock hash { self with blockManager, thresholdClock, pendingAncestors } false now
  pure (core, acceptedBlocks, proposed)

/-- `add_blocks`: no references to fetch yet. -/
def addBlocks (self : Core) (blocks : List VerifiedBlock) (now : Nat) : Except Panic (Core × List BlockRef) :=
  (fun result => (result.1, [])) <$> self.addBlocksProposing hash blocks now

/-- `force_new_block`. -/
def forceNewBlock (self : Core) (round now : Nat) : Except Panic (Core × Option VerifiedBlock) :=
  if self.lastProposedRound < round then self.tryNewBlock hash true now else pure (self, none)

/-- The calls a core serves, each with the time it reads. -/
inductive Op
  | addBlocks (blocks : List VerifiedBlock) (now : Nat)
  | forceNewBlock (round now : Nat)
  deriving DecidableEq, Repr

/-- What a call shows: a block accepted, or a block proposed. -/
inductive Event
  | accepted (block : VerifiedBlock)
  | proposed (block : VerifiedBlock)
  deriving DecidableEq, Repr

/-- One call and its events. -/
def step (self : Core) : Op → Except Panic (Core × List Event)
  | .addBlocks blocks now => do
    let (core, accepted, proposed) ← self.addBlocksProposing hash blocks now
    pure (core, accepted.map .accepted ++ proposed.toList.map .proposed)
  | .forceNewBlock round now => do
    let (core, proposed) ← self.forceNewBlock hash round now
    pure (core, proposed.toList.map .proposed)

/-- Calls in turn; a panic ends the run. -/
def run (self : Core) : List Op → Except Panic (Core × List Event)
  | [] => pure (self, [])
  | op :: ops => do
    let (core, events) ← self.step hash op
    let (core, rest) ← core.run ops
    pure (core, events ++ rest)

end Core

end Dag

end Mango.Consensus
