/-
  Mango.Consensus.DagState

  The blocks a Mysticeti authority has accepted (`consensus/core/src/dag_state.rs`):
  the blocks kept in memory by reference, the references seen per author, the
  last commit and the highest round accepted.

  `accept_block` stores a block under its own reference, so that a state
  holds each block under its reference (`DagState.stored_reference`), after
  asserting that no block of its own slot is there when the author is the
  authority itself. `ancestors_at_uncommitted_round` walks the history of a
  block down to an earlier round: it keeps the references still to look at
  in a `BTreeSet`, pops the greatest while its round is above the earlier
  round, and adds the ancestors of the block popped; once the greatest is at
  or below that round it returns the blocks of the references of that round.
  The `BTreeSet` is a `SortedSet`, the `BTreeMap` of blocks an `AList`, and a
  panic an `.error`. The `while` loop runs on fuel, and running out of it is
  the model's own `Panic.outOfFuel`: the code has no bound on its turns.

  What the walk is for is the set of references reachable from the block
  through ancestor links (`Reaches`). When every block in memory has its
  ancestors at lower rounds and every reachable block above the last commit
  is in memory, the walk returns, with fuel for every block in memory and
  without a panic, the blocks of the earlier round reachable from the block,
  in increasing order; the references it pops are the reachable ones above
  that round, each once and in decreasing order (`ancestors_at_uncommitted_round_reachable`).
  The proof keeps the popped references as a ghost set: the loop invariant
  `LoopInv` says what is still to look at and what is done are reachable,
  that nothing done is below what is left, and that the ancestors of what is
  done are left or done; once the loop stops, induction on `Reaches` turns
  that closure into completeness.
-/
import Mathlib
import Mango.Lib.Except
import Mango.Lib.SortedSet
import Mango.Consensus.Block

namespace Mango.Consensus

namespace Dag

open Mango.Lib

/-- `Commit`, with the field the modelled code reads: its leader. -/
structure Commit where
  leader : BlockRef
  deriving DecidableEq, Repr

/-- `Slot`. -/
structure Slot where
  round : Nat
  authority : Nat
  deriving DecidableEq, Repr

/-- `Slot::from(BlockRef)`. -/
def BlockRef.slot (r : BlockRef) : Slot := ⟨r.round, r.author⟩

/-- The panics of the modelled code, by what their messages name. -/
inductive Panic
  /-- "Block Rejected! Attempted to add block {block} to own slot where block(s) ... already exists." -/
  | ownSlotTaken (block : BlockRef)
  /-- `cached_refs[block_ref.author]` past the end of the vector. -/
  | authorOutOfRange (author : Nat)
  /-- "Round {} have committed blocks!" -/
  | committedRound (round : Nat)
  /-- "Round {} is not earlier than block {}!" -/
  | notEarlier (round : Nat) (block : BlockRef)
  /-- "Block {:?} should be available in memory!" -/
  | notInMemory (block : BlockRef)
  /-- The `while` loop has not stopped within the fuel the model gives it. -/
  | outOfFuel
  deriving DecidableEq, Repr

/-- `recent_blocks`: `BTreeMap<BlockRef, VerifiedBlock>`. -/
abbrev RecentBlocks := AList fun _ : BlockRef => VerifiedBlock

/-- `DagState`, with `context.own_index` for the context; every block in
    memory is stored under its own reference. -/
structure DagState where
  ownIndex : Nat
  recentBlocks : RecentBlocks
  cachedRefs : List (SortedSet BlockRef)
  lastCommit : Option Commit
  highestAcceptedRound : Nat
  stored_reference : ∀ e ∈ recentBlocks.entries, e.2.reference = e.1

namespace DagState

/-- `last_commit_round`: the leader round of the last commit. -/
def lastCommitRound (self : DagState) : Nat :=
  match self.lastCommit with
  | some commit => commit.leader.round
  | none => 0

/-- `get_uncommitted_block`. -/
def getUncommittedBlock (self : DagState) (reference : BlockRef) : Option VerifiedBlock :=
  self.recentBlocks.lookup reference

/-- `get_uncommitted_blocks_at_slot`: the blocks of the slot's range, in the map's order. -/
def getUncommittedBlocksAtSlot (self : DagState) (slot : Slot) : List VerifiedBlock :=
  ((self.recentBlocks.keys.filter fun x => decide (InSlot slot.round slot.authority x)).insertionSort
    (· ≤ ·)).filterMap self.recentBlocks.lookup

theorem stored_reference_insert (recentBlocks : RecentBlocks)
    (h : ∀ e ∈ recentBlocks.entries, e.2.reference = e.1) (block : VerifiedBlock) :
    ∀ e ∈ (recentBlocks.insert block.reference block).entries, e.2.reference = e.1 := by
  intro e he
  rw [AList.entries_insert, List.mem_cons] at he
  rcases he with rfl | he
  · rfl
  · exact h e ((List.kerase_sublist _ _).subset he)

/-- `accept_block`. -/
def acceptBlock (self : DagState) (block : VerifiedBlock) : Except Panic DagState := do
  let blockRef := block.reference
  if blockRef.author = self.ownIndex ∧ self.getUncommittedBlocksAtSlot blockRef.slot ≠ [] then
    throw (.ownSlotTaken blockRef)
  match self.cachedRefs[blockRef.author]? with
  | none => throw (.authorOutOfRange blockRef.author)
  | some refs =>
    pure { self with
      recentBlocks := self.recentBlocks.insert blockRef block
      cachedRefs := self.cachedRefs.set blockRef.author (refs.insert blockRef)
      highestAcceptedRound := max self.highestAcceptedRound block.round
      stored_reference := stored_reference_insert self.recentBlocks self.stored_reference block }

/-- A block in memory is stored under its own reference. -/
theorem reference_of_lookup (self : DagState) {r : BlockRef} {block : VerifiedBlock}
    (h : self.recentBlocks.lookup r = some block) : block.reference = r :=
  self.stored_reference ⟨r, block⟩ (AList.mem_lookup_iff.mp h)

theorem slot_eq_iff {r : BlockRef} {slot : Slot} : r.slot = slot ↔ r.round = slot.round ∧ r.author = slot.authority := by
  obtain ⟨round, authority⟩ := slot
  simp [BlockRef.slot]

/-- A slot is empty exactly when memory holds no reference of it. -/
theorem getUncommittedBlocksAtSlot_eq_nil (dag : DagState) (slot : Slot) :
    dag.getUncommittedBlocksAtSlot slot = [] ↔ ∀ r ∈ dag.recentBlocks, r.slot ≠ slot := by
  unfold getUncommittedBlocksAtSlot
  rw [List.filterMap_eq_nil_iff]
  -- the references sorted are those of the slot, and each of them has its block
  have hsorted : ∀ r, r ∈ (dag.recentBlocks.keys.filter fun x => decide (InSlot slot.round slot.authority x)).insertionSort
      (· ≤ ·) ↔ r ∈ dag.recentBlocks ∧ r.slot = slot := by
    intro r
    rw [(List.perm_insertionSort _ _).mem_iff, List.mem_filter, decide_eq_true_iff, mem_slotRange, slot_eq_iff,
      AList.mem_keys]
  constructor
  · intro h r hr hslot
    have hnone := h r ((hsorted r).mpr ⟨hr, hslot⟩)
    have hsome := AList.lookup_isSome.mpr hr
    rw [hnone] at hsome
    cases hsome
  · intro h r hr
    obtain ⟨hr, hslot⟩ := (hsorted r).mp hr
    exact absurd hslot (h r hr)

/-- `get_uncommitted_blocks_at_round`: the blocks from `(round, 0, MIN)` up to
    but not including `(round + 1, 0, MIN)`, in the map's order; a round of
    the last commit or below panics. -/
def getUncommittedBlocksAtRound (self : DagState) (round : Nat) : Except Panic (List VerifiedBlock) :=
  if round ≤ self.lastCommitRound then throw (.committedRound round)
  else pure (((self.recentBlocks.keys.filter fun x => decide (slotStart round ≤ x ∧ x < slotStart (round + 1))).insertionSort
    (· ≤ ·)).filterMap self.recentBlocks.lookup)

/-! ### The blocks of a range of references -/

section Range

variable (dag : DagState) (p : BlockRef → Bool)

/-- A range query returns the blocks in memory whose references pass its test. -/
theorem mem_range_blocks {b : VerifiedBlock} :
    b ∈ ((dag.recentBlocks.keys.filter p).insertionSort (· ≤ ·)).filterMap dag.recentBlocks.lookup ↔
      dag.recentBlocks.lookup b.reference = some b ∧ p b.reference = true := by
  rw [List.mem_filterMap]
  constructor
  · rintro ⟨r, hr, hb⟩
    rw [(List.perm_insertionSort _ _).mem_iff, List.mem_filter] at hr
    rw [dag.reference_of_lookup hb]
    exact ⟨hb, hr.2⟩
  · rintro ⟨hb, hp⟩
    refine ⟨b.reference, ?_, hb⟩
    rw [(List.perm_insertionSort _ _).mem_iff, List.mem_filter]
    exact ⟨AList.mem_keys.mpr (AList.lookup_isSome.mp (by rw [hb]; rfl)), hp⟩

/-- A range query returns each block once. -/
theorem nodup_range_blocks :
    (((dag.recentBlocks.keys.filter p).insertionSort (· ≤ ·)).filterMap dag.recentBlocks.lookup).Nodup := by
  have hkeys : ((dag.recentBlocks.keys.filter p).insertionSort (· ≤ ·)).Nodup :=
    (List.perm_insertionSort _ _).nodup_iff.mpr ((AList.keys_nodup _).filter p)
  -- a block in memory is looked up under its own reference only
  refine hkeys.filterMap fun r r' b hb hb' => ?_
  rw [← dag.reference_of_lookup hb, ← dag.reference_of_lookup hb']

end Range

theorem mem_getUncommittedBlocksAtSlot {dag : DagState} {slot : Slot} {b : VerifiedBlock} :
    b ∈ dag.getUncommittedBlocksAtSlot slot ↔
      dag.recentBlocks.lookup b.reference = some b ∧ b.reference.slot = slot := by
  rw [getUncommittedBlocksAtSlot, mem_range_blocks, decide_eq_true_iff, mem_slotRange, slot_eq_iff]

/-- A block of a slot is of the slot's round. -/
theorem round_of_mem_getUncommittedBlocksAtSlot {dag : DagState} {slot : Slot} {b : VerifiedBlock}
    (h : b ∈ dag.getUncommittedBlocksAtSlot slot) : b.round = slot.round :=
  (slot_eq_iff.mp (mem_getUncommittedBlocksAtSlot.mp h).2).1

theorem nodup_getUncommittedBlocksAtSlot (dag : DagState) (slot : Slot) :
    (dag.getUncommittedBlocksAtSlot slot).Nodup :=
  nodup_range_blocks dag _

theorem getUncommittedBlocksAtRound_eq_ok {dag : DagState} {round : Nat} {blocks : List VerifiedBlock} :
    dag.getUncommittedBlocksAtRound round = .ok blocks ↔ dag.lastCommitRound < round ∧
      blocks = ((dag.recentBlocks.keys.filter fun x => decide (slotStart round ≤ x ∧ x < slotStart (round + 1))).insertionSort
        (· ≤ ·)).filterMap dag.recentBlocks.lookup := by
  unfold getUncommittedBlocksAtRound
  by_cases h : round ≤ dag.lastCommitRound
  · simp [h]
  · rw [if_neg h, Except.pure_eq_ok]
    exact ⟨fun hb => ⟨Nat.lt_of_not_le h, hb.symm⟩, fun hb => hb.2.symm⟩

/-- The blocks at a round are the blocks in memory of that round, each once. -/
theorem mem_getUncommittedBlocksAtRound {dag : DagState} {round : Nat} {blocks : List VerifiedBlock}
    (h : dag.getUncommittedBlocksAtRound round = .ok blocks) {b : VerifiedBlock} :
    b ∈ blocks ↔ dag.recentBlocks.lookup b.reference = some b ∧ b.round = round := by
  rw [(getUncommittedBlocksAtRound_eq_ok.mp h).2, mem_range_blocks, decide_eq_true_iff, slotStart_le_iff,
    ← not_le, slotStart_le_iff, VerifiedBlock.reference_round]
  exact and_congr_right fun _ => by omega

/-- What `accept_block` does when it returns: the block is stored under its
    reference, which joins the references of its author, and the highest round
    accepted takes its round; the authority's own slot of the block was empty. -/
theorem acceptBlock_eq_ok {dag dag' : DagState} {block : VerifiedBlock} (h : dag.acceptBlock block = .ok dag') :
    ¬(block.author = dag.ownIndex ∧ dag.getUncommittedBlocksAtSlot block.reference.slot ≠ []) ∧
    dag'.ownIndex = dag.ownIndex ∧ dag'.recentBlocks = dag.recentBlocks.insert block.reference block ∧
    dag'.lastCommit = dag.lastCommit ∧ dag'.highestAcceptedRound = max dag.highestAcceptedRound block.round ∧
    ∃ refs, dag.cachedRefs[block.author]? = some refs ∧
      dag'.cachedRefs = dag.cachedRefs.set block.author (refs.insert block.reference) := by
  unfold acceptBlock at h
  obtain ⟨hslot, h⟩ := Except.ite_throw_bind_eq_ok.mp h
  refine ⟨hslot, ?_⟩
  split at h
  · cases h
  case h_2 refs hrefs =>
    rw [Except.pure_eq_ok] at h
    subst h
    exact ⟨rfl, rfl, rfl, rfl, refs, hrefs, rfl⟩

/-- No two blocks of one slot of the authority itself are in memory: what the
    assertion of `accept_block` is for. -/
def OwnSlotsUnique (dag : DagState) : Prop :=
  ∀ r ∈ dag.recentBlocks, ∀ r' ∈ dag.recentBlocks, r.author = dag.ownIndex → r.slot = r'.slot → r = r'

/-- **`accept_block` keeps the authority's slots to one block each.** -/
theorem OwnSlotsUnique.acceptBlock {dag dag' : DagState} {block : VerifiedBlock} (h : dag.OwnSlotsUnique)
    (hok : dag.acceptBlock block = .ok dag') : dag'.OwnSlotsUnique := by
  obtain ⟨hslot, hown, hrecent, -⟩ := acceptBlock_eq_ok hok
  -- a block of its own slot is accepted only into an empty slot
  have hempty : block.author = dag.ownIndex → ∀ r ∈ dag.recentBlocks, r.slot ≠ block.reference.slot :=
    fun hauthor => (getUncommittedBlocksAtSlot_eq_nil dag _).mp (by_contra fun hne => hslot ⟨hauthor, hne⟩)
  intro r hr r' hr' hauthor hsl
  rw [hrecent, AList.mem_insert] at hr hr'
  rw [hown] at hauthor
  rcases hr with rfl | hr <;> rcases hr' with rfl | hr'
  · rfl
  · exact absurd hsl.symm (hempty hauthor r' hr')
  · have hauthors : r.author = block.author := (slot_eq_iff.mp hsl).2
    exact absurd hsl (hempty (hauthors ▸ hauthor) r hr)
  · exact h r hr r' hr' hauthor hsl

end DagState

/-! ## The walk down the history of a block -/

/-- The reference the `while` loop pops next: the last of `linked` while its
    round is above `earlier_round`; none once the loop breaks on a lower round
    or `linked` is empty. -/
def nextToExpand (earlierRound : Nat) (linked : SortedSet BlockRef) : Option BlockRef :=
  match linked.last? with
  | some blockRef => if blockRef.round ≤ earlierRound then none else some blockRef
  | none => none

/-- A turn of the loop after `pop_last`: the ancestors of the block popped added. -/
def expand (linked : SortedSet BlockRef) (block : VerifiedBlock) : SortedSet BlockRef :=
  linked.popLast.extend block.ancestors

/-- The `while` loop of `ancestors_at_uncommitted_round`. -/
def ancestorsLoop (recentBlocks : RecentBlocks) (earlierRound : Nat) :
    Nat → SortedSet BlockRef → Except Panic (SortedSet BlockRef)
  | fuel, linked =>
    match nextToExpand earlierRound linked with
    | none => pure linked
    | some blockRef =>
      match fuel with
      | 0 => throw .outOfFuel
      | fuel + 1 =>
        match recentBlocks.lookup blockRef with
        | none => throw (.notInMemory blockRef)
        | some block => ancestorsLoop recentBlocks earlierRound fuel (expand linked block)

/-- The references the loop pops, in the order it pops them: a ghost of
    `ancestorsLoop`, turn for turn. -/
def expandedRefs (recentBlocks : RecentBlocks) (earlierRound : Nat) : Nat → SortedSet BlockRef → List BlockRef
  | fuel, linked =>
    match nextToExpand earlierRound linked with
    | none => []
    | some blockRef =>
      match fuel with
      | 0 => []
      | fuel + 1 =>
        match recentBlocks.lookup blockRef with
        | none => []
        | some block => blockRef :: expandedRefs recentBlocks earlierRound fuel (expand linked block)

/-- `recent_blocks.get(r)`, with the panic of a block not in memory. -/
def getInMemory (recentBlocks : RecentBlocks) (r : BlockRef) : Except Panic VerifiedBlock :=
  match recentBlocks.lookup r with
  | some block => pure block
  | none => throw (.notInMemory r)

/-- `ancestors_at_uncommitted_round`. -/
def DagState.ancestorsAtUncommittedRound (self : DagState) (laterBlock : VerifiedBlock) (earlierRound : Nat)
    (fuel : Nat) : Except Panic (List VerifiedBlock) := do
  if earlierRound ≤ self.lastCommitRound then throw (.committedRound earlierRound)
  if laterBlock.round ≤ earlierRound then throw (.notEarlier earlierRound laterBlock.reference)
  let linked ← ancestorsLoop self.recentBlocks earlierRound fuel (SortedSet.ofList laterBlock.ancestors)
  (linked.rangeFrom (slotStart earlierRound)).mapM (getInMemory self.recentBlocks)

/-- The references reachable from a block through ancestor links, each block
    on the way read from memory. -/
inductive Reaches (recentBlocks : RecentBlocks) (laterBlock : VerifiedBlock) : BlockRef → Prop
  | ancestor {r : BlockRef} : r ∈ laterBlock.ancestors → Reaches recentBlocks laterBlock r
  | link {r r' : BlockRef} {block : VerifiedBlock} : Reaches recentBlocks laterBlock r →
      recentBlocks.lookup r = some block → r' ∈ block.ancestors → Reaches recentBlocks laterBlock r'

/-- Every block in memory has its ancestors at rounds below the round of its reference. -/
def AncestorsBelow (recentBlocks : RecentBlocks) : Prop :=
  ∀ r block, recentBlocks.lookup r = some block → ∀ x ∈ block.ancestors, x.round < r.round

/-- Ancestors below their block, read at the blocks' own rounds. -/
theorem DagState.ancestorsBelow (dag : DagState)
    (h : ∀ e ∈ dag.recentBlocks.entries, ∀ x ∈ e.2.ancestors, x.round < e.2.round) :
    AncestorsBelow dag.recentBlocks := by
  intro r block hb x hx
  rw [← dag.reference_of_lookup hb, VerifiedBlock.reference_round]
  exact h ⟨r, block⟩ (AList.mem_lookup_iff.mp hb) x hx

/-- A memory closed under the ancestors above a round holds every block above
    that round the walk can reach. -/
theorem reaches_mem_of_closed {recentBlocks : RecentBlocks} {laterBlock : VerifiedBlock} {round : Nat}
    (hlater : ∀ x ∈ laterBlock.ancestors, round < x.round → x ∈ recentBlocks)
    (hclosed : ∀ e ∈ recentBlocks.entries, ∀ x ∈ e.2.ancestors, round < x.round → x ∈ recentBlocks) :
    ∀ r, Reaches recentBlocks laterBlock r → round < r.round → r ∈ recentBlocks := by
  intro r hr
  induction hr with
  | ancestor hx => exact hlater _ hx
  | link _ hb hx _ => exact hclosed _ (AList.mem_lookup_iff.mp hb) _ hx

section Traversal

variable {recentBlocks : RecentBlocks} {laterBlock : VerifiedBlock} {earlierRound : Nat}
  {linked : SortedSet BlockRef} {m : BlockRef} {block : VerifiedBlock}

/-! ### One turn of the loop -/

theorem nextToExpand_eq_some (h : nextToExpand earlierRound linked = some m) :
    linked.last? = some m ∧ earlierRound < m.round := by
  unfold nextToExpand at h
  split at h
  case h_1 blockRef hlast =>
    split at h
    · cases h
    case isFalse hround =>
      cases h
      exact ⟨hlast, Nat.lt_of_not_le hround⟩
  · cases h

/-- Once the loop stops, nothing left in `linked` is above the earlier round. -/
theorem nextToExpand_eq_none (h : nextToExpand earlierRound linked = none) :
    ∀ x ∈ linked, x.round ≤ earlierRound := by
  intro x hx
  unfold nextToExpand at h
  split at h
  case h_1 blockRef hlast =>
    split at h
    case isTrue hround => exact (BlockRef.round_le_of_le (SortedSet.le_of_last?_eq_some hlast hx)).trans hround
    · cases h
  case h_2 hlast => exact absurd hx (SortedSet.last?_eq_none hlast x)

theorem mem_expand (h : linked.last? = some m) {x : BlockRef} :
    x ∈ expand linked block ↔ (x ∈ linked ∧ x ≠ m) ∨ x ∈ block.ancestors := by
  rw [expand, SortedSet.mem_extend, SortedSet.mem_popLast h]

theorem ancestorsLoop_stop {fuel : Nat} (h : nextToExpand earlierRound linked = none) :
    ancestorsLoop recentBlocks earlierRound fuel linked = .ok linked := by
  rw [ancestorsLoop, h]
  rfl

theorem ancestorsLoop_zero (h : nextToExpand earlierRound linked = some m) :
    ancestorsLoop recentBlocks earlierRound 0 linked = .error .outOfFuel := by
  rw [ancestorsLoop, h]
  rfl

theorem ancestorsLoop_expand {fuel : Nat} (h : nextToExpand earlierRound linked = some m)
    (hb : recentBlocks.lookup m = some block) :
    ancestorsLoop recentBlocks earlierRound (fuel + 1) linked =
      ancestorsLoop recentBlocks earlierRound fuel (expand linked block) := by
  rw [ancestorsLoop, h]
  simp only [hb]

theorem expandedRefs_stop {fuel : Nat} (h : nextToExpand earlierRound linked = none) :
    expandedRefs recentBlocks earlierRound fuel linked = [] := by
  rw [expandedRefs, h]

theorem expandedRefs_expand {fuel : Nat} (h : nextToExpand earlierRound linked = some m)
    (hb : recentBlocks.lookup m = some block) :
    expandedRefs recentBlocks earlierRound (fuel + 1) linked =
      m :: expandedRefs recentBlocks earlierRound fuel (expand linked block) := by
  rw [expandedRefs, h]
  simp only [hb]

/-! ### The loop invariant -/

/-- What holds at the head of the `while` loop, with `expanded` the references
    popped so far: everything seen is reachable, everything popped is above the
    earlier round and above everything left, and the ancestors of the block and
    of every block popped are left or popped. -/
structure LoopInv (recentBlocks : RecentBlocks) (laterBlock : VerifiedBlock) (earlierRound : Nat)
    (linked : SortedSet BlockRef) (expanded : Finset BlockRef) : Prop where
  linked_reaches : ∀ x ∈ linked, Reaches recentBlocks laterBlock x
  expanded_reaches : ∀ x ∈ expanded, Reaches recentBlocks laterBlock x
  expanded_above : ∀ x ∈ expanded, earlierRound < x.round
  below_expanded : ∀ y ∈ expanded, ∀ x ∈ linked, x < y
  ancestors_seen : ∀ x ∈ laterBlock.ancestors, x ∈ linked ∨ x ∈ expanded
  closed : ∀ y ∈ expanded, ∃ block, recentBlocks.lookup y = some block ∧
    ∀ x ∈ block.ancestors, x ∈ linked ∨ x ∈ expanded

theorem loopInv_start : LoopInv recentBlocks laterBlock earlierRound (SortedSet.ofList laterBlock.ancestors) ∅ where
  linked_reaches _ hx := .ancestor (SortedSet.mem_ofList.mp hx)
  expanded_reaches x hx := absurd hx (Finset.notMem_empty x)
  expanded_above x hx := absurd hx (Finset.notMem_empty x)
  below_expanded y hy := absurd hy (Finset.notMem_empty y)
  ancestors_seen _ hx := .inl (SortedSet.mem_ofList.mpr hx)
  closed y hy := absurd hy (Finset.notMem_empty y)

namespace LoopInv

variable {expanded : Finset BlockRef}

/-- **One turn keeps the invariant**: the reference popped was not popped
    before, and it moves from what is left to what is done, its ancestors
    joining what is left. -/
theorem expand (hrounds : AncestorsBelow recentBlocks) (h : LoopInv recentBlocks laterBlock earlierRound linked expanded)
    (hnext : nextToExpand earlierRound linked = some m) (hb : recentBlocks.lookup m = some block) :
    m ∉ expanded ∧ LoopInv recentBlocks laterBlock earlierRound (Dag.expand linked block) (insert m expanded) := by
  obtain ⟨hlast, habove⟩ := nextToExpand_eq_some hnext
  obtain ⟨hm, hmax⟩ := SortedSet.last?_eq_some hlast
  have hmem : ∀ {x}, x ∈ Dag.expand linked block ↔ (x ∈ linked ∧ x ≠ m) ∨ x ∈ block.ancestors := mem_expand hlast
  -- the ancestors of the block popped are of lower rounds, so below it
  have hanc : ∀ x ∈ block.ancestors, x < m := fun x hx => BlockRef.lt_of_round_lt (hrounds m block hb x hx)
  -- what was left or done is left or done after the turn
  have hseen : ∀ {x}, x ∈ linked ∨ x ∈ expanded → x ∈ Dag.expand linked block ∨ x ∈ insert m expanded := by
    rintro x (hx | hx)
    · by_cases hxm : x = m
      · exact .inr (Finset.mem_insert.mpr (.inl hxm))
      · exact .inl (hmem.mpr (.inl ⟨hx, hxm⟩))
    · exact .inr (Finset.mem_insert_of_mem hx)
  refine ⟨fun hmE => lt_irrefl m (h.below_expanded m hmE m hm), ?_⟩
  constructor
  · intro x hx
    rcases hmem.mp hx with ⟨hx, -⟩ | hx
    · exact h.linked_reaches x hx
    · exact .link (h.linked_reaches m hm) hb hx
  · intro x hx
    rcases Finset.mem_insert.mp hx with rfl | hx
    · exact h.linked_reaches x hm
    · exact h.expanded_reaches x hx
  · intro x hx
    rcases Finset.mem_insert.mp hx with rfl | hx
    · exact habove
    · exact h.expanded_above x hx
  · intro y hy x hx
    rcases Finset.mem_insert.mp hy with rfl | hy
    · rcases hmem.mp hx with ⟨hx, hxm⟩ | hx
      · exact hmax x hx hxm
      · exact hanc x hx
    · rcases hmem.mp hx with ⟨hx, -⟩ | hx
      · exact h.below_expanded y hy x hx
      · exact (hanc x hx).trans (h.below_expanded y hy m hm)
  · exact fun x hx => hseen (h.ancestors_seen x hx)
  · intro y hy
    rcases Finset.mem_insert.mp hy with rfl | hy
    · exact ⟨block, hb, fun x hx => .inl (hmem.mpr (.inr hx))⟩
    · obtain ⟨block', hb', hcl⟩ := h.closed y hy
      exact ⟨block', hb', fun x hx => hseen (hcl x hx)⟩

/-- **Completeness once the loop stops**: by induction on the way a reference
    is reached, every reference reachable at the earlier round or above is left
    or done, since the block that links to it is above that round and so was
    popped. -/
theorem complete (hrounds : AncestorsBelow recentBlocks) (h : LoopInv recentBlocks laterBlock earlierRound linked expanded)
    (hstop : ∀ x ∈ linked, x.round ≤ earlierRound) {x : BlockRef} (hx : Reaches recentBlocks laterBlock x)
    (hround : earlierRound ≤ x.round) : x ∈ linked ∨ x ∈ expanded := by
  induction hx with
  | ancestor hx => exact h.ancestors_seen _ hx
  | @link r x block' _ hb hx ih =>
    have hlt := hrounds r block' hb x hx
    rcases ih (by omega) with hr | hr
    · exact absurd (hstop r hr) (by omega)
    · obtain ⟨block'', hb', hcl⟩ := h.closed r hr
      rw [hb] at hb'
      cases hb'
      exact hcl x hx

/-- Popping a reference in memory not yet popped leaves one fewer of them. -/
theorem card_sdiff_insert_lt {keys expanded : Finset BlockRef} (hm : m ∈ keys) (hmE : m ∉ expanded) :
    (keys \ insert m expanded).card < (keys \ expanded).card := by
  rw [Finset.sdiff_insert]
  exact Finset.card_erase_lt_of_mem (Finset.mem_sdiff.mpr ⟨hm, hmE⟩)

/-- What the loop does from a state: it stops there, or with the invariant
    where it stops, having popped in decreasing order the references done
    then and not before. -/
def Runs (recentBlocks : RecentBlocks) (laterBlock : VerifiedBlock) (earlierRound fuel : Nat)
    (linked : SortedSet BlockRef) (expanded : Finset BlockRef) : Prop :=
  ∃ linked' expanded', ancestorsLoop recentBlocks earlierRound fuel linked = .ok linked' ∧
    LoopInv recentBlocks laterBlock earlierRound linked' expanded' ∧
    (∀ x ∈ linked', x.round ≤ earlierRound) ∧
    (∀ x, x ∈ expanded' ↔ x ∈ expanded ∨ x ∈ expandedRefs recentBlocks earlierRound fuel linked) ∧
    (expandedRefs recentBlocks earlierRound fuel linked).Pairwise (· > ·) ∧
    ∀ x ∈ expandedRefs recentBlocks earlierRound fuel linked, ∀ y ∈ expanded, x < y

/-- Where the loop stops, it returns what is left and pops nothing. -/
theorem runs_stop (h : LoopInv recentBlocks laterBlock earlierRound linked expanded)
    (hnext : nextToExpand earlierRound linked = none) (fuel : Nat) :
    Runs recentBlocks laterBlock earlierRound fuel linked expanded :=
  ⟨linked, expanded, ancestorsLoop_stop hnext, h, nextToExpand_eq_none hnext,
    by simp [expandedRefs_stop hnext], by simp [expandedRefs_stop hnext], by simp [expandedRefs_stop hnext]⟩

/-- The reference to pop is in memory when every reachable one above the earlier round is. -/
theorem lookup_of_next (hmem : ∀ x, Reaches recentBlocks laterBlock x → earlierRound < x.round → x ∈ recentBlocks)
    (h : LoopInv recentBlocks laterBlock earlierRound linked expanded) (hnext : nextToExpand earlierRound linked = some m) :
    m ∈ recentBlocks.keys.toFinset ∧ ∃ block, recentBlocks.lookup m = some block := by
  obtain ⟨hlast, habove⟩ := nextToExpand_eq_some hnext
  have hm := hmem m (h.linked_reaches m (SortedSet.last?_eq_some hlast).1) habove
  exact ⟨List.mem_toFinset.mpr (AList.mem_keys.mp hm), Option.isSome_iff_exists.mp (AList.lookup_isSome.mpr hm)⟩

/-- **The whole loop**, by induction on its fuel: with fuel for every block in
    memory not yet popped, it stops without a panic. -/
theorem run (hrounds : AncestorsBelow recentBlocks)
    (hmem : ∀ x, Reaches recentBlocks laterBlock x → earlierRound < x.round → x ∈ recentBlocks) :
    ∀ (fuel : Nat) {linked : SortedSet BlockRef} {expanded : Finset BlockRef},
      LoopInv recentBlocks laterBlock earlierRound linked expanded →
      (recentBlocks.keys.toFinset \ expanded).card ≤ fuel → Runs recentBlocks laterBlock earlierRound fuel linked expanded := by
  intro fuel
  induction fuel with
  | zero =>
    intro linked expanded h hcard
    cases hnext : nextToExpand earlierRound linked with
    | none => exact runs_stop h hnext 0
    | some m =>
      -- the reference to pop is in memory and not popped yet: no fuel is not enough
      obtain ⟨hkey, block, hb⟩ := lookup_of_next hmem h hnext
      have hlt := card_sdiff_insert_lt hkey (h.expand hrounds hnext hb).1
      omega
  | succ fuel ih =>
    intro linked expanded h hcard
    cases hnext : nextToExpand earlierRound linked with
    | none => exact runs_stop h hnext (fuel + 1)
    | some m =>
      obtain ⟨hkey, block, hb⟩ := lookup_of_next hmem h hnext
      obtain ⟨hmE, h'⟩ := h.expand hrounds hnext hb
      have hm := (SortedSet.last?_eq_some (nextToExpand_eq_some hnext).1).1
      have hlt := card_sdiff_insert_lt hkey hmE
      obtain ⟨linked', expanded', hloop, hinv, hstop, hexp, hsorted, hbelow⟩ := ih h' (by omega)
      rw [Runs, ancestorsLoop_expand hnext hb, expandedRefs_expand hnext hb]
      refine ⟨linked', expanded', hloop, hinv, hstop, fun x => ?_, ?_, ?_⟩
      · -- popped now are those popped before, this one, and those popped after it
        rw [hexp x, Finset.mem_insert, List.mem_cons]
        constructor
        · rintro ((rfl | hx) | hx)
          · exact .inr (.inl rfl)
          · exact .inl hx
          · exact .inr (.inr hx)
        · rintro (hx | rfl | hx)
          · exact .inl (.inr hx)
          · exact .inl (.inl rfl)
          · exact .inr hx
      · exact List.Pairwise.cons (fun x hx => hbelow x hx m (Finset.mem_insert_self m expanded)) hsorted
      · intro x hx y hy
        rcases List.mem_cons.mp hx with rfl | hx
        · exact h.below_expanded y hy x hm
        · exact hbelow x hx y (Finset.mem_insert_of_mem hy)

end LoopInv

end Traversal

theorem getInMemory_eq_ok {recentBlocks : RecentBlocks} {r : BlockRef} {block : VerifiedBlock} :
    getInMemory recentBlocks r = .ok block ↔ recentBlocks.lookup r = some block := by
  unfold getInMemory
  split
  case h_1 block' hb =>
    rw [hb, Option.some_inj]
    exact Except.pure_eq_ok
  case h_2 hb => simp [hb]

/-- The loop returns only once it would pop nothing more. -/
theorem ancestorsLoop_eq_ok_stop {recentBlocks : RecentBlocks} {earlierRound : Nat} (fuel : Nat) :
    ∀ {linked linked' : SortedSet BlockRef}, ancestorsLoop recentBlocks earlierRound fuel linked = .ok linked' →
      nextToExpand earlierRound linked' = none := by
  induction fuel with
  | zero =>
    intro linked linked' h
    cases hn : nextToExpand earlierRound linked with
    | none =>
      rw [ancestorsLoop_stop hn, Except.ok.injEq] at h
      exact h ▸ hn
    | some m =>
      rw [ancestorsLoop_zero hn] at h
      cases h
  | succ fuel ih =>
    intro linked linked' h
    cases hn : nextToExpand earlierRound linked with
    | none =>
      rw [ancestorsLoop_stop hn, Except.ok.injEq] at h
      exact h ▸ hn
    | some m =>
      cases hb : recentBlocks.lookup m with
      | none =>
        rw [ancestorsLoop, hn] at h
        simp [hb] at h
      | some block =>
        rw [ancestorsLoop_expand hn hb] at h
        exact ih h

/-- Every block `ancestors_at_uncommitted_round` returns is in memory under its
    reference, at the earlier round. -/
theorem mem_ancestorsAtUncommittedRound {dag : DagState} {laterBlock : VerifiedBlock} {earlierRound fuel : Nat}
    {blocks : List VerifiedBlock} (h : dag.ancestorsAtUncommittedRound laterBlock earlierRound fuel = .ok blocks)
    {b : VerifiedBlock} (hb : b ∈ blocks) :
    dag.recentBlocks.lookup b.reference = some b ∧ b.round = earlierRound := by
  unfold DagState.ancestorsAtUncommittedRound at h
  by_cases h1 : earlierRound ≤ dag.lastCommitRound
  · simp [h1] at h
  by_cases h2 : laterBlock.round ≤ earlierRound
  · simp [h1, h2] at h
  simp only [h1, h2, if_false] at h
  obtain ⟨linked, hloop, hmap⟩ := Except.bind_eq_ok.mp h
  obtain ⟨r, hr, hrb⟩ := mapM_ok_mem hmap b hb
  have hlookup := getInMemory_eq_ok.mp hrb
  rw [dag.reference_of_lookup hlookup]
  -- the range starts at the earlier round, and the loop left nothing above it
  rw [SortedSet.mem_rangeFrom, slotStart_le_iff] at hr
  have hstop := nextToExpand_eq_none (ancestorsLoop_eq_ok_stop fuel hloop) r hr.1
  rw [← dag.reference_of_lookup hlookup, VerifiedBlock.reference_round] at hr hstop
  exact ⟨hlookup, le_antisymm hstop hr.2⟩

/-- **`ancestors_at_uncommitted_round` returns the history of the block at the
    earlier round.** When every block in memory has its ancestors at lower
    rounds and every block above the last commit that the walk reaches is in
    memory, then for an earlier round between the last commit round and the
    block's round and fuel for every block in memory, it returns without a
    panic, in increasing order of reference, the blocks in memory of the
    references of that round reachable from the block; the references it pops
    are those reachable above that round, in decreasing order, so each once. -/
theorem ancestors_at_uncommitted_round_reachable (dag : DagState) (laterBlock : VerifiedBlock) (earlierRound : Nat)
    (hrounds : ∀ e ∈ dag.recentBlocks.entries, ∀ x ∈ e.2.ancestors, x.round < e.2.round)
    (hmem : ∀ r, Reaches dag.recentBlocks laterBlock r → dag.lastCommitRound < r.round → r ∈ dag.recentBlocks)
    (hlow : dag.lastCommitRound < earlierRound) (hhigh : earlierRound < laterBlock.round)
    (fuel : Nat) (hfuel : dag.recentBlocks.keys.length ≤ fuel) :
    ∃ blocks, dag.ancestorsAtUncommittedRound laterBlock earlierRound fuel = .ok blocks ∧
      (blocks.map VerifiedBlock.reference).Pairwise (· < ·) ∧
      (∀ r, r ∈ blocks.map VerifiedBlock.reference ↔
        Reaches dag.recentBlocks laterBlock r ∧ r.round = earlierRound) ∧
      (∀ b ∈ blocks, dag.recentBlocks.lookup b.reference = some b) ∧
      (expandedRefs dag.recentBlocks earlierRound fuel (SortedSet.ofList laterBlock.ancestors)).Pairwise (· > ·) ∧
      ∀ r, r ∈ expandedRefs dag.recentBlocks earlierRound fuel (SortedSet.ofList laterBlock.ancestors) ↔
        Reaches dag.recentBlocks laterBlock r ∧ earlierRound < r.round := by
  have hbelow := dag.ancestorsBelow hrounds
  have hcard : (dag.recentBlocks.keys.toFinset \ ∅).card ≤ fuel := by
    rw [Finset.sdiff_empty, List.toFinset_card_of_nodup dag.recentBlocks.keys_nodup]
    exact hfuel
  obtain ⟨linked, expanded, hloop, hinv, hstop, hexp, hsorted, -⟩ :=
    LoopInv.run hbelow (fun x hx (hxr : earlierRound < x.round) => hmem x hx (by omega)) fuel loopInv_start hcard
  -- what the range keeps once the loop stops: the reachable references of the earlier round
  have hrange : ∀ r, r ∈ linked.rangeFrom (slotStart earlierRound) ↔
      Reaches dag.recentBlocks laterBlock r ∧ r.round = earlierRound := by
    intro r
    rw [SortedSet.mem_rangeFrom, slotStart_le_iff]
    constructor
    · rintro ⟨hr, hround⟩
      exact ⟨hinv.linked_reaches r hr, le_antisymm (hstop r hr) hround⟩
    · rintro ⟨hr, hround⟩
      rcases hinv.complete hbelow hstop hr hround.ge with hl | he
      · exact ⟨hl, hround.ge⟩
      · exact absurd (hinv.expanded_above r he) (by omega)
  obtain ⟨blocks, hmap, hall⟩ := mapM_ok_forall₂ (f := getInMemory dag.recentBlocks)
    (l := linked.rangeFrom (slotStart earlierRound)) fun r hr => by
      obtain ⟨hreach, hround⟩ := (hrange r).mp hr
      exact Option.isSome_iff_exists.mp (AList.lookup_isSome.mpr (hmem r hreach (by omega))) |>.imp
        fun _ hb => getInMemory_eq_ok.mpr hb
  -- each block returned is the one stored under its reference
  have hrefs : blocks.map VerifiedBlock.reference = linked.rangeFrom (slotStart earlierRound) := by
    have hforall := List.forall₂_map_right_iff.mpr (hall.imp fun r b hrb =>
      (dag.reference_of_lookup (getInMemory_eq_ok.mp hrb)).symm)
    rw [List.forall₂_eq_eq_eq] at hforall
    exact hforall.symm
  refine ⟨blocks, ?_, hrefs ▸ SortedSet.sorted_rangeFrom linked _, fun r => hrefs ▸ hrange r, ?_, hsorted, ?_⟩
  · simp [DagState.ancestorsAtUncommittedRound, not_le.mpr hlow, not_le.mpr hhigh, hloop, Except.ok_bind, hmap]
  · intro b hb
    obtain ⟨r, -, hrb⟩ := mapM_ok_mem hmap b hb
    have hlookup := getInMemory_eq_ok.mp hrb
    rwa [dag.reference_of_lookup hlookup]
  · intro r
    have hpopped : r ∈ expanded ↔
        r ∈ expandedRefs dag.recentBlocks earlierRound fuel (SortedSet.ofList laterBlock.ancestors) := by
      rw [hexp r, or_iff_right (Finset.notMem_empty r)]
    rw [← hpopped]
    constructor
    · intro hr
      exact ⟨hinv.expanded_reaches r hr, hinv.expanded_above r hr⟩
    · rintro ⟨hr, hround⟩
      rcases hinv.complete hbelow hstop hr hround.le with hl | he
      · exact absurd (hstop r hl) (by omega)
      · exact he

/-- A block of round 1 by each of two authorities, and one of round 2 that
    links to both, as memory holds them; no commit yet. -/
def twoRoundDag : DagState where
  ownIndex := 0
  recentBlocks := [(⟨⟨1, 0, 0, []⟩, 1⟩ : VerifiedBlock), ⟨⟨1, 1, 0, []⟩, 2⟩,
    ⟨⟨2, 0, 0, [⟨1, 0, 1⟩, ⟨1, 1, 2⟩]⟩, 3⟩].foldl (fun m b => m.insert b.reference b) ∅
  cachedRefs := [SortedSet.empty, SortedSet.empty]
  lastCommit := none
  highestAcceptedRound := 2
  stored_reference := by decide

/-- A block of round 3 that links to the block of round 2. -/
def roundThreeBlock : VerifiedBlock := ⟨⟨3, 1, 0, [⟨2, 0, 3⟩]⟩, 4⟩

example : twoRoundDag.ancestorsAtUncommittedRound roundThreeBlock 1 3 =
    .ok [⟨⟨1, 0, 0, []⟩, 1⟩, ⟨⟨1, 1, 0, []⟩, 2⟩] := by decide

theorem ancestors_at_uncommitted_round_two_rounds :
    (∀ e ∈ twoRoundDag.recentBlocks.entries, ∀ x ∈ e.2.ancestors, x.round < e.2.round) ∧
    (∀ r, Reaches twoRoundDag.recentBlocks roundThreeBlock r → twoRoundDag.lastCommitRound < r.round →
      r ∈ twoRoundDag.recentBlocks) ∧
    twoRoundDag.lastCommitRound < 1 ∧ 1 < roundThreeBlock.round ∧ twoRoundDag.recentBlocks.keys.length ≤ 3 ∧
    ∃ blocks, twoRoundDag.ancestorsAtUncommittedRound roundThreeBlock 1 3 = .ok blocks ∧
      (blocks.map VerifiedBlock.reference).Pairwise (· < ·) ∧
      (∀ r, r ∈ blocks.map VerifiedBlock.reference ↔
        Reaches twoRoundDag.recentBlocks roundThreeBlock r ∧ r.round = 1) ∧
      (∀ b ∈ blocks, twoRoundDag.recentBlocks.lookup b.reference = some b) ∧
      (expandedRefs twoRoundDag.recentBlocks 1 3 (SortedSet.ofList roundThreeBlock.ancestors)).Pairwise (· > ·) ∧
      ∀ r, r ∈ expandedRefs twoRoundDag.recentBlocks 1 3 (SortedSet.ofList roundThreeBlock.ancestors) ↔
        Reaches twoRoundDag.recentBlocks roundThreeBlock r ∧ 1 < r.round :=
  have hrounds : ∀ e ∈ twoRoundDag.recentBlocks.entries, ∀ x ∈ e.2.ancestors, x.round < e.2.round := by decide
  have hmem : ∀ r, Reaches twoRoundDag.recentBlocks roundThreeBlock r → twoRoundDag.lastCommitRound < r.round →
      r ∈ twoRoundDag.recentBlocks := reaches_mem_of_closed (by decide) (by decide)
  ⟨hrounds, hmem, by decide, by decide, by decide,
    ancestors_at_uncommitted_round_reachable twoRoundDag roundThreeBlock 1 hrounds hmem (by decide) (by decide) 3
      (by decide)⟩

end Dag

end Mango.Consensus
