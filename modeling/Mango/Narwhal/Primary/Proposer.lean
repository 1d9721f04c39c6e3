/-
  Mango.Narwhal.Primary.Proposer

  The proposer (`narwhal/primary/src/proposer.rs`) over the proposer store
  (`narwhal/storage/src/proposer_store.rs`): the task that advances the
  primary's round and creates its headers.

  `Proposer::run` is a loop. At its top it checks whether to create a header;
  otherwise it waits for one of its inputs: parents from the synchronizer,
  batch digests from the workers, system messages, commits of its own
  headers, and three timers. Each input is an event, and events come in any
  order: the timers' durations only decide when they fire, and the model
  covers every timing. A restart builds a fresh proposer (round 0, the genesis
  certificates as parents, `advance = true`) over the persistent store, whose
  last header is what `create_new_header` checks to avoid proposing twice for
  one round. The clock belongs to the world and keeps running across restarts.

  What the proposer sends to the certifier is logged with the path that sent
  it, together with the restarts (`ProposerOutput`). Across a restart a
  header can be created again for a round that the store no longer holds,
  since the store keeps only the last header and compares its round alone
  (`restart_reproposes_round`).
-/
import Mathlib
import Mango.Lib.Except
import Mango.Lib.List
import Mango.Narwhal.Consensus.LeaderSchedule

namespace Mango.Narwhal

open Mango.Lib

/-! ## State -/

/-- The fixed parameters of a proposer (`Proposer::spawn`); delays are in ms. -/
structure ProposerConfig where
  authorityId : Nat
  committee : Committee
  headerNumOfBatchesThreshold : Nat
  maxHeaderNumOfBatches : Nat
  maxHeaderDelay : Nat
  minHeaderDelay : Nat
  /-- `Certificate::genesis`, the parents of a fresh proposer. -/
  genesis : List Certificate
  useHeaderV2 : Bool
  rng : LeaderRng

/-- What `proposed_headers` keeps of a header until it is committed. -/
structure ProposedHeader where
  header : Header
  digests : List Nat
  systemMessages : List Nat

/-- The proposer: the fields of `Proposer` its logic reads, and the locals of
    `Proposer::run`. -/
structure Proposer where
  round : Nat
  lastParents : List Certificate
  lastLeader : Option Certificate
  digests : List Nat
  systemMessages : List Nat
  /-- `proposed_headers`, a `BTreeMap` by round: kept sorted by round. -/
  proposedHeaders : List (Nat × ProposedHeader)
  advance : Bool
  /-- Whether `max_delay_timer` has fired since it was last reset. -/
  maxDelayTimedOut : Bool
  /-- Whether `min_delay_timer` has fired since it was last reset. -/
  minDelayTimedOut : Bool
  optLatestHeader : Option Header

/-- `BTreeMap::insert` on `proposed_headers`. -/
def insertProposed (round : Nat) (entry : ProposedHeader) :
    List (Nat × ProposedHeader) → List (Nat × ProposedHeader)
  | [] => [(round, entry)]
  | (r, e) :: rest =>
    if round < r then (round, entry) :: (r, e) :: rest
    else if round = r then (round, entry) :: rest
    else (r, e) :: insertProposed round entry rest

/-- The vote count of `enough_votes`: the stake of the parents that include the
    leader, and the stake of those that do not. -/
def leaderVotes (committee : Committee) (leader : Nat) (parents : List Certificate) : Nat × Nat :=
  parents.foldl (fun votes c =>
    let stake := committee.stakeById c.origin
    if leader ∈ c.parents then (votes.1 + stake, votes.2) else (votes.1, votes.2 + stake)) (0, 0)

namespace Proposer

variable (cfg : ProposerConfig) (table : LeaderSwapTable)

/-- A fresh proposer (`Proposer::spawn`, and the locals `run` starts with). -/
def spawn : Proposer := ⟨0, cfg.genesis, none, [], [], [], true, false, false, none⟩

/-- `max_delay`: half the delay when this node leads the next round. -/
def maxDelay (p : Proposer) : Except Halt Nat :=
  if (p.round + 1) % 2 = 0 then do
    let leader ← LeaderSchedule.leader cfg.rng cfg.committee table (p.round + 1)
    return if leader = cfg.authorityId then cfg.maxHeaderDelay / 2 else cfg.maxHeaderDelay
  else pure cfg.maxHeaderDelay

/-- `min_delay`: no delay when this node leads the next round, by the leader
    schedule on even rounds and by the committee on odd ones. -/
def minDelay (p : Proposer) : Except Halt Nat := do
  let nextRound := p.round + 1
  let isLeader ←
    if 1 < cfg.committee.size then
      if nextRound % 2 = 0 then
        (· == cfg.authorityId) <$> LeaderSchedule.leader cfg.rng cfg.committee table nextRound
      else (· == cfg.authorityId) <$> cfg.committee.leader cfg.rng nextRound
    else pure false
  return if isLeader then 0 else cfg.minHeaderDelay

/-- `update_leader`: the leader of this round among the parents. -/
def updateLeader (p : Proposer) : Except Halt (Bool × Proposer) := do
  let leader ← LeaderSchedule.leader cfg.rng cfg.committee table p.round
  let lastLeader := p.lastParents.find? (·.origin == leader)
  return (lastLeader.isSome, { p with lastLeader })

/-- `enough_votes`: this node leads the next round, or the parents give the last
    leader f+1 votes or 2f+1 non-votes, or there is no leader to vote for. -/
def enoughVotes (p : Proposer) : Except Halt Bool := do
  let nextLeader ← LeaderSchedule.leader cfg.rng cfg.committee table (p.round + 1)
  if nextLeader = cfg.authorityId then return true
  else
    match p.lastLeader with
    | none => return true
    | some leader =>
      let (votesForLeader, noVotes) := leaderVotes cfg.committee leader.digest p.lastParents
      return decide (cfg.committee.validityThreshold ≤ votesForLeader) ||
        decide (cfg.committee.quorumThreshold ≤ noVotes)

/-- `ready`: whether the DAG may advance without waiting for a timeout. -/
def ready (p : Proposer) : Except Halt (Bool × Proposer) :=
  if p.round % 2 = 0 then updateLeader cfg table p
  else do return (← enoughVotes cfg table p, p)

/-- The new header of `create_new_header`, with the proposer after it and the
    clock after the wait for the parents' creation times. -/
def newHeader (now : Nat) (p : Proposer) : Except Halt (Header × Proposer × Nat) := do
  let numOfDigests := min p.digests.length cfg.maxHeaderNumOfBatches
  let headerDigests := p.digests.take numOfDigests
  let parents := p.lastParents
  -- it sleeps while the clock is before a parent's creation time
  let now := max now ((parents.map (·.createdAt)).foldl max 0)
  let header : Header :=
    { author := cfg.authorityId, round := p.round, epoch := cfg.committee.epoch, createdAt := now,
      payload := headerDigests
      systemMessages := if cfg.useHeaderV2 then p.systemMessages else []
      parents := (parents.map (·.digest)).dedup.insertionSort (· ≤ ·) }
  -- the metrics label of the header asks the leader schedule
  let _ ← LeaderSchedule.leader cfg.rng cfg.committee table
    (if p.round % 2 = 0 then p.round else p.round - 1)
  return (header,
    { p with
      digests := p.digests.drop numOfDigests
      systemMessages := []
      lastParents := []
      proposedHeaders :=
        insertProposed p.round ⟨header, headerDigests, p.systemMessages⟩ p.proposedHeaders },
    now)

/-- `create_new_header`: the stored header when it is of this round and epoch,
    and a new one otherwise; the flag says which. -/
def createNewHeader (store : Option Header) (now : Nat) (p : Proposer) :
    Except Halt (Header × Bool × Proposer × Nat) :=
  match store with
  | some lastHeader =>
    if lastHeader.round = p.round ∧ lastHeader.epoch = cfg.committee.epoch then
      -- "We have already produced a header for the current round, idempotent re-send"
      pure (lastHeader, false, { p with lastParents := [] }, now)
    else (fun (h, p, now) => (h, true, p, now)) <$> newHeader cfg table now p
  | none => (fun (h, p, now) => (h, true, p, now)) <$> newHeader cfg table now p

/-- `should_create_header`: a quorum of parents, and a timeout, or enough digests
    or the minimum delay when the DAG may advance. -/
def shouldCreateHeader (p : Proposer) : Bool :=
  (p.maxDelayTimedOut ||
      ((decide (cfg.headerNumOfBatchesThreshold ≤ p.digests.length) || p.minDelayTimedOut) &&
        p.advance)) &&
    !p.lastParents.isEmpty

/-- The branch of `run` for the rounds of committed own headers: the payloads of
    the uncommitted headers at or below the highest of them are queued again. -/
def committedOwnHeaders (rounds : List Nat) (p : Proposer) : Proposer :=
  let maxCommittedRound := rounds.foldl max 0
  let proposed := p.proposedHeaders.filter (·.1 ∉ rounds)
  let retransmit := proposed.takeWhile (·.1 ≤ maxCommittedRound)
  if retransmit.isEmpty then { p with proposedHeaders := proposed }
  else
    { p with
      digests := retransmit.flatMap (·.2.digests) ++ p.digests
      systemMessages := retransmit.flatMap (·.2.systemMessages) ++ p.systemMessages
      proposedHeaders := proposed.drop retransmit.length }

end Proposer

/-! ## The proposer in its world -/

/-- What reaches the certifier (`tx_headers`), by the path that sent it, and the
    restarts between. -/
inductive ProposerOutput where
  /-- A new header from `make_header`. -/
  | created (header : Header)
  /-- The stored header, sent again by `make_header`. -/
  | reused (header : Header)
  /-- The latest header, sent again when `header_repeat_timer` fires. -/
  | resent (header : Header)
  | restarted
  deriving DecidableEq

/-- The proposer with what outlives it: the store, the clock, the leader swap
    table that consensus updates, and the log of what was sent. -/
structure ProposerWorld where
  /-- `ProposerStore`: the last header proposed. -/
  lastProposed : Option Header
  clock : Nat
  leaderSwapTable : LeaderSwapTable
  proposer : Proposer
  log : List ProposerOutput

/-- The inputs the proposer's loop waits for, and a restart. -/
inductive ProposerEvent where
  | parents (certs : List Certificate) (round : Nat)
  | ourDigest (digest : Nat)
  | systemMessage (message : Nat)
  | committedOwnHeaders (rounds : List Nat)
  | maxDelayTimer
  | minDelayTimer
  | headerRepeatTimer
  /-- Time passes. -/
  | elapse (ms : Nat)
  /-- Consensus installs a new leader swap table. -/
  | swapTable (table : LeaderSwapTable)
  | restart

namespace ProposerWorld

variable (cfg : ProposerConfig)

/-- Nothing stored yet, and the proposer not started. -/
def init : ProposerWorld := ⟨none, 0, LeaderSwapTable.default, Proposer.spawn cfg, []⟩

/-- The top of the loop: when `should_create_header` holds, advance the round,
    `make_header` (create, store, send), and reset `advance` and the timers. -/
def tryPropose (w : ProposerWorld) : Except Halt ProposerWorld :=
  if w.proposer.shouldCreateHeader cfg then do
    let p := { w.proposer with round := w.proposer.round + 1 }
    let (header, fresh, p, clock) ← p.createNewHeader cfg w.leaderSwapTable w.lastProposed w.clock
    -- the timers are reset with the new round's delays
    let _ ← p.maxDelay cfg w.leaderSwapTable
    let _ ← p.minDelay cfg w.leaderSwapTable
    return { w with
      lastProposed := some header
      clock
      proposer :=
        { p with
          optLatestHeader := some header, advance := false
          maxDelayTimedOut := false, minDelayTimedOut := false }
      log := w.log ++ [if fresh then .created header else .reused header] }
  else pure w

/-- The branch of the loop that takes parents: jump ahead to a higher round,
    ignore a lower one, add to this round's; then ask whether to advance. -/
def receiveParents (w : ProposerWorld) (certs : List Certificate) (round : Nat) :
    Except Halt ProposerWorld := do
  let table := w.leaderSwapTable
  let p := w.proposer
  match compare round p.round with
  | .lt => pure w
  | .gt =>
    let p := { p with round, lastParents := certs, advance := false }
    let _ ← p.maxDelay cfg table
    -- the minimum delay timer is reset to fire at once
    let p := { p with maxDelayTimedOut := false, minDelayTimedOut := false }
    let (advance, p) ← p.ready cfg table
    pure { w with proposer := { p with advance } }
  | .eq =>
    let p := { p with lastParents := p.lastParents ++ certs }
    let minDelay ← p.minDelay cfg table
    let p := if minDelay = 0 then { p with minDelayTimedOut := false } else p
    let (advance, p) ← p.ready cfg table
    pure { w with proposer := { p with advance } }

/-- One input of the loop's `select!`, or a restart. -/
def handle (w : ProposerWorld) : ProposerEvent → Except Halt ProposerWorld
  | .parents certs round => w.receiveParents cfg certs round
  | .ourDigest digest => pure { w with proposer.digests := w.proposer.digests ++ [digest] }
  | .systemMessage m =>
    pure { w with proposer.systemMessages := w.proposer.systemMessages ++ [m] }
  | .committedOwnHeaders rounds =>
    pure { w with proposer := w.proposer.committedOwnHeaders rounds }
  | .maxDelayTimer => pure { w with proposer.maxDelayTimedOut := true }
  | .minDelayTimer => pure { w with proposer.minDelayTimedOut := true }
  | .headerRepeatTimer =>
    match w.proposer.optLatestHeader with
    | some header => pure { w with log := w.log ++ [.resent header] }
    | none => pure w
  | .elapse ms => pure { w with clock := w.clock + ms }
  | .swapTable table => pure { w with leaderSwapTable := table }
  | .restart => pure { w with proposer := Proposer.spawn cfg, log := w.log ++ [.restarted] }

/-- One event, then the loop's check at its top. -/
def step (w : ProposerWorld) (e : ProposerEvent) : Except Halt ProposerWorld := do
  tryPropose cfg (← w.handle cfg e)

/-- The first start of the proposer: its loop checks once before any event. -/
def start : Except Halt ProposerWorld := (init cfg).tryPropose cfg

/-- A sequence of events. -/
def run (w : ProposerWorld) (events : List ProposerEvent) : Except Halt ProposerWorld :=
  events.foldlM (step cfg) w

end ProposerWorld

/-! ## What each call does -/

namespace Proposer

variable {cfg : ProposerConfig} {table : LeaderSwapTable}

/-- `ready` sets at most the last leader. -/
theorem ready_eq {p p' : Proposer} {b : Bool} (h : p.ready cfg table = .ok (b, p')) :
    p' = { p with lastLeader := p'.lastLeader } := by
  unfold ready at h
  split at h
  · -- an even round: `update_leader` only sets the last leader
    unfold updateLeader at h
    obtain ⟨_, -, h⟩ := Except.bind_eq_ok.mp h
    rw [Except.pure_eq_ok, Prod.mk.injEq] at h
    rw [← h.2]
  · obtain ⟨_, -, h⟩ := Except.bind_eq_ok.mp h
    rw [Except.pure_eq_ok, Prod.mk.injEq] at h
    rw [← h.2]

/-- What `create_new_header` makes anew: a header of the proposer's round with
    the first digests of the queue, at most `max_header_num_of_batches`. They
    and all the system messages are registered in `proposed_headers` under the
    round, and the parents are cleared. -/
theorem newHeader_eq {now now' : Nat} {p p' : Proposer} {header : Header}
    (h : p.newHeader cfg table now = .ok (header, p', now')) :
    header.round = p.round ∧
      header.payload = p.digests.take (min p.digests.length cfg.maxHeaderNumOfBatches) ∧
      (cfg.useHeaderV2 = true → header.systemMessages = p.systemMessages) ∧
      p' = { p with
        digests := p.digests.drop (min p.digests.length cfg.maxHeaderNumOfBatches)
        systemMessages := []
        lastParents := []
        proposedHeaders := insertProposed p.round
          ⟨header, p.digests.take (min p.digests.length cfg.maxHeaderNumOfBatches), p.systemMessages⟩
          p.proposedHeaders } := by
  unfold newHeader at h
  obtain ⟨_, -, h⟩ := Except.bind_eq_ok.mp h
  rw [Except.pure_eq_ok, Prod.mk.injEq, Prod.mk.injEq] at h
  obtain ⟨rfl, rfl, -⟩ := h
  exact ⟨rfl, rfl, fun hv => by simp [hv], rfl⟩

/-- `create_new_header` either sends again the stored header, of this round and
    epoch, clearing only the parents, or makes a new one. -/
theorem createNewHeader_cases {store : Option Header} {now now' : Nat} {p p' : Proposer}
    {header : Header} {fresh : Bool}
    (h : p.createNewHeader cfg table store now = .ok (header, fresh, p', now')) :
    (store = some header ∧ fresh = false ∧ p' = { p with lastParents := [] }) ∨
      (fresh = true ∧ p.newHeader cfg table now = .ok (header, p', now')) := by
  -- both ways to a new header go through `newHeader`
  have hnew : ∀ (x : Except Halt (Header × Proposer × Nat)), x = p.newHeader cfg table now →
      (fun (h, p, now) => (h, true, p, now)) <$> x = Except.ok (header, fresh, p', now') →
      fresh = true ∧ p.newHeader cfg table now = .ok (header, p', now') := by
    intro x hx hmap
    cases x with
    | error e => cases hmap
    | ok r =>
      obtain ⟨h', p'', now''⟩ := r
      simp only [Functor.map, Except.map, Except.ok.injEq, Prod.mk.injEq] at hmap
      obtain ⟨rfl, rfl, rfl, rfl⟩ := hmap
      exact ⟨rfl, hx.symm⟩
  unfold createNewHeader at h
  cases store with
  | none => exact .inr (hnew _ rfl h)
  | some lastHeader =>
    dsimp only at h
    split at h
    · -- the stored header is reused
      rw [Except.pure_eq_ok, Prod.mk.injEq, Prod.mk.injEq, Prod.mk.injEq] at h
      obtain ⟨rfl, rfl, rfl, -⟩ := h
      exact .inl ⟨rfl, rfl, rfl⟩
    · exact .inr (hnew _ rfl h)

/-- A header of a round above all those held goes last in `proposed_headers`. -/
theorem insertProposed_of_lt {round : Nat} {entry : ProposedHeader} :
    ∀ {l : List (Nat × ProposedHeader)}, (∀ e ∈ l, e.1 < round) → insertProposed round entry l = l ++ [(round, entry)]
  | [], _ => rfl
  | (r, e) :: rest, hlt => by
    have hr : r < round := hlt (r, e) List.mem_cons_self
    rw [insertProposed, if_neg (by omega), if_neg (by omega),
      insertProposed_of_lt fun e he => hlt e (List.mem_cons_of_mem _ he), List.cons_append]

/-- The branch of the committed own headers leaves the latest header. -/
@[simp] theorem committedOwnHeaders_optLatestHeader (rounds : List Nat) (p : Proposer) :
    (p.committedOwnHeaders rounds).optLatestHeader = p.optLatestHeader := by
  unfold committedOwnHeaders
  dsimp only
  split <;> rfl

/-- **The branch of the committed own headers.** The entries of the rounds
    committed leave `proposed_headers`. Those left at or below the highest round
    committed give their digests and system messages back to the front of the
    queues, in order of round, oldest first, and leave too. -/
theorem committedOwnHeaders_eq (rounds : List Nat) {p : Proposer} (hsorted : p.proposedHeaders.Pairwise (·.1 < ·.1)) :
    p.committedOwnHeaders rounds =
      { p with
        digests := (p.proposedHeaders.filter fun e => e.1 ∉ rounds ∧ e.1 ≤ rounds.foldl max 0).flatMap
          (·.2.digests) ++ p.digests
        systemMessages := (p.proposedHeaders.filter fun e => e.1 ∉ rounds ∧ e.1 ≤ rounds.foldl max 0).flatMap
          (·.2.systemMessages) ++ p.systemMessages
        proposedHeaders := p.proposedHeaders.filter fun e => e.1 ∉ rounds ∧ rounds.foldl max 0 < e.1 } := by
  unfold committedOwnHeaders
  dsimp only
  -- what is left is still in order of round, so the cut at the highest round
  -- committed is a filter
  set m := rounds.foldl max 0
  set kept := p.proposedHeaders.filter (·.1 ∉ rounds)
  have hkept : kept.Pairwise (fun a b => decide (b.1 ≤ m) = true → decide (a.1 ≤ m) = true) :=
    (hsorted.filter _).imp fun hab hb => by simp only [decide_eq_true_eq] at hb ⊢; omega
  have htake : kept.takeWhile (·.1 ≤ m) = p.proposedHeaders.filter fun e => e.1 ∉ rounds ∧ e.1 ≤ m := by
    rw [takeWhile_eq_filter hkept, List.filter_filter]
    congr 1
    funext e
    simp [Bool.and_comm]
  have hdrop : kept.drop (kept.takeWhile (·.1 ≤ m)).length =
      p.proposedHeaders.filter fun e => e.1 ∉ rounds ∧ m < e.1 := by
    calc kept.drop (kept.takeWhile (·.1 ≤ m)).length
        = (kept.takeWhile (·.1 ≤ m) ++ kept.dropWhile (·.1 ≤ m)).drop (kept.takeWhile (·.1 ≤ m)).length := by
          rw [List.takeWhile_append_dropWhile]
      _ = kept.dropWhile (·.1 ≤ m) := List.drop_left
      _ = _ := by
          rw [dropWhile_eq_filter_not hkept, List.filter_filter]
          congr 1
          funext e
          by_cases hm : e.1 ≤ m
          · simp [hm]
          · simp [hm, Nat.lt_of_not_le hm]
  split
  case isTrue hempty =>
    -- nothing to send again: what is left is above the highest round committed
    have hnil : kept.takeWhile (·.1 ≤ m) = [] := List.isEmpty_iff.mp hempty
    rw [hnil, List.length_nil, List.drop_zero] at hdrop
    rw [← htake, hnil, hdrop, List.flatMap_nil, List.flatMap_nil, List.nil_append, List.nil_append]
  case isFalse =>
    rw [hdrop, htake]

end Proposer

namespace ProposerWorld

variable {cfg : ProposerConfig} {w w' : ProposerWorld}

/-- Taking parents changes only the proposer, and of it neither the queues, nor
    `proposed_headers`, nor the latest header; its round only goes up. -/
theorem receiveParents_eq {certs : List Certificate} {round : Nat}
    (h : w.receiveParents cfg certs round = .ok w') :
    ∃ p, w' = { w with proposer := p } ∧ w.proposer.round ≤ p.round ∧
      p.digests = w.proposer.digests ∧ p.systemMessages = w.proposer.systemMessages ∧
      p.proposedHeaders = w.proposer.proposedHeaders ∧ p.optLatestHeader = w.proposer.optLatestHeader := by
  unfold receiveParents at h
  dsimp only at h
  split at h
  · -- older parents are ignored
    rw [Except.pure_eq_ok] at h
    subst h
    exact ⟨w.proposer, rfl, Nat.le_refl _, rfl, rfl, rfl, rfl⟩
  · -- a jump ahead, to the parents' round
    next hgt =>
    obtain ⟨_, -, h⟩ := Except.bind_eq_ok.mp h
    obtain ⟨⟨advance, p⟩, hready, h⟩ := Except.bind_eq_ok.mp h
    rw [Except.pure_eq_ok] at h
    subst h
    rw [Proposer.ready_eq hready]
    exact ⟨_, rfl, Nat.le_of_lt (Nat.compare_eq_gt.mp hgt), rfl, rfl, rfl, rfl⟩
  · -- more parents of this round, with the minimum delay timer perhaps reset
    obtain ⟨_, -, h⟩ := Except.bind_eq_ok.mp h
    obtain ⟨⟨advance, p⟩, hready, h⟩ := Except.bind_eq_ok.mp h
    rw [Except.pure_eq_ok] at h
    subst h
    split at hready <;>
    · rw [Proposer.ready_eq hready]
      exact ⟨_, rfl, Nat.le_refl _, rfl, rfl, rfl, rfl⟩

/-- The top of the loop either does nothing, or creates or reuses a header
    for the next round, stores it, sends it, and resets `advance` and the
    timers. -/
theorem tryPropose_eq (h : w.tryPropose cfg = .ok w') :
    w' = w ∨ ∃ header fresh p clock,
      { w.proposer with round := w.proposer.round + 1 }.createNewHeader cfg w.leaderSwapTable
          w.lastProposed w.clock = .ok (header, fresh, p, clock) ∧
        w' = { w with
          lastProposed := some header
          clock
          proposer :=
            { p with
              optLatestHeader := some header, advance := false
              maxDelayTimedOut := false, minDelayTimedOut := false }
          log := w.log ++ [if fresh then .created header else .reused header] } := by
  unfold tryPropose at h
  split at h
  · obtain ⟨⟨header, fresh, p, clock⟩, hcreate, h⟩ := Except.bind_eq_ok.mp h
    obtain ⟨_, -, h⟩ := Except.bind_eq_ok.mp h
    obtain ⟨_, -, h⟩ := Except.bind_eq_ok.mp h
    rw [Except.pure_eq_ok] at h
    exact .inr ⟨header, fresh, p, clock, hcreate, h.symm⟩
  · rw [Except.pure_eq_ok] at h
    exact .inl h.symm

end ProposerWorld

/-! ## Re-proposing after a restart -/

/-- A proposer re-proposes a round after a restart. Authority 0, alone in its
    committee, creates headers for rounds 1 and 2 (the second from its own
    round-1 certificate), so the store holds the round-2 header. It restarts,
    and its minimum-delay timer fires before the recovered parents arrive: the
    fresh proposer, at round 0 with the genesis parents and `advance` set,
    creates a header for round 1 again, at a later time, so with another digest. -/
theorem restart_reproposes_round :
    ((ProposerWorld.start ⟨0, ⟨0, [1]⟩, 1, 10, 2000, 500, [⟨0, 0, 0, [], 0, 100⟩], true,
        ⟨fun _ l => l.head?.map (·.1), fun _ _ => 0⟩⟩).bind fun w =>
      w.run ⟨0, ⟨0, [1]⟩, 1, 10, 2000, 500, [⟨0, 0, 0, [], 0, 100⟩], true,
        ⟨fun _ l => l.head?.map (·.1), fun _ _ => 0⟩⟩
        [.minDelayTimer, .parents [⟨1, 0, 0, [100], 0, 101⟩] 1, .minDelayTimer, .restart,
          .elapse 5, .minDelayTimer]).map (·.log) =
      .ok [.created ⟨0, 1, 0, 0, [], [], [100]⟩, .created ⟨0, 2, 0, 0, [], [], [101]⟩, .restarted,
        .created ⟨0, 1, 0, 5, [], [], [100]⟩] ∧
    (⟨0, 1, 0, 0, [], [], [100]⟩ : Header).digest ≠ (⟨0, 1, 0, 5, [], [], [100]⟩ : Header).digest :=
  ⟨rfl, by decide⟩

end Mango.Narwhal
