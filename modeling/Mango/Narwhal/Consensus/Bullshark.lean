/-
  Mango.Narwhal.Consensus.Bullshark

  The Bullshark commit rule (`narwhal/primary/src/consensus/bullshark.rs`):
  `process_certificate` inserts a certificate and, when it is at an odd round
  `r + 1`, tries to commit the leader of round `r`. `commit_leader` checks that
  the leader has `f + 1` support, orders the earlier uncommitted leaders linked
  to it (`order_leaders`, `linked`), and flattens one sub-dag per leader with
  `order_dag`. After each sub-dag it resolves reputation scores, persists the
  commit, and may install a new leader swap table; when it does and leaders are
  left, it returns `ScheduleChanged` and `process_certificate` starts over with
  the new schedule.

  `BullsharkConfig` holds what never changes; `Bullshark` the swap table and the
  store that commits change; `Consensus` pairs it with the `ConsensusState`,
  as the `Consensus` task does. Metrics and timers are left out.
-/
import Mango.Narwhal.Consensus.OrderDag
import Mango.Narwhal.Consensus.LeaderSchedule
import Mango.Narwhal.Consensus.Store

namespace Mango.Narwhal

/-- `Outcome`. -/
inductive Outcome where
  | certificateBelowCommitRound
  | noLeaderElectedForOddRound
  | leaderBelowCommitRound
  | leaderNotFound
  | notEnoughSupportForLeader
  | commit
  | scheduleChanged
  deriving DecidableEq, Repr

/-- The fields of `Bullshark` that never change. -/
structure BullsharkConfig where
  committee : Committee
  /-- `protocol_config.consensus_bad_nodes_stake_threshold()`. -/
  badNodesStakeThreshold : Nat
  numSubDagsPerSchedule : Nat

/-- The fields of `Bullshark` that commits change: the swap table behind
    `leader_schedule`, and the consensus store. -/
structure Bullshark where
  leaderSwapTable : LeaderSwapTable
  store : ConsensusStore

/-- The protocol and the state the `Consensus` task runs it on. -/
structure Consensus where
  protocol : Bullshark
  state : ConsensusState

namespace Bullshark

variable (cfg : BullsharkConfig) (rng : LeaderRng)

/-- `resolve_reputation_score`: reset the scores at a schedule boundary (or carry
    over the last sub-dag's), add one for every certificate that points at the
    previous leader, and mark the scores final at the end of a schedule. -/
def resolveReputationScore (state : ConsensusState) (committedSequence : List Certificate)
    (subDagIndex : Nat) : Except Halt ReputationScores := do
  let n := cfg.numSubDagsPerSchedule
  if n = 0 then throw (.panic .remainderByZero)
  let base ←
    if subDagIndex = 1 ∨ subDagIndex % n = 0 then pure (ReputationScores.new cfg.committee)
    else match state.lastCommittedSubDag with
      | some s => pure s.reputationScore
      | none => throw (.panic .missingCommittedSubDag)
  let scored := match state.lastCommittedSubDag with
    | some last =>
      committedSequence.foldl (fun (score : ReputationScores) (c : Certificate) =>
        if c.parents.any (· == last.leader.digest) then score.addScore c.origin 1 else score) base
    | none => base
  let score := { scored with finalOfSchedule := (subDagIndex + 1) % n = 0 }
  if score.totalAuthorities ≠ cfg.committee.size then throw (.panic .scoresNotCommittee)
  return score

/-- `update_leader_schedule`: final scores install a new swap table. -/
def updateLeaderSchedule (b : Bullshark) (leaderRound : Nat) (scores : ReputationScores) :
    Except Halt (Bool × Bullshark) := do
  if scores.finalOfSchedule then
    let table ←
      LeaderSwapTable.new cfg.committee leaderRound scores cfg.badNodesStakeThreshold
    return (true, { b with leaderSwapTable := table })
  return (false, b)

/-- One step of `linked`: the certificates of round `r` that a certificate of the
    current frontier names as a parent. -/
def linkedStep (dag : Dag) (parents : List Certificate) (r : Nat) :
    Except Halt (List Certificate) :=
  let table := Dag.roundTable cfg.committee.authorities dag r
  if table.isEmpty then throw (.panic .wholeHistoryMissing)
  else pure (table.filter fun c => parents.any fun x => x.parents.contains c.digest)

/-- `linked`: walk the frontier down from `leader` to `prev_leader`'s round and
    check that `prev_leader` is reached. -/
def linked (leader prevLeader : Certificate) (dag : Dag) : Except Halt Bool := do
  let rounds := (List.range (leader.round - prevLeader.round)).map (leader.round - 1 - ·)
  let parents ← rounds.foldlM (linkedStep cfg dag) [leader]
  return parents.contains prevLeader

/-- `(committed_round + 2..=leader_round - 2).rev().step_by(2)`. -/
def orderLeadersRounds (committedRound leaderRound : Nat) : List Nat :=
  if committedRound + 2 ≤ leaderRound - 2 then
    (List.range ((leaderRound - 2 - (committedRound + 2)) / 2 + 1)).map (leaderRound - 2 - 2 * ·)
  else []

/-- One step of `order_leaders`: the leader of round `r`, if present and linked to
    the current one, goes in front and becomes the current one. -/
def orderLeadersStep (b : Bullshark) (dag : Dag) (acc : List Certificate × Certificate)
    (r : Nat) : Except Halt (List Certificate × Certificate) := do
  let (_, prev) ← LeaderSchedule.leaderCertificate rng cfg.committee b.leaderSwapTable r dag
  match prev with
  | none => pure acc
  | some prevLeader =>
    if ← linked cfg acc.2 prevLeader dag then pure (prevLeader :: acc.1, prevLeader)
    else pure acc

/-- `order_leaders`: the uncommitted leaders linked to `leader`, oldest first. -/
def orderLeaders (b : Bullshark) (leader : Certificate) (state : ConsensusState) :
    Except Halt (List Certificate) := do
  if leader.round % 2 ≠ 0 then throw (.panic .oddLeaderToOrder)
  let (toCommit, _) ← (orderLeadersRounds state.lastRound.committedRound leader.round).foldlM
    (orderLeadersStep cfg rng b state.dag) ([leader], leader)
  return toCommit

/-- The `while let Some(leader) = leaders_to_commit.pop_front()` loop of
    `commit_leader`. Committed sub-dags accumulate in `acc`. -/
def commitLeaders : List Certificate → List CommittedSubDag → Bullshark → ConsensusState →
    Except Halt (Outcome × List CommittedSubDag × Bullshark × ConsensusState)
  | [], acc, b, state => pure (.commit, acc, b, state)
  | leader :: rest, acc, b, state => do
    let subDagIndex := state.nextSubDagIndex
    let sequence ← orderDag cfg.committee.authorities leader state
    let state := sequence.foldl ConsensusState.update state
    let reputationScore ← resolveReputationScore cfg state sequence subDagIndex
    let subDag := CommittedSubDag.new sequence leader subDagIndex reputationScore
      state.lastCommittedSubDag
    let b := { b with store := b.store.writeConsensusState state.lastCommitted subDag }
    let state := { state with lastCommittedSubDag := some subDag }
    let acc := acc ++ [subDag]
    let (changed, b) ← updateLeaderSchedule cfg b leader.round reputationScore
    -- A new schedule may elect other leaders for the rounds still to commit.
    if changed ∧ rest ≠ [] then pure (.scheduleChanged, acc, b, state)
    else commitLeaders rest acc b state

/-- `commit_leader`: commit the leader of `leader_round` if it has `f + 1`
    support among the certificates of the next round, with every earlier
    uncommitted leader linked to it. -/
def commitLeader (leaderRound : Nat) (b : Bullshark) (state : ConsensusState) :
    Except Halt (Outcome × List CommittedSubDag × Bullshark × ConsensusState) := do
  let (_, leader) ← LeaderSchedule.leaderCertificate rng cfg.committee b.leaderSwapTable
    leaderRound state.dag
  let some leader := leader | pure (.leaderNotFound, [], b, state)
  let children := Dag.roundTable cfg.committee.authorities state.dag (leaderRound + 1)
  if children.isEmpty then throw (.panic .wholeHistoryMissing)
  let stake := ((children.filter fun x => x.parents.contains leader.digest).map
    fun x => cfg.committee.stakeById x.origin).sum
  if stake < cfg.committee.validityThreshold then
    return (.notEnoughSupportForLeader, [], b, state)
  let leadersToCommit ← orderLeaders cfg rng b leader state
  commitLeaders cfg leadersToCommit [] b state

/-- The `loop` of `process_certificate` around `commit_leader`: retry while the
    schedule changed, with one unit of fuel per try. -/
def commitUntilStable (leaderRound : Nat) : Nat → List CommittedSubDag → Bullshark →
    ConsensusState → Except Halt (Outcome × List CommittedSubDag × Bullshark × ConsensusState)
  | 0, _, _, _ => throw .outOfFuel
  | fuel + 1, acc, b, state => do
    let (outcome, committed, b, state) ← commitLeader cfg rng leaderRound b state
    let acc := acc ++ committed
    if outcome = .scheduleChanged then commitUntilStable leaderRound fuel acc b state
    else pure (outcome, acc, b, state)

/-- `process_certificate`. -/
def processCertificate (c : Consensus) (certificate : Certificate) :
    Except Halt (Outcome × List CommittedSubDag × Consensus) := do
  let round := certificate.round
  let (inserted, state) ← c.state.tryInsert cfg.committee.authorities certificate
  if !inserted then return (.certificateBelowCommitRound, [], ⟨c.protocol, state⟩)
  -- `round ≥ 1` here: `try_insert` drops rounds at or below the GC round.
  let r := round - 1
  if r % 2 ≠ 0 ∨ r < 2 then return (.noLeaderElectedForOddRound, [], ⟨c.protocol, state⟩)
  let leaderRound := r
  if leaderRound ≤ state.lastRound.committedRound then
    return (.leaderBelowCommitRound, [], ⟨c.protocol, state⟩)
  let (outcome, committed, b, state) ←
    commitUntilStable cfg rng leaderRound (leaderRound + 1) [] c.protocol state
  if committed.isEmpty then return (outcome, [], ⟨b, state⟩)
  return (.commit, committed, ⟨b, state⟩)

end Bullshark

end Mango.Narwhal
