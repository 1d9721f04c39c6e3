/-
  Mango.Narwhal.Consensus.Task

  The `Consensus` task around the protocol (`narwhal/primary/src/consensus/state.rs`):
  how a node builds it at startup, and its `run_inner` loop, which feeds every
  certificate of the current epoch to `process_certificate` and sends out the
  committed sub-dags.

  Startup is `LeaderSchedule::from_store` and `Bullshark::new` in
  `narwhal/node/src/primary_node.rs`, then `Consensus::spawn`, which recomputes
  the last committed round and rebuilds the state with
  `ConsensusState::new_from_store`. A fresh node runs the same code over empty
  stores. The channels become lists: the certificates received, and the
  sub-dags sent before the loop stops; a shutdown is the end of the list.
-/
import Mango.Narwhal.Consensus.Bullshark

namespace Mango.Narwhal

/-! ## Rebuilding the state -/

namespace ConsensusState

/-- `construct_dag_from_cert_store`: insert every stored certificate above the
    GC round, in round order. -/
def constructDagFromCertStore (authorities : List Nat) (certStore : CertificateStore)
    (lastCommitted : Nat → Option Nat) (gcRound : Nat) : Except Halt Dag := do
  let certificates ← certStore.afterRound (gcRound + 1)
  certificates.foldlM (fun dag c => do
    let (_, dag) ← tryInsertInDag authorities dag lastCommitted gcRound c
    pure dag) Dag.empty

/-- `cert_store.read(..).expect("Certificate should be found in database")`. -/
def readStored (certStore : CertificateStore) (id : Nat) : Except Halt Certificate :=
  match certStore.read id with
  | some c => pure c
  | none => throw (.panic .certificateNotInDatabase)

/-- `ConsensusState::new_from_store`: the rounds from the last committed round,
    the DAG from the certificate store, and the last sub-dag from its persisted
    commit with its certificates read back by digest. -/
def newFromStore (authorities : List Nat) (lastCommittedRound gcDepth : Nat)
    (recoveredLastCommitted : Nat → Option Nat) (latestSubDag : Option ConsensusCommit)
    (certStore : CertificateStore) : Except Halt ConsensusState := do
  let lastRound := ConsensusRound.newWithGcDepth lastCommittedRound gcDepth
  let dag ←
    constructDagFromCertStore authorities certStore recoveredLastCommitted lastRound.gcRound
  let lastCommittedSubDag ← match latestSubDag with
    | some commit => do
      let certificates ← commit.certificates.mapM (readStored certStore)
      let leader ← readStored certStore commit.leader
      pure (some (CommittedSubDag.fromCommit commit certificates leader))
    | none => pure none
  return { lastRound, gcDepth, lastCommitted := recoveredLastCommitted, lastCommittedSubDag, dag }

end ConsensusState

/-- `LeaderSchedule::from_store`: the swap table of the latest commit whose scores
    are final, or no swaps. -/
def LeaderSchedule.fromStore (committee : Committee) (store : ConsensusStore)
    (badNodesStakeThreshold : Nat) : Except Halt LeaderSwapTable :=
  match store.readLatestCommitWithFinalReputationScores with
  | some commit =>
    LeaderSwapTable.new committee commit.leaderRound commit.reputationScore badNodesStakeThreshold
  | none => pure LeaderSwapTable.default

/-! ## The task -/

namespace Consensus

/-- The largest round of `read_last_committed`, or zero. The table's keys are
    origins of committed certificates, so iterating it visits committee members. -/
def lastCommittedRound (authorities : List Nat) (lastCommitted : Nat → Option Nat) : Nat :=
  ((authorities.filterMap lastCommitted).max?).getD 0

/-- Node startup: `LeaderSchedule::from_store`, then `Consensus::spawn`, which
    asserts that the latest sub-dag's leader round is the last committed round. -/
def spawn (cfg : BullsharkConfig) (gcDepth : Nat) (store : ConsensusStore)
    (certStore : CertificateStore) : Except Halt Consensus := do
  let leaderSwapTable ← LeaderSchedule.fromStore cfg.committee store cfg.badNodesStakeThreshold
  let recoveredLastCommitted := store.lastCommitted
  let lastCommittedRound := lastCommittedRound cfg.committee.authorities recoveredLastCommitted
  let latestSubDag := store.getLatestSubDag
  if let some subDag := latestSubDag then
    if subDag.leaderRound ≠ lastCommittedRound then throw (.panic .lastSubDagRoundMismatch)
  let state ← ConsensusState.newFromStore cfg.committee.authorities lastCommittedRound gcDepth
    recoveredLastCommitted latestSubDag certStore
  return ⟨⟨leaderSwapTable, store⟩, state⟩

/-- `Consensus::run_inner`: the sub-dags sent, and the task's state when the
    certificates run out, or why it stopped. -/
def runInner (cfg : BullsharkConfig) (rng : LeaderRng) :
    Consensus → List Certificate → List CommittedSubDag × Except Halt Consensus
  | c, [] => ([], .ok c)
  | c, certificate :: rest =>
    if certificate.epoch ≠ cfg.committee.epoch then runInner cfg rng c rest
    else match Bullshark.processCertificate cfg rng c certificate with
      | .error e => ([], .error e)
      | .ok (_, committedSubDags, c) =>
        let committed := committedSubDags.flatMap (·.certificates)
        -- The sub-dags are sent before the assertion on the committed round.
        if committed ≠ [] ∧
            c.state.lastRound.committedRound ≠ ((committed.map (·.round)).max?).getD 0 then
          (committedSubDags, .error (.panic .committedRoundMismatch))
        else
          let (sent, result) := runInner cfg rng c rest
          (committedSubDags ++ sent, result)

end Consensus

end Mango.Narwhal
