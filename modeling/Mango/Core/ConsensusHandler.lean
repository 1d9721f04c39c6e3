/-
  Mango.Core.ConsensusHandler

  The consensus handler of a validator (`crates/mgo-core/src/consensus_handler.rs`):
  it turns each commit of consensus into the sequenced transactions it hands to
  `process_consensus_transactions_and_commit_boundary`, which writes them
  together with `last_consensus_stats` in one batch.

  Three filters keep a transaction from being handed twice. A commit whose
  leader round equals the last committed round is skipped whole, as a
  redelivery. Each transaction gets the `ExecutionIndices` (round, sub-dag
  index, position), which must exceed the last one. A key already seen in this
  commit, or in an in-memory LRU cache, is dropped. After a restart the last
  indices are read back from the epoch store and the cache is empty.

  Commits are what `ConsensusOutputAPI` provides, for Narwhal and Mysticeti
  alike. A second commit at the same leader round is dropped
  (`same_round_commit_skipped`).
-/
import Mathlib
import Mango.Lib.Except

namespace Mango.Core

open Mango.Lib

/-! ## Execution indices -/

/-- `ExecutionIndices` (`narwhal/executor/src/state.rs`). -/
structure ExecutionIndices where
  lastCommittedRound : Nat
  subDagIndex : Nat
  transactionIndex : Nat
  deriving DecidableEq, Repr

namespace ExecutionIndices

/-- `ExecutionIndices::default`. -/
def default : ExecutionIndices := ⟨0, 0, 0⟩

/-- `Ord for ExecutionIndices`: lexicographic on round, sub-dag index and
    transaction index. -/
def Lt (a b : ExecutionIndices) : Prop :=
  a.lastCommittedRound < b.lastCommittedRound ∨
    (a.lastCommittedRound = b.lastCommittedRound ∧
      (a.subDagIndex < b.subDagIndex ∨
        (a.subDagIndex = b.subDagIndex ∧ a.transactionIndex < b.transactionIndex)))

instance : LT ExecutionIndices := ⟨Lt⟩

instance (a b : ExecutionIndices) : Decidable (a < b) :=
  inferInstanceAs (Decidable (a.lastCommittedRound < b.lastCommittedRound ∨
    (a.lastCommittedRound = b.lastCommittedRound ∧
      (a.subDagIndex < b.subDagIndex ∨
        (a.subDagIndex = b.subDagIndex ∧ a.transactionIndex < b.transactionIndex)))))

end ExecutionIndices

/-! ## Transactions -/

/-- The kinds of `ConsensusTransaction`, by what identifies them. -/
inductive ConsensusTransactionKind where
  /-- A user certificate, by its digest. -/
  | userTransaction (certificate : Nat)
  | checkpointSignature (authority sequenceNumber : Nat)
  | endOfPublish (authority : Nat)
  | capabilityNotification (authority generation : Nat)
  | newJwkFetched (authority id key : Nat)
  | randomnessStateUpdate (round randomBytes : Nat)
  deriving DecidableEq, Repr

/-- A transaction sequenced by consensus. -/
structure ConsensusTransaction where
  trackingId : Nat
  kind : ConsensusTransactionKind
  deriving DecidableEq, Repr

/-- `ConsensusTransactionKey`. -/
inductive ConsensusTransactionKey where
  | certificate (digest : Nat)
  | checkpointSignature (authority sequenceNumber : Nat)
  | endOfPublish (authority : Nat)
  | capabilityNotification (authority generation : Nat)
  | newJwkFetched (authority id key : Nat)
  /-- `unreachable!` in the code: the handler never keys a randomness update. -/
  | randomnessStateUpdate (round : Nat)
  deriving DecidableEq, Repr

/-- `ConsensusTransaction::key`. -/
def ConsensusTransaction.key (tx : ConsensusTransaction) : ConsensusTransactionKey :=
  match tx.kind with
  | .userTransaction certificate => .certificate certificate
  | .checkpointSignature authority sequenceNumber => .checkpointSignature authority sequenceNumber
  | .endOfPublish authority => .endOfPublish authority
  | .capabilityNotification authority generation => .capabilityNotification authority generation
  | .newJwkFetched authority id key => .newJwkFetched authority id key
  | .randomnessStateUpdate round _ => .randomnessStateUpdate round

/-- The system transactions the handler builds. A system transaction's digest
    hashes these fields, so the model lets it stand for its digest. -/
inductive SystemTransaction where
  | consensusCommitPrologue (epoch round commitTimestampMs : Nat)
  | consensusCommitPrologueV2 (epoch round commitTimestampMs consensusDigest : Nat)
  | authenticatorStateUpdate (epoch round : Nat) (newActiveJwks : List Nat)
      (authenticatorObjInitialSharedVersion : Nat)
  | randomnessStateUpdate (epoch randomnessRound randomBytes randomnessObjInitialSharedVersion : Nat)
  deriving DecidableEq, Repr

/-- `SequencedConsensusTransactionKind`. -/
inductive SequencedConsensusTransactionKind where
  | external (tx : ConsensusTransaction)
  | system (tx : SystemTransaction)
  deriving DecidableEq, Repr

/-- `SequencedConsensusTransactionKey`. -/
inductive SequencedConsensusTransactionKey where
  | external (key : ConsensusTransactionKey)
  | system (digest : SystemTransaction)
  deriving DecidableEq, Repr

/-- `SequencedConsensusTransactionKind::key`. -/
def SequencedConsensusTransactionKind.key :
    SequencedConsensusTransactionKind → SequencedConsensusTransactionKey
  | .external tx => .external tx.key
  | .system tx => .system tx

/-- `SequencedConsensusTransaction`, with the author's index for its key. -/
structure SequencedConsensusTransaction where
  certificateAuthorIndex : Nat
  consensusIndex : ExecutionIndices
  transaction : SequencedConsensusTransactionKind
  deriving DecidableEq, Repr

/-! ## The LRU cache -/

/-- An LRU cache of keys (`lru::LruCache<K, ()>`), most recently used first. -/
structure LruCache (κ : Type) where
  cap : Nat
  entries : List κ
  deriving DecidableEq, Repr

/-- `LruCache::put`: whether the key was there, and the cache with it most
    recent, the least recent dropped beyond the capacity. -/
def LruCache.put {κ : Type} [DecidableEq κ] (c : LruCache κ) (k : κ) : Bool × LruCache κ :=
  if k ∈ c.entries then (true, ⟨c.cap, k :: c.entries.erase k⟩)
  else (false, ⟨c.cap, (k :: c.entries).take c.cap⟩)

/-- `PROCESSED_CACHE_CAP`. -/
def processedCacheCap : Nat := 1024 * 1024

/-! ## The handler -/

/-- What the handler reads of a commit (`ConsensusOutputAPI`). -/
structure ConsensusOutputAPI where
  leaderRound : Nat
  leaderAuthorIndex : Nat
  commitTimestampMs : Nat
  commitSubDagIndex : Nat
  consensusDigest : Nat
  /-- `transactions()`: the author of each certificate or block, and its transactions. -/
  transactions : List (Nat × List ConsensusTransaction)
  deriving DecidableEq, Repr

/-- What the handler reads of the epoch store and its protocol configuration. -/
structure EpochStoreConfig where
  epoch : Nat
  epochStartTimestampMs : Nat
  includeConsensusDigestInPrologue : Bool
  randomnessStateEnabled : Bool
  authenticatorObjInitialSharedVersion : Nat
  randomnessObjInitialSharedVersion : Nat
  /-- `get_new_jwks(round)`: the JWKs that became active in a round. -/
  newJwks : Nat → List Nat

/-- The handler's memory: `last_consensus_stats.index` (its hash and counters
    are left out) and the LRU cache of processed keys. -/
structure ConsensusHandler where
  lastIndex : ExecutionIndices
  processedCache : LruCache SequencedConsensusTransactionKey
  deriving DecidableEq, Repr

/-- What one call hands to `process_consensus_transactions_and_commit_boundary`. -/
structure HandedCommit where
  transactions : List SequencedConsensusTransaction
  round : Nat
  timestamp : Nat
  deriving DecidableEq, Repr

/-- The places where the modelled handler panics. -/
inductive HandlerPanic where
  /-- `assert!(round >= last_committed_round)`. -/
  | roundBelowLastCommitted
  deriving DecidableEq, Repr

namespace ConsensusHandler

variable (es : EpochStoreConfig)

/-- `ConsensusHandler::new`: the indices from the epoch store, an empty cache. -/
def new (lastIndex : ExecutionIndices) : ConsensusHandler := ⟨lastIndex, ⟨processedCacheCap, []⟩⟩

/-- The transactions of a commit, each with the author it is counted for: the
    prologue, then the JWKs that became active in the last committed round,
    then every certificate's transactions, where a randomness update becomes a
    system transaction (or is dropped when randomness is off). -/
def commitTransactions (lastCommittedRound round timestamp : Nat) (output : ConsensusOutputAPI) :
    List (SequencedConsensusTransactionKind × Nat) :=
  let prologue : SystemTransaction :=
    if es.includeConsensusDigestInPrologue then
      .consensusCommitPrologueV2 es.epoch round timestamp output.consensusDigest
    else .consensusCommitPrologue es.epoch round timestamp
  let newJwks := es.newJwks lastCommittedRound
  let authenticator :=
    if newJwks.isEmpty then []
    else [(.system (.authenticatorStateUpdate es.epoch round (newJwks.insertionSort (· ≤ ·))
        es.authenticatorObjInitialSharedVersion), output.leaderAuthorIndex)]
  [(.system prologue, output.leaderAuthorIndex)] ++ authenticator ++
    output.transactions.flatMap fun (authorityIndex, authorityTransactions) =>
      authorityTransactions.filterMap fun transaction =>
        match transaction.kind with
        | .randomnessStateUpdate randomnessRound randomBytes =>
          if es.randomnessStateEnabled then
            some (.system (.randomnessStateUpdate es.epoch randomnessRound randomBytes
              es.randomnessObjInitialSharedVersion), output.leaderAuthorIndex)
          else none
        | _ => some (.external transaction, authorityIndex)

/-- The state of the loop that sequences a commit's transactions. -/
structure DedupState where
  lastIndex : ExecutionIndices
  processedSet : List SequencedConsensusTransactionKey
  processedCache : LruCache SequencedConsensusTransactionKey
  all : List SequencedConsensusTransaction

/-- One transaction of the loop: `update_index_and_hash` keeps it only past the
    last indices, and then it is dropped if its key is in this commit's set or
    in the cache (both are updated either way). -/
def dedupStep (round subDagIndex : Nat) (acc : DedupState)
    (entry : (SequencedConsensusTransactionKind × Nat) × Nat) : DedupState :=
  let ((transaction, certOrigin), seq) := entry
  let index : ExecutionIndices := ⟨round, subDagIndex, seq⟩
  if acc.lastIndex < index then
    let key := transaction.key
    let inSet := decide (key ∈ acc.processedSet)
    let (inCache, processedCache) := acc.processedCache.put key
    let acc := { acc with
      lastIndex := index
      processedSet := if inSet then acc.processedSet else acc.processedSet ++ [key]
      processedCache }
    if inSet || inCache then acc
    else { acc with all := acc.all ++ [⟨certOrigin, index, transaction⟩] }
  else acc

/-- `handle_consensus_output_internal`: a commit at the last committed round is
    skipped; otherwise its transactions are sequenced, and handed on with the
    commit's round and timestamp (never below the epoch's start). -/
def handleConsensusOutputInternal (h : ConsensusHandler) (output : ConsensusOutputAPI) :
    Except HandlerPanic (ConsensusHandler × Option HandedCommit) :=
  let lastCommittedRound := h.lastIndex.lastCommittedRound
  let round := output.leaderRound
  if round < lastCommittedRound then throw .roundBelowLastCommitted
  else if lastCommittedRound = round then
    -- "we can receive the same commit twice after restart"
    pure (h, none)
  else
    let timestamp :=
      if output.commitTimestampMs < es.epochStartTimestampMs then es.epochStartTimestampMs
      else output.commitTimestampMs
    let transactions := commitTransactions es lastCommittedRound round timestamp output
    let acc := transactions.zipIdx.foldl (dedupStep round output.commitSubDagIndex)
      ⟨h.lastIndex, [], h.processedCache, []⟩
    pure (⟨acc.lastIndex, acc.processedCache⟩, some ⟨acc.all, round, timestamp⟩)

end ConsensusHandler

/-! ## Commits and restarts -/

/-- The handler with the epoch store: the indices persisted with the last
    handed commit, and everything handed so far. -/
structure HandlerWorld where
  persisted : ExecutionIndices
  handler : ConsensusHandler
  handed : List HandedCommit
  deriving DecidableEq, Repr

/-- A commit delivered (again, perhaps), or a restart of the validator. -/
inductive HandlerEvent where
  | deliver (output : ConsensusOutputAPI)
  | restart

namespace HandlerWorld

variable (es : EpochStoreConfig)

/-- The start of an epoch: nothing persisted yet. -/
def init : HandlerWorld := ⟨.default, ConsensusHandler.new .default, []⟩

/-- One event. A handed commit is persisted with its indices in one batch. -/
def step (w : HandlerWorld) : HandlerEvent → Except HandlerPanic HandlerWorld
  | .deliver output => do
    let (handler, handed) ← w.handler.handleConsensusOutputInternal es output
    match handed with
    | none => pure { w with handler }
    | some commit => pure ⟨handler.lastIndex, handler, w.handed ++ [commit]⟩
  | .restart => pure { w with handler := ConsensusHandler.new w.persisted }

/-- A sequence of events. -/
def run (w : HandlerWorld) (events : List HandlerEvent) : Except HandlerPanic HandlerWorld :=
  events.foldlM (step es) w

/-- The indices of everything handed so far, in order. -/
def handedIndices (w : HandlerWorld) : List ExecutionIndices :=
  w.handed.flatMap fun commit => commit.transactions.map (·.consensusIndex)

end HandlerWorld

/-- A second commit at the same leader round is dropped. Two commits of leader
    round 2, with sub-dag indices 1 and 2, each carry one user certificate: only
    the first commit's prologue and certificate 7 are handed on, and certificate
    8 of the second commit never is. -/
theorem same_round_commit_skipped :
    ((HandlerWorld.init.run ⟨0, 0, false, false, 0, 0, fun _ => []⟩
      [.deliver ⟨2, 0, 10, 1, 0, [(0, [⟨0, .userTransaction 7⟩])]⟩,
        .deliver ⟨2, 1, 11, 2, 0, [(1, [⟨0, .userTransaction 8⟩])]⟩]).map (·.handed)) =
      .ok [⟨[⟨0, ⟨2, 1, 0⟩, .system (.consensusCommitPrologue 0 2 10)⟩,
          ⟨0, ⟨2, 1, 1⟩, .external ⟨0, .userTransaction 7⟩⟩], 2, 10⟩] := by
  decide

/-- The cache does not survive a restart. Certificate 7 comes in the commits of
    rounds 2 and 4: without a restart between them the second copy is dropped,
    and with one it is handed again. -/
example :
    ((HandlerWorld.init.run ⟨0, 0, false, false, 0, 0, fun _ => []⟩
      [.deliver ⟨2, 0, 10, 1, 0, [(0, [⟨0, .userTransaction 7⟩])]⟩, .restart,
        .deliver ⟨4, 1, 11, 2, 0, [(1, [⟨0, .userTransaction 7⟩])]⟩]).map
        (·.handedIndices.length)) = .ok 4 ∧
    ((HandlerWorld.init.run ⟨0, 0, false, false, 0, 0, fun _ => []⟩
      [.deliver ⟨2, 0, 10, 1, 0, [(0, [⟨0, .userTransaction 7⟩])]⟩,
        .deliver ⟨4, 1, 11, 2, 0, [(1, [⟨0, .userTransaction 7⟩])]⟩]).map
        (·.handedIndices.length)) = .ok 3 := by
  decide

end Mango.Core
