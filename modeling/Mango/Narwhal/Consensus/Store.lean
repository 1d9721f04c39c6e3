/-
  Mango.Narwhal.Consensus.Store

  The two stores consensus recovers from. `ConsensusStore`
  (`narwhal/storage/src/consensus_store.rs`): the persisted `last_committed`
  table and the committed sub-dags keyed by their index, as `commit_leader`
  writes them. `CertificateStore` (`narwhal/storage/src/certificate_store.rs`):
  every certificate the primary accepted, by digest and indexed by round and
  origin.

  The sub-dag table is a `DBMap<SequenceNumber, ConsensusCommit>`; it is the
  list of its values in key order. The certificate store is the list of the
  certificates written to it, and its tables are views of that list. Writes are
  atomic batches, and the model has no storage failures; the LRU cache in front
  of the certificate tables returns what the tables hold, and is left out.
-/
import Mathlib
import Mango.Lib.Except
import Mango.Lib.List
import Mango.Narwhal.Consensus.State

namespace Mango.Narwhal

open Mango.Lib

/-- `ConsensusStore`. -/
structure ConsensusStore where
  lastCommitted : Nat → Option Nat
  committedSubDags : List ConsensusCommit

namespace ConsensusStore

/-- A store with nothing written. -/
def empty : ConsensusStore := ⟨fun _ => none, []⟩

/-- Insert a commit at its index into a key-ordered table, replacing an old one. -/
def insertCommit (l : List ConsensusCommit) (c : ConsensusCommit) : List ConsensusCommit :=
  l.filter (·.subDagIndex < c.subDagIndex) ++ c :: l.filter (c.subDagIndex < ·.subDagIndex)

/-- `ConsensusStore::write_consensus_state`: every `last_committed` entry and the
    sub-dag's commit, in one batch. -/
def writeConsensusState (st : ConsensusStore) (lastCommitted : Nat → Option Nat)
    (subDag : CommittedSubDag) : ConsensusStore :=
  { lastCommitted := fun a => (lastCommitted a).or (st.lastCommitted a),
    committedSubDags := insertCommit st.committedSubDags (ConsensusCommit.fromSubDag subDag) }

/-- `ConsensusStore::get_latest_sub_dag`: the commit with the highest index. -/
def getLatestSubDag (st : ConsensusStore) : Option ConsensusCommit :=
  st.committedSubDags.getLast?

/-- `ConsensusStore::read_latest_commit_with_final_reputation_scores`. -/
def readLatestCommitWithFinalReputationScores (st : ConsensusStore) : Option ConsensusCommit :=
  st.committedSubDags.reverse.find? (·.reputationScore.finalOfSchedule)

/-- Writing a commit with an index above every stored one appends it. -/
theorem insertCommit_of_lt {l : List ConsensusCommit} {c : ConsensusCommit}
    (h : ∀ d ∈ l, d.subDagIndex < c.subDagIndex) : insertCommit l c = l ++ [c] := by
  have h1 : l.filter (·.subDagIndex < c.subDagIndex) = l := List.filter_eq_self.mpr (by simpa using h)
  have h2 : l.filter (c.subDagIndex < ·.subDagIndex) = [] :=
    List.filter_eq_nil_iff.mpr fun d hd => by have := h d hd; simp; omega
  rw [insertCommit, h1, h2]

section Write

variable {st : ConsensusStore} {lastCommitted : Nat → Option Nat} {subDag : CommittedSubDag}

/-- The commits after writing a sub-dag whose index is above every stored one. -/
theorem committedSubDags_write
    (hidx : ∀ d ∈ st.committedSubDags, d.subDagIndex < subDag.subDagIndex) :
    (st.writeConsensusState lastCommitted subDag).committedSubDags =
      st.committedSubDags ++ [ConsensusCommit.fromSubDag subDag] :=
  insertCommit_of_lt hidx

theorem getLatestSubDag_write
    (hidx : ∀ d ∈ st.committedSubDags, d.subDagIndex < subDag.subDagIndex) :
    (st.writeConsensusState lastCommitted subDag).getLatestSubDag =
      some (ConsensusCommit.fromSubDag subDag) := by
  rw [getLatestSubDag, committedSubDags_write hidx, List.getLast?_concat]

/-- The latest final commit after a write: the new one if its scores are final. -/
theorem readLatestCommitWithFinalReputationScores_write
    (hidx : ∀ d ∈ st.committedSubDags, d.subDagIndex < subDag.subDagIndex) :
    (st.writeConsensusState lastCommitted subDag).readLatestCommitWithFinalReputationScores =
      if subDag.reputationScore.finalOfSchedule then some (ConsensusCommit.fromSubDag subDag)
      else st.readLatestCommitWithFinalReputationScores := by
  rw [readLatestCommitWithFinalReputationScores, committedSubDags_write hidx, List.reverse_append]
  cases h : subDag.reputationScore.finalOfSchedule <;>
    simp [ConsensusCommit.fromSubDag, h, readLatestCommitWithFinalReputationScores]

end Write

end ConsensusStore

/-! ## The certificate store -/

/-- `CertificateStore`: the certificates written to it, oldest first. -/
structure CertificateStore where
  written : List Certificate
  deriving DecidableEq

namespace CertificateStore

/-- A store with nothing written. -/
def empty : CertificateStore := ⟨[]⟩

/-- `CertificateStore::write`. -/
def write (st : CertificateStore) (c : Certificate) : CertificateStore := ⟨st.written ++ [c]⟩

/-- `CertificateStore::read`: `certificates_by_id` holds the last certificate
    written under a digest. -/
def read (st : CertificateStore) (id : Nat) : Option Certificate :=
  st.written.reverse.find? (·.digest == id)

/-- `CertificateStore::contains`: a certificate was written under the digest. -/
def contains (st : CertificateStore) (id : Nat) : Bool := st.written.any (·.digest == id)

/-- `certificate_id_by_round`: the last digest written under a round and origin. -/
def certificateIdByRound (st : CertificateStore) (round origin : Nat) : Option Nat :=
  (st.written.reverse.find? fun c => c.round == round && c.origin == origin).map (·.digest)

/-- The key order of `certificate_id_by_round`: by round, then by origin. -/
def keyLe (k k' : Nat × Nat) : Bool := k.1 < k'.1 || (k.1 == k'.1 && k.2 ≤ k'.2)

/-- The keys of `certificate_id_by_round`, in key order. -/
def roundKeys (st : CertificateStore) : List (Nat × Nat) :=
  (st.written.map fun c => (c.round, c.origin)).dedup.insertionSort fun k k' => keyLe k k' = true

/-- `CertificateStore::after_round`: the certificates of every round from `round`
    on, in key order, each read back by the digest its index holds. -/
def afterRound (st : CertificateStore) (round : Nat) : Except Halt (List Certificate) :=
  ((st.roundKeys.filter (round ≤ ·.1)).filterMap fun k => st.certificateIdByRound k.1 k.2).mapM
    fun id => match st.read id with
      | some c => pure c
      | none => throw (.panic .certificateStoreInvariant)

variable {st : CertificateStore} {x : Certificate}

/-- A certificate read back by digest was written under that digest. -/
theorem read_some {id : Nat} {c : Certificate} (h : st.read id = some c) :
    c ∈ st.written ∧ c.digest = id := by
  have hmem := List.mem_of_find?_eq_some h
  have hdig := List.find?_some h
  exact ⟨List.mem_reverse.mp hmem, by simpa using hdig⟩

/-- When digests tell the written certificates apart, reading a written
    certificate's digest gives it back. -/
theorem read_of_mem (hinj : ∀ y ∈ st.written, y.digest = x.digest → y = x)
    (hx : x ∈ st.written) : st.read x.digest = some x :=
  find?_eq_some_of_unique (List.mem_reverse.mpr hx) (by simp) fun y hy hp =>
    hinj y (List.mem_reverse.mp hy) (by simpa using hp)

/-- The index of a written certificate's round and origin names a certificate
    written there. -/
theorem certificateIdByRound_of_mem (hx : x ∈ st.written) :
    ∃ y ∈ st.written, y.round = x.round ∧ y.origin = x.origin ∧
      st.certificateIdByRound x.round x.origin = some y.digest := by
  have hsome : (st.written.reverse.find? fun c =>
      c.round == x.round && c.origin == x.origin).isSome := by
    rw [List.isSome_find?]
    exact List.any_eq_true.mpr ⟨x, List.mem_reverse.mpr hx, by simp⟩
  obtain ⟨y, hy⟩ := Option.isSome_iff_exists.mp hsome
  have hp := List.find?_some hy
  simp only [Bool.and_eq_true, beq_iff_eq] at hp
  exact ⟨y, List.mem_reverse.mp (List.mem_of_find?_eq_some hy), hp.1, hp.2,
    by simp [certificateIdByRound, hy]⟩

theorem keyLe_eq_true {k k' : Nat × Nat} :
    keyLe k k' = true ↔ k.1 < k'.1 ∨ (k.1 = k'.1 ∧ k.2 ≤ k'.2) := by
  simp [keyLe]

theorem mem_roundKeys {k : Nat × Nat} :
    k ∈ st.roundKeys ↔ ∃ c ∈ st.written, (c.round, c.origin) = k := by
  simp [roundKeys, List.mem_insertionSort]

/-- The keys of the round index come in round order. -/
theorem roundKeys_sorted : st.roundKeys.Pairwise fun k k' => k.1 ≤ k'.1 := by
  -- `key_le` is a total order, so insertion sort leaves the keys sorted by it.
  have htotal : Std.Total fun k k' : Nat × Nat => keyLe k k' = true :=
    ⟨fun k k' => by simp only [keyLe_eq_true]; omega⟩
  have htrans : IsTrans (Nat × Nat) fun k k' => keyLe k k' = true :=
    ⟨fun k k' k'' => by simp only [keyLe_eq_true]; omega⟩
  exact (List.pairwise_insertionSort _ _).imp fun h => by rw [keyLe_eq_true] at h; omega

/-- `after_round` returns written certificates. -/
theorem afterRound_mem {round : Nat} {l : List Certificate} (h : st.afterRound round = .ok l) :
    ∀ c ∈ l, c ∈ st.written := by
  intro c hc
  obtain ⟨id, -, hid⟩ := mapM_ok_mem h c hc
  split at hid
  · rename_i c' hread
    cases Except.pure_eq_ok.mp hid
    exact (read_some hread).1
  · exact absurd hid Except.throw_ne_ok

/-- **What `after_round` returns.** When digests tell the written certificates
    apart, it succeeds, with one written certificate for each key of the round
    index from `round` on, in key order. -/
theorem afterRound_ok (hinj : ∀ x ∈ st.written, ∀ y ∈ st.written, x.digest = y.digest → x = y)
    (round : Nat) :
    ∃ certs, st.afterRound round = .ok certs ∧
      certs.map (fun c => (c.round, c.origin)) = st.roundKeys.filter (round ≤ ·.1) ∧
      ∀ c ∈ certs, c ∈ st.written := by
  have hkeys : ∀ k ∈ st.roundKeys.filter (round ≤ ·.1),
      ∃ c ∈ st.written, (c.round, c.origin) = k :=
    fun k hk => mem_roundKeys.mp (List.mem_filter.mp hk).1
  unfold afterRound
  generalize st.roundKeys.filter (round ≤ ·.1) = ks at hkeys ⊢
  -- One key at a time: its index names a written certificate, which reads back.
  induction ks with
  | nil => exact ⟨[], rfl, rfl, by simp⟩
  | cons k ks ih =>
    obtain ⟨x, hx, rfl⟩ := hkeys k List.mem_cons_self
    obtain ⟨y, hy, hr, ho, hid⟩ := certificateIdByRound_of_mem hx
    obtain ⟨certs, hok, hmap, hmem⟩ := ih fun k hk => hkeys k (List.mem_cons_of_mem _ hk)
    have hread := read_of_mem (fun z hz h => hinj z hz y hy h) hy
    refine ⟨y :: certs, ?_, by simp [hr, ho, hmap], ?_⟩
    · simp only [List.filterMap_cons, hid, List.mapM_cons, hread, hok]
      rfl
    · intro c hc
      rcases List.mem_cons.mp hc with rfl | hc
      · exact hy
      · exact hmem c hc

end CertificateStore

end Mango.Narwhal
