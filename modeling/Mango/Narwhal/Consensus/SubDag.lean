/-
  Mango.Narwhal.Consensus.SubDag

  The output records of Bullshark (`narwhal/types/src/consensus.rs`):
  `ReputationScores`, `CommittedSubDag` and the `ConsensusCommit` (V2) that
  `ConsensusStore` persists for every sub-dag.

  `scores_per_authority` is a `HashMap`; it is modelled by its entries in
  insertion order. Every score table consensus builds starts from
  `ReputationScores::new`, which inserts the committee in identifier order, and
  `add_score` only updates existing entries for committee origins, so the
  insertion order is the identifier order and the list is the map.
-/
import Mathlib
import Mango.Narwhal.Types

namespace Mango.Narwhal

/-! ## Reputation scores -/

/-- `ReputationScores`: a score per authority, and whether these are the last
    scores of the current schedule. -/
structure ReputationScores where
  scoresPerAuthority : List (Nat × Nat)
  finalOfSchedule : Bool
  deriving DecidableEq, Repr

namespace ReputationScores

/-- `ReputationScores::new`: every authority of the committee with score zero. -/
def new (committee : Committee) : ReputationScores :=
  { scoresPerAuthority := committee.authorities.map (·, 0), finalOfSchedule := false }

/-- `ReputationScores::add_score`: add to an authority's score, inserting it when
    it has none. -/
def addScore (s : ReputationScores) (authority score : Nat) : ReputationScores :=
  if s.scoresPerAuthority.any (·.1 == authority) then
    { s with scoresPerAuthority :=
        s.scoresPerAuthority.map fun e => if e.1 = authority then (e.1, e.2 + score) else e }
  else
    { s with scoresPerAuthority := s.scoresPerAuthority ++ [(authority, score)] }

/-- `ReputationScores::total_authorities`. -/
def totalAuthorities (s : ReputationScores) : Nat := s.scoresPerAuthority.length

/-- The order of `authorities_by_score_desc`: score descending, ties broken by
    authority identifier descending. -/
def scoreDescLe (a b : Nat × Nat) : Bool :=
  b.2 < a.2 || (b.2 == a.2 && b.1 ≤ a.1)

/-- `ReputationScores::authorities_by_score_desc`. The comparator is a total
    order on entries with distinct identifiers, so the sorted list is unique and
    insertion sort computes it. -/
def authoritiesByScoreDesc (s : ReputationScores) : List (Nat × Nat) :=
  s.scoresPerAuthority.insertionSort fun a b => scoreDescLe a b = true

@[simp] theorem new_finalOfSchedule (committee : Committee) :
    (new committee).finalOfSchedule = false := rfl

@[simp] theorem addScore_finalOfSchedule (s : ReputationScores) (a n : Nat) :
    (s.addScore a n).finalOfSchedule = s.finalOfSchedule := by
  unfold addScore; split <;> rfl

end ReputationScores

/-! ## Committed sub-dags -/

/-- `CommittedSubDag`. `commitTimestamp` is the private field; the method with
    its fallback is `CommittedSubDag.commitTimestampMs`. -/
structure CommittedSubDag where
  certificates : List Certificate
  leader : Certificate
  subDagIndex : Nat
  reputationScore : ReputationScores
  commitTimestamp : Nat
  deriving DecidableEq, Repr

namespace CommittedSubDag

/-- `CommittedSubDag::new`: the commit timestamp is the leader's, or the previous
    sub-dag's when that is later. -/
def new (certificates : List Certificate) (leader : Certificate) (subDagIndex : Nat)
    (reputationScore : ReputationScores) (previousSubDag : Option CommittedSubDag) :
    CommittedSubDag :=
  { certificates, leader, subDagIndex, reputationScore,
    commitTimestamp := max ((previousSubDag.map (·.commitTimestamp)).getD 0) leader.createdAt }

/-- `CommittedSubDag::leader_round`. -/
def leaderRound (s : CommittedSubDag) : Nat := s.leader.round

/-- `CommittedSubDag::commit_timestamp`: a zero field means a commit written before
    the field existed, and falls back to the leader's timestamp. -/
def commitTimestampMs (s : CommittedSubDag) : Nat :=
  if s.commitTimestamp = 0 then s.leader.createdAt else s.commitTimestamp

end CommittedSubDag

/-- `ConsensusCommitV2`, the record persisted for every committed sub-dag. -/
structure ConsensusCommit where
  certificates : List Nat
  leader : Nat
  leaderRound : Nat
  subDagIndex : Nat
  reputationScore : ReputationScores
  commitTimestamp : Nat
  deriving DecidableEq, Repr

/-- `ConsensusCommitV2::from_sub_dag`. -/
def ConsensusCommit.fromSubDag (s : CommittedSubDag) : ConsensusCommit :=
  { certificates := s.certificates.map (·.digest), leader := s.leader.digest,
    leaderRound := s.leader.round, subDagIndex := s.subDagIndex,
    reputationScore := s.reputationScore, commitTimestamp := s.commitTimestamp }

/-- `CommittedSubDag::from_commit`: rebuild a sub-dag from its persisted commit and
    the certificates read back from the certificate store. -/
def CommittedSubDag.fromCommit (commit : ConsensusCommit) (certificates : List Certificate)
    (leader : Certificate) : CommittedSubDag :=
  { certificates, leader, subDagIndex := commit.subDagIndex,
    reputationScore := commit.reputationScore, commitTimestamp := commit.commitTimestamp }

/-! ## Commits of both versions and the commit timestamp -/

/-- `CommittedSubDagShell`, the commit record of version 1, written before
    commits carried a timestamp. -/
structure CommittedSubDagShell where
  certificates : List Nat
  leader : Nat
  leaderRound : Nat
  subDagIndex : Nat
  reputationScore : ReputationScores
  deriving DecidableEq, Repr

/-- The `ConsensusCommit` enum: a persisted commit of either version. Its
    version 2 is `ConsensusCommit` of this model. -/
inductive VersionedConsensusCommit where
  | v1 (shell : CommittedSubDagShell)
  | v2 (commit : ConsensusCommit)
  deriving DecidableEq, Repr

namespace VersionedConsensusCommit

/-- `ConsensusCommit::sub_dag_index`. -/
def subDagIndex : VersionedConsensusCommit → Nat
  | .v1 shell => shell.subDagIndex
  | .v2 commit => commit.subDagIndex

/-- `ConsensusCommit::reputation_score`. -/
def reputationScore : VersionedConsensusCommit → ReputationScores
  | .v1 shell => shell.reputationScore
  | .v2 commit => commit.reputationScore

/-- `ConsensusCommit::commit_timestamp`: a shell of version 1 has none and
    returns zero. -/
def commitTimestamp : VersionedConsensusCommit → Nat
  | .v1 _ => 0
  | .v2 commit => commit.commitTimestamp

end VersionedConsensusCommit

namespace CommittedSubDag

/-- `CommittedSubDag::from_commit` on a commit of either version. -/
def fromVersionedCommit (commit : VersionedConsensusCommit) (certificates : List Certificate)
    (leader : Certificate) : CommittedSubDag :=
  { certificates, leader, subDagIndex := commit.subDagIndex,
    reputationScore := commit.reputationScore, commitTimestamp := commit.commitTimestamp }

/-- A restored shell of version 1 reports its leader's timestamp, but the next
    sub-dag is built on the zero it stores: with an older next leader the
    reported timestamp goes back. -/
theorem commit_timestamp_regresses_after_v1_restore :
    let leader : Certificate := ⟨2, 1, 0, [], 100, 7⟩
    let nextLeader : Certificate := ⟨4, 1, 0, [], 50, 9⟩
    let restored := fromVersionedCommit (.v1 ⟨[7], 7, 2, 1, ⟨[], false⟩⟩) [leader] leader
    (new [nextLeader] nextLeader 2 ⟨[], false⟩ (some restored)).commitTimestampMs <
      restored.commitTimestampMs := by
  decide

end CommittedSubDag

end Mango.Narwhal
