/-
  Mango.Narwhal.Consensus.State

  `ConsensusState` (`narwhal/primary/src/consensus/state.rs`): the in-memory
  DAG, the per-origin last committed rounds, the committed/GC round pair and
  the last committed sub-dag, with `try_insert_in_dag`, `check_parents`,
  `update` and `next_sub_dag_index`.

  The `Dag` is `BTreeMap<Round, HashMap<AuthorityIdentifier, (digest, cert)>>`.
  It is modelled as the function from a round and an origin to the certificate
  stored there; the digest beside it is the certificate's own. Iterating a
  round's `HashMap` becomes a pass over the committee's identifiers (the
  `authorities` argument): the certificates consensus receives have passed
  `sanitize_certificate`, so their origins are committee members. Entries
  are only created by an insertion and only dropped by `retain`, so a round has
  an entry exactly when it holds a certificate.

  Where the code panics or returns a `ConsensusError` the model returns a
  `Halt`: the consensus task panics on both (`Consensus::run`).
-/
import Mango.Narwhal.Consensus.SubDag

namespace Mango.Narwhal

/-- The places where the modelled consensus code panics. -/
inductive Panic where
  /-- `check_parents`: "Parent digest … not found in DAG". -/
  | parentNotFoundInDag
  /-- `check_parents`: "Parent round not found in DAG". -/
  | parentRoundNotFound
  /-- `.expect("We should have the whole history by now")`. -/
  | wholeHistoryMissing
  /-- `order_dag`: "Parent digest … not found". -/
  | parentNotFound
  /-- `order_dag`: `assert!(leader.round() > 0)`. -/
  | leaderRoundZero
  /-- `LeaderSchedule::leader`: leader election for an odd round. -/
  | oddLeaderRound
  /-- `LeaderSwapTable::swap`: "There should be at least one good node available". -/
  | noGoodNode
  /-- `resolve_reputation_score`: "Committed sub dag should always exist …". -/
  | missingCommittedSubDag
  /-- `%` by a zero `num_sub_dags_per_schedule`. -/
  | remainderByZero
  /-- `resolve_reputation_score`: scores must cover exactly the committee. -/
  | scoresNotCommittee
  /-- `order_leaders`: `assert_eq!(leader.round() % 2, 0)`. -/
  | oddLeaderToOrder
  /-- `Committee::leader`: "Weighted choice error: stake values incorrect!". -/
  | weightedChoiceError
  /-- `LeaderSwapTable::new`: the bad nodes threshold must lie in `[0, 33]`. -/
  | badNodesThresholdOutOfRange
  /-- `LeaderSwapTable::new`: only final reputation scores are accepted. -/
  | scoresNotFinal
  /-- `Committee::authority_safe`: "Authority with id … should have been in committee". -/
  | authorityNotInCommittee
  /-- `CertificateStore::after_round`: "CertificateStore invariant violation". -/
  | certificateStoreInvariant
  /-- `new_from_store`: "Certificate should be found in database". -/
  | certificateNotInDatabase
  /-- `Consensus::spawn`: the last sub-dag's leader round is not the last committed round. -/
  | lastSubDagRoundMismatch
  /-- `Consensus::run_inner`: the committed round is not the highest committed round. -/
  | committedRoundMismatch
  deriving DecidableEq, Repr

/-- Why a consensus call does not return normally. `outOfFuel` stands for a loop
    of the code that the model bounds; the bounds are shown to be enough. -/
inductive Halt where
  /-- `ConsensusError::CertificateEquivocation`. -/
  | certificateEquivocation (certificate existing : Certificate)
  | panic (site : Panic)
  | outOfFuel
  deriving DecidableEq, Repr

/-! ## The DAG -/

/-- `Dag`: the certificate of every round and origin. -/
abbrev Dag := Nat → Nat → Option Certificate

namespace Dag

/-- The empty DAG of `ConsensusState::new`. -/
def empty : Dag := fun _ _ => none

/-- Store a certificate at its round and origin, replacing what was there. -/
def insert (dag : Dag) (c : Certificate) : Dag :=
  fun r a => if r = c.round ∧ a = c.origin then some c else dag r a

/-- `dag.retain(|r, _| *r > gc_round)`. -/
def retainAbove (dag : Dag) (gcRound : Nat) : Dag :=
  fun r a => if gcRound < r then dag r a else none

/-- `dag.get(&r).values()`: the certificates of round `r`. -/
def roundTable (authorities : List Nat) (dag : Dag) (r : Nat) : List Certificate :=
  authorities.filterMap (dag r)

@[simp] theorem insert_apply (dag : Dag) (c : Certificate) (r a : Nat) :
    dag.insert c r a = if r = c.round ∧ a = c.origin then some c else dag r a := rfl

@[simp] theorem retainAbove_apply (dag : Dag) (g r a : Nat) :
    dag.retainAbove g r a = if g < r then dag r a else none := rfl

@[simp] theorem empty_apply (r a : Nat) : empty r a = none := rfl

theorem mem_roundTable {authorities : List Nat} {dag : Dag} {r : Nat} {c : Certificate} :
    c ∈ roundTable authorities dag r ↔ ∃ a ∈ authorities, dag r a = some c := by
  simp [roundTable]

end Dag

/-! ## Rounds -/

/-- `gc_round`: the highest round that is garbage collected (saturating). -/
def gcRound (commitRound gcDepth : Nat) : Nat := commitRound - gcDepth

/-- `ConsensusRound`: the last committed round and its GC round. -/
structure ConsensusRound where
  committedRound : Nat
  gcRound : Nat
  deriving DecidableEq, Repr

namespace ConsensusRound

/-- `ConsensusRound::new_with_gc_depth`. -/
def newWithGcDepth (committedRound gcDepth : Nat) : ConsensusRound :=
  { committedRound, gcRound := Narwhal.gcRound committedRound gcDepth }

/-- `ConsensusRound::update`: raise the committed round and recompute the GC round. -/
def update (r : ConsensusRound) (newCommittedRound gcDepth : Nat) : ConsensusRound :=
  newWithGcDepth (max r.committedRound newCommittedRound) gcDepth

@[simp] theorem update_committedRound (r : ConsensusRound) (n d : Nat) :
    (r.update n d).committedRound = max r.committedRound n := rfl

@[simp] theorem update_gcRound (r : ConsensusRound) (n d : Nat) :
    (r.update n d).gcRound = max r.committedRound n - d := rfl

end ConsensusRound

/-! ## The consensus state -/

/-- `ConsensusState` without its metrics handle. `lastCommitted` is the
    `HashMap<AuthorityIdentifier, Round>` as a partial function. -/
structure ConsensusState where
  lastRound : ConsensusRound
  gcDepth : Nat
  lastCommitted : Nat → Option Nat
  lastCommittedSubDag : Option CommittedSubDag
  dag : Dag

namespace ConsensusState

/-- `ConsensusState::new`. -/
def new (gcDepth : Nat) : ConsensusState :=
  { lastRound := ⟨0, 0⟩, gcDepth, lastCommitted := fun _ => none,
    lastCommittedSubDag := none, dag := Dag.empty }

/-- `check_parents`: a certificate above `gc_round + 1` must find all its parents
    among the digests of the previous round, or the node panics. -/
def checkParents (authorities : List Nat) (certificate : Certificate) (dag : Dag)
    (gcRound : Nat) : Except Halt Unit :=
  if certificate.round ≤ gcRound + 1 then pure ()
  else
    let table := Dag.roundTable authorities dag (certificate.round - 1)
    if table.isEmpty then throw (.panic .parentRoundNotFound)
    else if certificate.parents.all fun p => table.any (·.digest == p) then pure ()
    else throw (.panic .parentNotFoundInDag)

/-- `try_insert_in_dag`: certificates at or below the GC round are ignored; any
    other is stored (after `check_parents`), and the result says whether it is
    above the last committed round of its origin. Storing a different certificate
    at an occupied (round, origin) is an equivocation. -/
def tryInsertInDag (authorities : List Nat) (dag : Dag) (lastCommitted : Nat → Option Nat)
    (gcRound : Nat) (certificate : Certificate) : Except Halt (Bool × Dag) := do
  if certificate.round ≤ gcRound then return (false, dag)
  checkParents authorities certificate dag gcRound
  if let some existing := dag certificate.round certificate.origin then
    if existing.digest ≠ certificate.digest then
      throw (.certificateEquivocation certificate existing)
  return (decide ((lastCommitted certificate.origin).getD 0 < certificate.round),
    dag.insert certificate)

/-- `ConsensusState::try_insert`. -/
def tryInsert (s : ConsensusState) (authorities : List Nat) (certificate : Certificate) :
    Except Halt (Bool × ConsensusState) := do
  let (inserted, dag) ←
    tryInsertInDag authorities s.dag s.lastCommitted s.lastRound.gcRound certificate
  return (inserted, { s with dag })

/-- `ConsensusState::update`: record a committed certificate and purge the DAG
    below the new GC round. -/
def update (s : ConsensusState) (certificate : Certificate) : ConsensusState :=
  let lastRound := s.lastRound.update certificate.round s.gcDepth
  { s with
    lastCommitted := fun a =>
      if a = certificate.origin then
        match s.lastCommitted a with
        | some r => some (max r certificate.round)
        | none => some certificate.round
      else s.lastCommitted a
    lastRound
    dag := s.dag.retainAbove lastRound.gcRound }

/-- `ConsensusState::next_sub_dag_index`. -/
def nextSubDagIndex (s : ConsensusState) : Nat :=
  (s.lastCommittedSubDag.map (·.subDagIndex)).getD 0 + 1

@[simp] theorem update_lastRound (s : ConsensusState) (c : Certificate) :
    (s.update c).lastRound = s.lastRound.update c.round s.gcDepth := rfl

@[simp] theorem update_gcDepth (s : ConsensusState) (c : Certificate) :
    (s.update c).gcDepth = s.gcDepth := rfl

@[simp] theorem update_lastCommittedSubDag (s : ConsensusState) (c : Certificate) :
    (s.update c).lastCommittedSubDag = s.lastCommittedSubDag := rfl

@[simp] theorem update_dag (s : ConsensusState) (c : Certificate) :
    (s.update c).dag = s.dag.retainAbove (max s.lastRound.committedRound c.round - s.gcDepth) :=
  rfl

theorem update_lastCommitted (s : ConsensusState) (c : Certificate) (a : Nat) :
    (s.update c).lastCommitted a =
      if a = c.origin then some (max ((s.lastCommitted a).getD 0) c.round)
      else s.lastCommitted a := by
  simp only [update]
  split
  · cases s.lastCommitted a <;> simp
  · rfl

end ConsensusState

end Mango.Narwhal
