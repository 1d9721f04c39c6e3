/-
  Mango.Narwhal.Primary.Synchronizer

  Accepting certificates into the DAG (`narwhal/primary/src/synchronizer.rs`):
  the suspended-certificate `State`, the acceptor task that runs
  `process_certificates_with_lock`, and the garbage-collection task.

  A certificate whose parents are not all in the store is suspended; when a
  parent is accepted, `State::accept_children` releases the children that no
  longer miss anything, and garbage collection releases those that wait on a
  round at or below `gc_round`. The state sits behind one lock. `gc_round` is an
  atomic outside it: the GC task stores the new round and only then waits for
  the lock, and the acceptor task reads the round inside its locked loop. So
  the model has, as separate events, the hand-off of a batch to the acceptor
  task, each certificate it then processes under the lock, the store of
  `gc_round`, and the GC task's pass under the lock.

  Callers see the errors of `process_certificate_internal`; the model keeps
  what reaches the store and consensus, and stops at a panic
  (`SynchronizerPanic`). `fetched_copy_of_suspended_panics` shows the panic
  of `accept_children` on a certificate that is still suspended: a fetched
  copy of it is processed between the store of `gc_round` and the GC task's
  pass.
-/
import Mango.Lib.Except
import Mango.Narwhal.Consensus.Store

namespace Mango.Narwhal

open Mango.Lib

/-- The places where the modelled synchronizer code panics. -/
inductive SynchronizerPanic where
  /-- `accept_certificate_internal`: "Parent {digest} not found for {certificate}!" -/
  | parentNotFound
  /-- `State::insert`: "Inconsistent missing parents!" -/
  | inconsistentMissingParents
  /-- `State::insert`: the digest was already suspended. -/
  | alreadySuspended
  /-- `State::insert`: the digest was already waiting on the parent. -/
  | alreadyMissing
  /-- `State::accept_children`: "should have no missing parent, but is still suspended". -/
  | stillSuspended
  /-- `State::accept_children`: "Inconsistency found!" -/
  | inconsistencyFound
  /-- The GC task: "Never gc certificates above gc_round". -/
  | gcAboveGcRound
  /-- `accept_own_certificate`: "Failed to process locally-created certificate". -/
  | ownCertificateFailed
  /-- The model ran out of fuel in a loop that the code runs to its end. -/
  | outOfFuel
  deriving DecidableEq, Repr

/-! ## The suspended state -/

/-- A certificate waiting for parents (`SuspendedCertificate`, without the
    notification). -/
structure SuspendedCertificate where
  certificate : Certificate
  missingParents : List Nat
  deriving DecidableEq, Repr

/-- `State`: the suspended certificates by digest, and, for each missing
    `(round, digest)`, the suspended certificates that wait for it. `missing` is
    a `BTreeMap`, kept sorted by key. -/
structure SyncState where
  suspended : List (Nat × SuspendedCertificate)
  missing : List ((Nat × Nat) × List Nat)
  deriving DecidableEq, Repr

/-- The key order of `missing`: by round, then by digest. -/
def missingKeyLt (k k' : Nat × Nat) : Bool := k.1 < k'.1 || (k.1 == k'.1 && k.2 < k'.2)

/-- `missing.entry(key).or_default().insert(digest)`, asserted to be new. -/
def insertMissing (key : Nat × Nat) (digest : Nat) :
    List ((Nat × Nat) × List Nat) → Except SynchronizerPanic (List ((Nat × Nat) × List Nat))
  | [] => pure [(key, [digest])]
  | (k, children) :: rest =>
    if k = key then
      if digest ∈ children then throw .alreadyMissing
      else pure ((k, children ++ [digest]) :: rest)
    else if missingKeyLt key k then pure ((key, [digest]) :: (k, children) :: rest)
    else return (k, children) :: (← insertMissing key digest rest)

namespace SyncState

/-- The empty state (`State::default`). -/
def empty : SyncState := ⟨[], []⟩

/-- `check_suspended`. -/
def checkSuspended (s : SyncState) (digest : Nat) : Bool := (s.suspended.lookup digest).isSome

/-- `State::insert`: suspend a certificate on its missing parents. A reinsertion,
    when allowed, must name the same missing parents. -/
def insert (s : SyncState) (certificate : Certificate) (missingParents : List Nat)
    (allowReinsert : Bool) : Except SynchronizerPanic SyncState :=
  let digest := certificate.digest
  let missingRound := certificate.round - 1
  let missingParentsMap := missingParents.dedup
  match allowReinsert, s.suspended.lookup digest with
  | true, some suspendedCert =>
    if suspendedCert.missingParents ⊆ missingParentsMap ∧
        missingParentsMap ⊆ suspendedCert.missingParents then pure s
    else throw .inconsistentMissingParents
  | false, some _ => throw .alreadySuspended
  | _, none =>
    missingParents.foldlM (fun s d => do
        let missing ← insertMissing (missingRound, d) digest s.missing
        pure { s with missing })
      { s with suspended := s.suspended ++ [(digest, ⟨certificate, missingParentsMap⟩)] }

/-- The traversal of `accept_children`, from the `(round, digest)` pairs still
    to visit, collecting the certificates that no longer miss a parent. -/
def acceptChildrenLoop : Nat → List (Nat × Nat) → SyncState → List SuspendedCertificate →
    Except SynchronizerPanic (SyncState × List SuspendedCertificate)
  | _, [], s, toAccept => pure (s, toAccept)
  | 0, _ :: _, _, _ => throw .outOfFuel
  | fuel + 1, (round, digest) :: toTraverse, s, toAccept =>
    match s.missing.lookup (round, digest) with
    | none => acceptChildrenLoop fuel toTraverse s toAccept
    | some childDigests => do
      let s := { s with missing := s.missing.filter (·.1 != (round, digest)) }
      let (s, toTraverse, toAccept) ← childDigests.foldlM (fun acc child =>
          let (s, toTraverse, toAccept) := acc
          match s.suspended.lookup child with
          | none => throw .inconsistencyFound
          | some suspendedChild =>
            let suspendedChild :=
              { suspendedChild with missingParents := suspendedChild.missingParents.erase digest }
            if suspendedChild.missingParents.isEmpty then
              pure ({ s with suspended := s.suspended.filter (·.1 != child) },
                toTraverse ++ [(suspendedChild.certificate.round, suspendedChild.certificate.digest)],
                toAccept ++ [suspendedChild])
            else
              pure ({ s with
                  suspended := s.suspended.map fun e => if e.1 = child then (child, suspendedChild) else e },
                toTraverse, toAccept))
        (s, toTraverse, toAccept)
      acceptChildrenLoop fuel toTraverse s toAccept

/-- `State::accept_children`: the accepted certificate must not be suspended;
    then its waiting children are released, transitively. Each visit after the
    first follows a removal from `suspended`, so the fuel suffices. -/
def acceptChildren (s : SyncState) (round digest : Nat) :
    Except SynchronizerPanic (SyncState × List SuspendedCertificate) :=
  match s.suspended.lookup digest with
  | some _ => throw .stillSuspended
  | none => acceptChildrenLoop (s.suspended.length + 1) [(round, digest)] s []

/-- `State::run_gc_once`: the first missing key at or below `gc_round`, with the
    certificate under its digest if it is suspended, which it removes. -/
def runGcOnce (s : SyncState) (gcRound : Nat) :
    Option (((Nat × Nat) × Option SuspendedCertificate) × SyncState) :=
  match s.missing with
  | [] => none
  | ((round, digest), _) :: _ =>
    if gcRound < round then none
    else
      let suspended := (s.suspended.lookup digest).map fun c => { c with missingParents := [] }
      some (((round, digest), suspended), { s with suspended := s.suspended.filter (·.1 != digest) })

end SyncState

/-! ## The synchronizer -/

/-- `NEW_CERTIFICATE_ROUND_LIMIT`. -/
def newCertificateRoundLimit : Nat := 1000

/-- The fixed parameters: the committee's epoch and the genesis digests. -/
structure SynchronizerConfig where
  epoch : Nat
  genesis : List Nat

/-- The synchronizer's state, and its two tasks' progress. -/
structure Synchronizer where
  /-- `gc_round`, an atomic outside the state lock. -/
  gcRound : Nat
  highestProcessedRound : Nat
  certificateStore : CertificateStore
  /-- `State`, behind the lock. -/
  state : SyncState
  /-- The certificates sent to consensus (`tx_new_certificates`), in order. -/
  sentToConsensus : List Certificate
  /-- The batches handed to the acceptor task, oldest first, with `early_suspend`. -/
  acceptorQueue : List (List Certificate × Bool)
  /-- The rest of the batch the acceptor task works through holding the lock. -/
  acceptorBatch : Option (List Certificate × Bool)
  /-- The round the GC task has stored into `gc_round` while it waits for the lock. -/
  gcPending : Option Nat
  deriving DecidableEq

/-- The inputs and the tasks' steps, in any order. -/
inductive SynchronizerEvent where
  | tryAcceptCertificate (certificate : Certificate)
  | tryAcceptFetchedCertificates (certificates : List Certificate)
  | acceptOwnCertificate (certificate : Certificate)
  /-- The acceptor task takes the next batch and the lock. -/
  | acceptorLock
  /-- The acceptor task processes the next certificate of its batch. -/
  | acceptorNext
  /-- Consensus reports a new GC round; the GC task stores it into `gc_round`. -/
  | consensusRound (gcRound : Nat)
  /-- The GC task takes the lock and runs its pass. -/
  | gcLock

namespace Synchronizer

variable (cfg : SynchronizerConfig)

/-- Nothing stored, nothing suspended. -/
def init : Synchronizer := ⟨0, 0, CertificateStore.empty, SyncState.empty, [], [], none, none⟩

/-- `sanitize_certificate` (the signature check is outside the model). -/
def sanitizeCertificate (sy : Synchronizer) (certificate : Certificate) : Except DagError Unit :=
  if cfg.epoch ≠ certificate.epoch then throw (.invalidEpoch cfg.epoch certificate.epoch)
  else if certificate.round ≤ sy.gcRound then
    throw (.tooOld certificate.digest certificate.round sy.gcRound)
  else pure ()

/-- `get_missing_parents`: round-1 parents must be genesis; others must be stored. -/
def getMissingParents (sy : Synchronizer) (certificate : Certificate) : Except DagError (List Nat) :=
  if certificate.round = 1 then
    match certificate.parents.find? (· ∉ cfg.genesis) with
    | some digest => throw (.invalidGenesisParent digest)
    | none => pure []
  else pure (certificate.parents.filter fun d => !sy.certificateStore.contains d)

/-- `accept_certificate_internal`, with the lock held: above `gc_round + 1` every
    parent must be stored; then the certificate is written and sent to consensus. -/
def acceptCertificateInternal (sy : Synchronizer) (certificate : Certificate) :
    Except SynchronizerPanic Synchronizer :=
  if sy.gcRound + 1 < certificate.round ∧
      !certificate.parents.all sy.certificateStore.contains then throw .parentNotFound
  else pure { sy with
    certificateStore := sy.certificateStore.write certificate
    highestProcessedRound := max sy.highestProcessedRound certificate.round
    sentToConsensus := sy.sentToConsensus ++ [certificate] }

/-- Accept a certificate and then the suspended children it releases, in
    causal order. -/
def acceptWithChildren (sy : Synchronizer) (certificate : Certificate) :
    Except SynchronizerPanic Synchronizer := do
  let (state, suspendedCerts) ← sy.state.acceptChildren certificate.round certificate.digest
  let sy ← { sy with state }.acceptCertificateInternal certificate
  suspendedCerts.foldlM (fun sy suspended => sy.acceptCertificateInternal suspended.certificate) sy

/-- One certificate of `process_certificates_with_lock`, with the lock held:
    skipped while suspended (with `early_suspend`), suspended on missing parents
    above `gc_round + 1`, and accepted otherwise. `none` is an error that ends
    the batch. -/
def processCertificateWithLock (sy : Synchronizer) (certificate : Certificate)
    (earlySuspend : Bool) : Except SynchronizerPanic (Option Synchronizer) :=
  if earlySuspend ∧ sy.state.checkSuspended certificate.digest then pure (some sy)
  else if sy.gcRound + 1 < certificate.round then
    match getMissingParents cfg sy certificate with
    | .error _ => pure none
    | .ok [] => some <$> sy.acceptWithChildren certificate
    | .ok missingParents => do
      let state ← sy.state.insert certificate missingParents (!earlySuspend)
      pure (some { sy with state })
  else some <$> sy.acceptWithChildren certificate

/-- The check, before the hand-off, that a certificate is not too far above the
    highest round accepted (the fetcher is asked for its ancestors instead). -/
def checkNotTooNew (sy : Synchronizer) (certificate : Certificate) : Except DagError Unit :=
  if sy.highestProcessedRound + newCertificateRoundLimit < certificate.round then
    throw (.tooNew certificate.digest certificate.round sy.highestProcessedRound)
  else pure ()

/-- `process_certificate_internal` up to the hand-off to the acceptor task. -/
def processCertificateInternal (sy : Synchronizer) (certificate : Certificate)
    (earlySuspend sanitize : Bool) : Except DagError Synchronizer :=
  if sy.certificateStore.contains certificate.digest then pure sy
  else if earlySuspend ∧ sy.state.checkSuspended certificate.digest then throw .suspended
  else do
    if sanitize then sanitizeCertificate cfg sy certificate
    checkNotTooNew sy certificate
    pure { sy with acceptorQueue := sy.acceptorQueue ++ [([certificate], earlySuspend)] }

/-- `try_accept_fetched_certificates` up to the hand-off: every certificate is
    sanitized and none is too new. -/
def tryAcceptFetchedCertificates (sy : Synchronizer) (certificates : List Certificate) :
    Except DagError Synchronizer :=
  if certificates.isEmpty then pure sy
  else do
    certificates.forM (sanitizeCertificate cfg sy)
    certificates.forM (checkNotTooNew sy)
    pure { sy with acceptorQueue := sy.acceptorQueue ++ [(certificates, false)] }

/-- The GC task's pass under the lock: while a missing key is at or below
    `gc_round`, release it and accept what it frees. Each pass removes a key
    of `missing`, so the fuel suffices. -/
def gcLoop (gcRound : Nat) : Nat → Synchronizer → Except SynchronizerPanic Synchronizer
  | 0, _ => throw .outOfFuel
  | fuel + 1, sy =>
    match sy.state.runGcOnce gcRound with
    | none => pure sy
    | some (((round, digest), suspendedCert), state) =>
      if gcRound < round then throw .gcAboveGcRound
      else do
        let (state, children) ← state.acceptChildren round digest
        let sy ← (suspendedCert.toList ++ children).foldlM
          (fun sy suspended => sy.acceptCertificateInternal suspended.certificate) { sy with state }
        gcLoop gcRound fuel sy

/-- One event. A caller's error leaves the state as it is; a panic stops the
    synchronizer. -/
def step (sy : Synchronizer) : SynchronizerEvent → Except SynchronizerPanic Synchronizer
  | .tryAcceptCertificate certificate =>
    match processCertificateInternal cfg sy certificate true true with
    | .ok sy' => pure sy'
    | .error _ => pure sy
  | .tryAcceptFetchedCertificates certificates =>
    match tryAcceptFetchedCertificates cfg sy certificates with
    | .ok sy' => pure sy'
    | .error _ => pure sy
  | .acceptOwnCertificate certificate =>
    match processCertificateInternal cfg sy certificate false false with
    | .ok sy' => pure sy'
    | .error _ => throw .ownCertificateFailed
  | .acceptorLock =>
    match sy.acceptorBatch, sy.gcPending, sy.acceptorQueue with
    -- the lock is free unless the GC task has it, and it runs its pass in one event
    | none, _, (certificates, earlySuspend) :: rest =>
      -- certificates already stored are skipped before the lock is taken
      let certificates := certificates.filter fun c => !sy.certificateStore.contains c.digest
      pure { sy with acceptorQueue := rest, acceptorBatch := some (certificates, earlySuspend) }
    | _, _, _ => pure sy
  | .acceptorNext =>
    match sy.acceptorBatch with
    | some (certificate :: rest, earlySuspend) => do
      match ← sy.processCertificateWithLock cfg certificate earlySuspend with
      | some sy' => pure { sy' with acceptorBatch := some (rest, earlySuspend) }
      | none => pure { sy with acceptorBatch := none }
    | some ([], _) => pure { sy with acceptorBatch := none }
    | none => pure sy
  | .consensusRound gcRound =>
    match sy.gcPending with
    -- "this is the only task updating gc_round"; it waits for the lock after the store
    | none => pure { sy with gcRound, gcPending := some gcRound }
    | some _ => pure sy
  | .gcLock =>
    match sy.gcPending, sy.acceptorBatch with
    | some gcRound, none => do
      let sy' ← gcLoop gcRound (sy.state.missing.length + 1) sy
      pure { sy' with gcPending := none }
    | _, _ => pure sy

/-- A sequence of events. -/
def run (sy : Synchronizer) (events : List SynchronizerEvent) :
    Except SynchronizerPanic Synchronizer :=
  events.foldlM (step cfg) sy

end Synchronizer

/-- A fetched batch can write a certificate twice. Certificate 31 is suspended on
    its parent 20; a fetched batch brings 20 and 31. Accepting 20 releases 31,
    which is written and sent; the batch then reaches 31 again, which the store
    was checked for only when the batch began. -/
example :
    (Synchronizer.init.run ⟨0, [100]⟩
      [.tryAcceptCertificate ⟨1, 0, 0, [100], 0, 10⟩, .acceptorLock, .acceptorNext, .acceptorNext,
        .tryAcceptCertificate ⟨3, 1, 0, [20], 0, 31⟩, .acceptorLock, .acceptorNext, .acceptorNext,
        .tryAcceptFetchedCertificates [⟨2, 0, 0, [10], 0, 20⟩, ⟨3, 1, 0, [20], 0, 31⟩],
        .acceptorLock, .acceptorNext, .acceptorNext, .acceptorNext]).map (·.sentToConsensus) =
      .ok [⟨1, 0, 0, [100], 0, 10⟩, ⟨2, 0, 0, [10], 0, 20⟩, ⟨3, 1, 0, [20], 0, 31⟩,
        ⟨3, 1, 0, [20], 0, 31⟩] := by
  decide

/-! ## A fetched copy of a suspended certificate -/

/-- The acceptor task panics in `accept_children` on a certificate that is still
    suspended. Certificate 10 of round 1 is accepted. Certificate 21 of round 2
    arrives by broadcast while `gc_round` is 0, and is suspended on its parent 11,
    which never arrives. A fetched batch holds certificate 20 of round 2 (whose
    parent is 10) and a copy of 21. The acceptor task takes the lock and accepts
    20; meanwhile consensus moves the GC round to 1, and the GC task stores it
    and waits for the lock. The acceptor task goes on to 21. With
    `early_suspend` false it does not read `suspended`, and at round
    `gc_round + 1` it does not look for missing parents, so it goes straight to
    `accept_children`. -/
theorem fetched_copy_of_suspended_panics :
    Synchronizer.init.run ⟨0, [100]⟩
      [.tryAcceptCertificate ⟨1, 0, 0, [100], 0, 10⟩, .acceptorLock, .acceptorNext, .acceptorNext,
        .tryAcceptCertificate ⟨2, 1, 0, [11], 0, 21⟩, .acceptorLock, .acceptorNext, .acceptorNext,
        .tryAcceptFetchedCertificates [⟨2, 0, 0, [10], 0, 20⟩, ⟨2, 1, 0, [11], 0, 21⟩],
        .acceptorLock, .acceptorNext, .consensusRound 1, .acceptorNext] =
      .error .stillSuspended := by
  decide

/-- Had the GC task's pass come before the fetched copy, it would have accepted
    the suspended certificate and sent it to consensus. -/
example :
    (Synchronizer.init.run ⟨0, [100]⟩
      [.tryAcceptCertificate ⟨1, 0, 0, [100], 0, 10⟩, .acceptorLock, .acceptorNext, .acceptorNext,
        .tryAcceptCertificate ⟨2, 1, 0, [11], 0, 21⟩, .acceptorLock, .acceptorNext, .acceptorNext,
        .consensusRound 1, .gcLock]).map (·.sentToConsensus) =
      .ok [⟨1, 0, 0, [100], 0, 10⟩, ⟨2, 1, 0, [11], 0, 21⟩] := by
  decide

end Mango.Narwhal
