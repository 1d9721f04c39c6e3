/-
  Mango.Core.StakeAggregator

  Aggregation of authority signatures by stake
  (`crates/mgo-core/src/stake_aggregator.rs`) and the checkpoint signature
  aggregator built on it (`CheckpointSignatureAggregator::try_aggregate` and
  the loop of `CheckpointAggregator::run_inner`,
  `crates/mgo-core/src/checkpoints/mod.rs`).

  A `StakeAggregator` collects one signature per authority for one message
  and adds each new signer's weight to `total_votes`; a
  `MultiStakeAggregator` keeps one such aggregator per digest signed, and
  judges a split brain from the sum of their totals. The checkpoint
  aggregator files a signature under the digest its sender signed, paired
  with the local summary, so that only signatures over the local digest
  can ever verify.

  Signatures are modelled by what they sign (signer, message digest,
  epoch): a signature verifies exactly when it was made by the authority
  named, over the message, at the epoch. An aggregated signature verifies
  when each signature it aggregates does. A summary is modelled by its
  digest. Metrics, logs and the split-brain diagnosis task are left out;
  that `check_for_split_brain` reported is returned as a flag.

  Nothing relates the signers of different digests, so an authority that
  signs several digests is counted once per digest in the multi-aggregator's
  total (`byzantine_signer_counted_per_digest`).
-/
import Mango.Lib.Tally
import Mango.Core.Transaction

namespace Mango.Core

open Mango.Lib

/-! ## Committee -/

/-- `TOTAL_VOTING_POWER`. -/
def totalVotingPower : Nat := 10000

/-- `QUORUM_THRESHOLD`. -/
def quorumThreshold : Nat := 6667

/-- `VALIDITY_THRESHOLD`. -/
def validityThreshold : Nat := 3334

/-- `Committee`, with what `Committee::new` asserts of its voting rights:
    each authority once, the weights adding up to `TOTAL_VOTING_POWER`. -/
structure Committee where
  epoch : Nat
  votingRights : List (Nat × Nat)
  nodup : (votingRights.map (·.1)).Nodup
  total_eq : (votingRights.map (·.2)).sum = totalVotingPower

namespace Committee

/-- `Committee::weight`: zero for an authority outside the committee. -/
def weight (c : Committee) (author : Nat) : Nat :=
  weightOf c.votingRights author

/-- `Committee::total_votes`. -/
def totalVotes (_ : Committee) : Nat :=
  totalVotingPower

/-- `Committee::threshold::<STRENGTH>`. -/
def threshold (_ : Committee) (strength : Bool) : Nat :=
  if strength then quorumThreshold else validityThreshold

/-- `Committee::authority_index`. -/
def authorityIndex (c : Committee) (author : Nat) : Option Nat :=
  (c.votingRights.map (·.1)).idxOf? author

end Committee

/-! ## Signatures -/

/-- An authority signature, modelled by what it signs: `new_secure` signs the
    message's bytes with the epoch appended, under the signer's key. -/
structure AuthoritySignature where
  signer : Nat
  message : Nat
  epoch : Nat
  deriving DecidableEq, Repr

/-- `AuthoritySignInfo`. -/
structure AuthoritySignInfo where
  epoch : Nat
  authority : Nat
  signature : AuthoritySignature
  deriving DecidableEq, Repr

/-- `AuthoritySignInfo::verify_secure` against the message with digest `data`:
    the epoch is the committee's, the authority has weight, and the signature
    is the authority's over the message at that epoch. -/
def AuthoritySignInfo.verifySecure (s : AuthoritySignInfo) (data : Nat)
    (committee : Committee) : Bool :=
  s.epoch == committee.epoch && committee.weight s.authority > 0 &&
    s.signature == ⟨s.authority, data, s.epoch⟩

/-- `AuthorityQuorumSignInfo`, with the signatures it aggregates. -/
structure AuthorityQuorumSignInfo where
  epoch : Nat
  signatures : List AuthoritySignInfo
  deriving DecidableEq, Repr

/-- `AuthorityQuorumSignInfo::new_from_auth_sign_infos`. -/
def AuthorityQuorumSignInfo.newFromAuthSignInfos (authSignInfos : List AuthoritySignInfo)
    (committee : Committee) (strength : Bool) : Except MgoError AuthorityQuorumSignInfo :=
  if !authSignInfos.all (·.epoch == committee.epoch) then
    .error (.invalidSignature "All signatures must be from the same epoch as the committee")
  else if (authSignInfos.map (committee.weight ·.authority)).sum < committee.threshold strength then
    .error (.invalidSignature "Signatures don't have enough stake to form a quorum")
  else match authSignInfos.find? (committee.authorityIndex ·.authority |>.isNone) with
    | some a => .error (.unknownSigner a.authority)
    | none => .ok ⟨committee.epoch, authSignInfos⟩

/-- `AuthorityQuorumSignInfo::verify_secure`: the epoch is the committee's,
    every signer has weight, together they reach the threshold, and the
    aggregated signature verifies, that is each signature it aggregates. -/
def AuthorityQuorumSignInfo.verifySecure (q : AuthorityQuorumSignInfo) (data : Nat)
    (committee : Committee) (strength : Bool) : Bool :=
  q.epoch == committee.epoch && q.signatures.all (committee.weight ·.authority > 0) &&
    decide ((q.signatures.map (committee.weight ·.authority)).sum ≥ committee.threshold strength) &&
    q.signatures.all (fun s => s.signature == ⟨s.authority, data, q.epoch⟩)

/-- A message signed by an authority: `Envelope<T, AuthoritySignInfo>`, the
    message modelled by its digest. -/
structure Envelope where
  data : Nat
  authSig : AuthoritySignInfo
  deriving DecidableEq, Repr

/-! ## `StakeAggregator` -/

/-- `InsertResult`. -/
inductive InsertResult (CertT : Type) where
  | quorumReached (cert : CertT)
  | failed (error : MgoError)
  | notEnoughVotes (badVotes : Nat) (badAuthorities : List Nat)

/-- `StakeAggregator<S, STRENGTH>`: the signatures by authority, and the sum
    of their weights. -/
structure StakeAggregator (S : Type) (strength : Bool) where
  data : List (Nat × S)
  totalVotes : Nat
  committee : Committee

namespace StakeAggregator

variable {S : Type} {strength : Bool}

/-- `StakeAggregator::new`. -/
def new (committee : Committee) : StakeAggregator S strength :=
  ⟨[], 0, committee⟩

/-- `StakeAggregator::insert_generic`: a repeated signer is refused; a new one
    is recorded, and then counted if it has weight. -/
def insertGeneric [DecidableEq S] (agg : StakeAggregator S strength) (authority : Nat) (s : S) :
    StakeAggregator S strength × InsertResult (List (Nat × S)) :=
  match vget agg.data authority with
  | some old => (agg, .failed (.stakeAggregatorRepeatedSigner authority (old != s)))
  | none =>
    -- The signature is recorded before its weight is looked at.
    let agg := { agg with data := vset agg.data authority s }
    let votes := agg.committee.weight authority
    if votes > 0 then
      let agg := { agg with totalVotes := agg.totalVotes + votes }
      if agg.totalVotes ≥ agg.committee.threshold strength then (agg, .quorumReached agg.data)
      else (agg, .notEnoughVotes 0 [])
    else (agg, .failed .invalidAuthenticator)

/-- `StakeAggregator::has_quorum`. -/
def hasQuorum (agg : StakeAggregator S strength) : Bool :=
  agg.totalVotes ≥ agg.committee.threshold strength

/-- The fallback loop of `insert`, over a snapshot of the signatures: each one
    that does not verify against `data` is removed, and its weight taken off
    `total_votes` and added to `bad_votes`. -/
def removeBadVotes (data : Nat) :
    List (Nat × AuthoritySignInfo) → StakeAggregator AuthoritySignInfo strength → Nat →
      List Nat → StakeAggregator AuthoritySignInfo strength × Nat × List Nat
  | [], agg, badVotes, badAuthorities => (agg, badVotes, badAuthorities)
  | (name, sig) :: rest, agg, badVotes, badAuthorities =>
    if sig.verifySecure data agg.committee then
      removeBadVotes data rest agg badVotes badAuthorities
    else
      let votes := agg.committee.weight name
      removeBadVotes data rest
        { agg with data := verase agg.data name, totalVotes := agg.totalVotes - votes }
        (badVotes + votes) (badAuthorities ++ [name])

/-- `StakeAggregator::insert`: the signature's epoch must be the committee's;
    on reaching the threshold the signatures are aggregated and verified
    together, and if that fails each is verified alone and the bad ones are
    dropped. -/
def insert (agg : StakeAggregator AuthoritySignInfo strength) (envelope : Envelope) :
    StakeAggregator AuthoritySignInfo strength × InsertResult AuthorityQuorumSignInfo :=
  let sig := envelope.authSig
  if agg.committee.epoch ≠ sig.epoch then
    (agg, .failed (.wrongEpoch agg.committee.epoch sig.epoch))
  else
    match agg.insertGeneric sig.authority sig with
    | (agg, .quorumReached _) =>
      match AuthorityQuorumSignInfo.newFromAuthSignInfos (agg.data.map (·.2)) agg.committee
          strength with
      | .ok aggregated =>
        if aggregated.verifySecure envelope.data agg.committee strength then
          (agg, .quorumReached aggregated)
        else
          let (agg, badVotes, badAuthorities) := removeBadVotes envelope.data agg.data agg 0 []
          (agg, .notEnoughVotes badVotes badAuthorities)
      | .error error => (agg, .failed error)
    | (agg, .failed error) => (agg, .failed error)
    | (agg, .notEnoughVotes badVotes badAuthorities) =>
      (agg, .notEnoughVotes badVotes badAuthorities)

end StakeAggregator

/-! ## `MultiStakeAggregator` -/

/-- `MultiStakeAggregator<K, V, STRENGTH>`: for each key, the message first
    filed under it and the aggregator of the signatures filed under it. -/
structure MultiStakeAggregator (K : Type) (strength : Bool) where
  committee : Committee
  stakeMaps : List (K × (Nat × StakeAggregator AuthoritySignInfo strength))

namespace MultiStakeAggregator

variable {K : Type} {strength : Bool}

/-- `MultiStakeAggregator::new`. -/
def new (committee : Committee) : MultiStakeAggregator K strength :=
  ⟨committee, []⟩

/-- `MultiStakeAggregator::total_votes`: the totals of the keys' aggregators,
    added up. -/
def totalVotes (m : MultiStakeAggregator K strength) : Nat :=
  (m.stakeMaps.map (·.2.2.totalVotes)).sum

/-- `MultiStakeAggregator::insert`: the signature goes to its key's
    aggregator; a key seen for the first time gets a new aggregator, kept only
    if the insertion did not fail. -/
def insert [DecidableEq K] (m : MultiStakeAggregator K strength) (k : K) (envelope : Envelope) :
    MultiStakeAggregator K strength × InsertResult AuthorityQuorumSignInfo :=
  match vget m.stakeMaps k with
  | some (v, agg) =>
    let (agg, result) := agg.insert envelope
    ({ m with stakeMaps := vset m.stakeMaps k (v, agg) }, result)
  | none =>
    let (newEntry, result) := (StakeAggregator.new m.committee).insert envelope
    match result with
    | .failed _ => (m, result)
    | _ => ({ m with stakeMaps := vset m.stakeMaps k (envelope.data, newEntry) }, result)

/-- `MultiStakeAggregator::uncommitted_stake`: a `u64` subtraction, which wraps
    around in the release build (overflow checks are off there) and panics in
    a debug build when the votes exceed the committee's. -/
def uncommittedStake (m : MultiStakeAggregator K strength) : UInt64 :=
  m.committee.totalVotes.toUInt64 - m.totalVotes.toUInt64

/-- `MultiStakeAggregator::plurality_stake`: the largest total of one key. -/
def pluralityStake (m : MultiStakeAggregator K strength) : Nat :=
  (m.stakeMaps.map (·.2.2.totalVotes)).max?.getD 0

/-- `MultiStakeAggregator::quorum_unreachable`, in `u64` arithmetic. -/
def quorumUnreachable (m : MultiStakeAggregator K strength) : Bool :=
  m.uncommittedStake + m.pluralityStake.toUInt64 < (m.committee.threshold strength).toUInt64

end MultiStakeAggregator

/-! ## Checkpoint signature aggregation -/

/-- `CheckpointSignatureMessage`: a checkpoint summary signed by one authority,
    the summary modelled by its digest. -/
structure CheckpointSignatureMessage where
  summary : Envelope
  deriving DecidableEq, Repr

/-- `CheckpointSignatureAggregator`: the digest of the local summary, and the
    signatures received for its sequence number, filed by the digest their
    sender signed. -/
structure CheckpointSignatureAggregator where
  digest : Nat
  signaturesByDigest : MultiStakeAggregator Nat true

namespace CheckpointSignatureAggregator

/-- `check_for_split_brain`: whether it reports a split brain. -/
def checkForSplitBrain (a : CheckpointSignatureAggregator) : Bool :=
  a.signaturesByDigest.quorumUnreachable

/-- `CheckpointSignatureAggregator::try_aggregate`, with whether it reported a
    split brain. -/
def tryAggregate (a : CheckpointSignatureAggregator) (data : CheckpointSignatureMessage) :
    CheckpointSignatureAggregator × Except Unit AuthorityQuorumSignInfo × Bool :=
  let theirDigest := data.summary.data
  let signature := data.summary.authSig
  -- The sender's signature goes with the local summary, filed under its own digest.
  let envelope : Envelope := ⟨a.digest, signature⟩
  let (signaturesByDigest, result) := a.signaturesByDigest.insert theirDigest envelope
  let a := { a with signaturesByDigest }
  match result with
  | .failed _ => (a, .error (), a.checkForSplitBrain)
  | .quorumReached cert =>
    if theirDigest ≠ a.digest then (a, .error (), false) else (a, .ok cert, false)
  | .notEnoughVotes _ _ => (a, .error (), a.checkForSplitBrain)

/-- The loop of `CheckpointAggregator::run_inner` over the pending signatures
    of the checkpoint being certified: each goes to `try_aggregate` until one
    certifies the checkpoint. Returns the aggregator, the certificate if one
    formed, and for each signature taken whether a split brain was reported. -/
def aggregateSignatures : CheckpointSignatureAggregator → List CheckpointSignatureMessage →
    CheckpointSignatureAggregator × Option AuthorityQuorumSignInfo × List Bool
  | a, [] => (a, none, [])
  | a, data :: rest =>
    match a.tryAggregate data with
    | (a, .ok cert, splitBrain) => (a, some cert, [splitBrain])
    | (a, .error (), splitBrain) =>
      let (a, cert, reports) := aggregateSignatures a rest
      (a, cert, splitBrain :: reports)

end CheckpointSignatureAggregator

/-- Four authorities of equal weight at epoch 0. -/
def fourEqualMembers : Committee :=
  ⟨0, [(1, 2500), (2, 2500), (3, 2500), (4, 2500)], by decide, by decide⟩

/-- The checkpoint summary with digest `d` as authority `a` signs it at epoch 0. -/
def signedSummary (a d : Nat) : CheckpointSignatureMessage :=
  ⟨⟨d, ⟨0, a, ⟨a, d, 0⟩⟩⟩⟩

/-- Authority 2 signs four digests other than the local one (100), each
    signature valid. Its stake is counted four times: a split brain is
    reported from the third signature on, although authorities 3 and 4 have
    not signed and, with authority 1, then certify the local digest; and the
    votes reach 17500, above the committee's 10000, so `uncommitted_stake`
    underflows. -/
theorem byzantine_signer_counted_per_digest :
    let run := (CheckpointSignatureAggregator.mk 100 (.new fourEqualMembers)).aggregateSignatures
      [signedSummary 1 100, signedSummary 2 101, signedSummary 2 102, signedSummary 2 103,
        signedSummary 2 104, signedSummary 3 100, signedSummary 4 100]
    run.2.2 = [false, false, true, true, true, true, false] ∧ run.2.1.isSome = true ∧
      totalVotingPower < run.1.signaturesByDigest.totalVotes := by
  decide

end Mango.Core
