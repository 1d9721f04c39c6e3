/-
  Mango.Narwhal.Primary.Vote

  Voting on headers: `PrimaryReceiverHandler::process_request_vote`
  (`narwhal/primary/src/primary.rs`) over the vote digest store
  (`narwhal/storage/src/vote_digest_store.rs`).

  A request reads the last vote for the header's author from the store, and
  writes its own vote back after signing it, with await points in between.
  anemo serves requests concurrently, so the model is an interleaving: each
  request in flight is a small state machine, and the next event may be one of
  any request. What orders the reads and writes for one author is the network
  layer of `Primary::spawn`, at most one `RequestVote` in flight per peer
  (`InflightLimitLayer::new(1, ReturnError)`), together with the check, made
  before the first await, that the header's author is the requesting peer.
  The store persists; a restart drops every request in flight.

  The checks a request makes before the store is read (header validation, the
  parents, the batches, the timestamp wait) and the ways it can end early (an
  error, missing parents, a cancelled request) are one event, `fail`: none of
  them touches the store. `votes_once` proves, over every sequence of events
  from an empty store, that no two votes returned are for different headers of
  one author and round, and that the rounds voted for each author never go
  down.
-/
import Mathlib
import Mango.Lib.Except
import Mango.Narwhal.Types

namespace Mango.Narwhal

open Mango.Lib

/-! ## Votes and the vote digest store -/

/-- A vote (`VoteV1`) without its signature. -/
structure Vote where
  headerDigest : HeaderDigest
  round : Nat
  epoch : Nat
  origin : Nat
  author : Nat

namespace Vote

/-- `Vote::new`: the vote of `author` for `header`. -/
def new (header : Header) (author : Nat) : Vote :=
  ⟨header.digest, header.round, header.epoch, header.author, author⟩

/-- `Vote::digest` is the digest of the header voted for. -/
def digest (vote : Vote) : HeaderDigest := vote.headerDigest

end Vote

/-- `VoteInfo`: what the store keeps of the last vote for a header author. -/
structure VoteInfo where
  epoch : Nat
  round : Nat
  voteDigest : HeaderDigest

/-- `From<&Vote> for VoteInfo`. -/
def VoteInfo.ofVote (vote : Vote) : VoteInfo := ⟨vote.epoch, vote.round, vote.digest⟩

/-- `VoteDigestStore`: the last vote for each header author. -/
structure VoteDigestStore where
  store : Nat → Option VoteInfo

namespace VoteDigestStore

/-- `VoteDigestStore::read`. -/
def read (s : VoteDigestStore) (headerAuthor : Nat) : Option VoteInfo := s.store headerAuthor

/-- `VoteDigestStore::write`: the vote's info, under its origin. -/
def write (s : VoteDigestStore) (vote : Vote) : VoteDigestStore :=
  ⟨Function.update s.store vote.origin (some (VoteInfo.ofVote vote))⟩

@[simp] theorem read_write (s : VoteDigestStore) (vote : Vote) (a : Nat) :
    (s.write vote).read a = if a = vote.origin then some (VoteInfo.ofVote vote) else s.read a := by
  simp [read, write, Function.update_apply]

end VoteDigestStore

/-! ## `process_request_vote` -/

/-- The check, made before the first await, that a vote request comes from the
    header's author. -/
def checkRequestAuthor (header : Header) (peer : Nat) : Except DagError Unit :=
  if header.author = peer then pure () else throw (.networkError header.author peer)

/-- The end of `process_request_vote`, from what it read of the store: the vote
    to return, and whether it is written to the store first. -/
def checkVoteInfo (authorityId : Nat) (header : Header) (result : Option VoteInfo) :
    Except DagError (Vote × Bool) :=
  match result with
  | some voteInfo =>
    if header.epoch ≠ voteInfo.epoch then
      throw (.invalidEpoch header.epoch voteInfo.epoch)
    else if header.round < voteInfo.round then
      throw (.alreadyVotedNewerHeader header.digest header.round voteInfo.round)
    else if header.round = voteInfo.round then
      -- "Make sure we don't vote twice for the same authority in the same epoch/round."
      let vote := Vote.new header authorityId
      if vote.digest ≠ voteInfo.voteDigest then
        throw (.alreadyVoted voteInfo.voteDigest header.digest header.round)
      else
        pure (vote, false)
    else
      pure (Vote.new header authorityId, true)
  | none => pure (Vote.new header authorityId, true)

/-- A vote returned is the vote for the header. Either it is written, over a
    vote of the same epoch and a lower round if there is one, or it is resent,
    and then it is the vote the store holds. -/
theorem checkVoteInfo_eq_ok {authorityId : Nat} {header : Header} {result : Option VoteInfo}
    {vote : Vote} {write : Bool} (h : checkVoteInfo authorityId header result = .ok (vote, write)) :
    vote = Vote.new header authorityId ∧
      ((write = true ∧ ∀ info, result = some info →
          info.epoch = header.epoch ∧ info.round < header.round) ∨
        (write = false ∧ result = some (VoteInfo.ofVote vote))) := by
  cases result with
  | none =>
    simp only [checkVoteInfo, pure, Except.pure, Except.ok.injEq, Prod.mk.injEq] at h
    obtain ⟨rfl, rfl⟩ := h
    exact ⟨rfl, .inl ⟨rfl, fun _ h => nomatch h⟩⟩
  | some info =>
    obtain ⟨epoch, round, voteDigest⟩ := info
    simp only [checkVoteInfo] at h
    -- the three errors close, leaving the resent vote and the new one
    split_ifs at h with hepoch hlt heq hdigest
    · -- resent: the store holds this very vote
      rw [Except.pure_eq_ok, Prod.mk.injEq] at h
      obtain ⟨rfl, rfl⟩ := h
      refine ⟨rfl, .inr ⟨rfl, ?_⟩⟩
      rw [not_not] at hepoch hdigest
      simp [VoteInfo.ofVote, Vote.new, Vote.digest, hepoch, heq, ← hdigest]
    · -- a new round: written over the older vote
      rw [Except.pure_eq_ok, Prod.mk.injEq] at h
      obtain ⟨rfl, rfl⟩ := h
      refine ⟨rfl, .inl ⟨rfl, fun i hi => ?_⟩⟩
      cases hi
      exact ⟨(not_not.mp hepoch).symm, by dsimp only; omega⟩

/-! ## Requests in flight -/

/-- How far a request in flight has got. -/
inductive VoteStage where
  /-- Before the store is read: validation, parents, batches, the timestamp wait. -/
  | checking
  /-- The store was read, and the vote is being signed. -/
  | signing (result : Option VoteInfo)

/-- A `RequestVote` being served. -/
structure VoteRequest where
  header : Header
  stage : VoteStage

/-- A primary's side of voting. -/
structure Voter where
  authorityId : Nat
  voteDigestStore : VoteDigestStore
  /-- The request in flight from each peer. -/
  inflight : Nat → Option VoteRequest
  /-- The votes returned, in order. -/
  sent : List Vote

/-- What may happen next. -/
inductive VoteEvent where
  /-- A `RequestVote` from `peer` arrives. -/
  | request (peer : Nat) (header : Header)
  /-- The request from `peer` fails a check, returns missing parents, or is cancelled. -/
  | fail (peer : Nat)
  /-- The request from `peer` passes its checks and reads the store. -/
  | read (peer : Nat)
  /-- The request from `peer` has its vote signed, and answers. -/
  | reply (peer : Nat)
  /-- The primary restarts; the store is kept. -/
  | restart

namespace Voter

/-- The voter of authority `authorityId`, with an empty store. -/
def init (authorityId : Nat) : Voter := ⟨authorityId, ⟨fun _ => none⟩, fun _ => none, []⟩

/-- One event. -/
def step (v : Voter) : VoteEvent → Voter
  | .request peer header =>
    match v.inflight peer with
    -- `InflightLimitLayer` with `ReturnError` turns a second request away
    | some _ => v
    | none =>
      match checkRequestAuthor header peer with
      | .ok () => { v with inflight := Function.update v.inflight peer (some ⟨header, .checking⟩) }
      | .error _ => v
  | .fail peer => { v with inflight := Function.update v.inflight peer none }
  | .read peer =>
    match v.inflight peer with
    | some ⟨header, .checking⟩ =>
      let read := v.voteDigestStore.read header.author
      { v with inflight := Function.update v.inflight peer (some ⟨header, .signing read⟩) }
    | _ => v
  | .reply peer =>
    match v.inflight peer with
    | some ⟨header, .signing result⟩ =>
      match checkVoteInfo v.authorityId header result with
      | .ok (vote, write) =>
        { v with
          voteDigestStore := if write then v.voteDigestStore.write vote else v.voteDigestStore
          inflight := Function.update v.inflight peer none
          sent := v.sent ++ [vote] }
      | .error _ => { v with inflight := Function.update v.inflight peer none }
    | _ => v
  | .restart => { v with inflight := fun _ => none }

/-- The voter after a sequence of events. -/
def run (v : Voter) (events : List VoteEvent) : Voter := events.foldl step v

/-- Every event but a reply leaves the store and the votes sent as they are, and
    changes at most the request of one peer, or drops them all. -/
theorem step_of_not_reply (v : Voter) (e : VoteEvent) (he : ∀ peer, e ≠ .reply peer) :
    (v.step e).voteDigestStore = v.voteDigestStore ∧ (v.step e).sent = v.sent := by
  cases e with
  | request peer header =>
    simp only [step]
    split
    · exact ⟨rfl, rfl⟩
    · split <;> exact ⟨rfl, rfl⟩
  | fail peer => exact ⟨rfl, rfl⟩
  | read peer =>
    simp only [step]
    split <;> exact ⟨rfl, rfl⟩
  | reply peer => exact absurd rfl (he peer)
  | restart => exact ⟨rfl, rfl⟩

end Voter

/-! ## The invariant -/

/-- What a request in flight from `peer` keeps: the header is its author's own,
    and once it has read the store, what it read is still there. -/
def RequestInv (store : VoteDigestStore) (peer : Nat) : VoteRequest → Prop
  | ⟨header, .checking⟩ => header.author = peer
  | ⟨header, .signing result⟩ => header.author = peer ∧ result = store.read peer

/-- The voting invariant. Every vote sent is kept in the store, or overtaken by a
    vote of the same epoch and a higher round; votes of one author and round are
    for one header; and the rounds voted for an author go up. -/
structure VoteInv (v : Voter) : Prop where
  inflight : ∀ peer req, v.inflight peer = some req → RequestInv v.voteDigestStore peer req
  sent_stored : ∀ w ∈ v.sent, ∃ info, v.voteDigestStore.read w.origin = some info ∧
    info.epoch = w.epoch ∧ w.round ≤ info.round ∧ (w.round = info.round → info.voteDigest = w.digest)
  sent_once : ∀ w ∈ v.sent, ∀ w' ∈ v.sent, w.origin = w'.origin → w.round = w'.round →
    w.digest = w'.digest
  sent_sorted : v.sent.Pairwise fun w w' => w.origin = w'.origin → w.round ≤ w'.round

section RequestInv

variable {store store' : VoteDigestStore} {inflight : Nat → Option VoteRequest} {peer : Nat}

theorem RequestInv.author {req : VoteRequest} (h : RequestInv store peer req) :
    req.header.author = peer := by
  obtain ⟨header, _ | result⟩ := req
  · exact h
  · exact h.1

/-- A request's invariant only reads the store at its own peer. -/
theorem RequestInv.of_read_eq {req : VoteRequest} (h : RequestInv store peer req)
    (hread : store'.read peer = store.read peer) : RequestInv store' peer req := by
  obtain ⟨header, _ | result⟩ := req
  · exact h
  · exact ⟨h.1, hread ▸ h.2⟩

/-- Setting one peer's request keeps the invariant of all, when the new one
    keeps it and the others kept theirs. -/
theorem requestInv_update (h : ∀ p ≠ peer, ∀ req, inflight p = some req → RequestInv store p req)
    {r : Option VoteRequest} (hr : ∀ req, r = some req → RequestInv store peer req) :
    ∀ p req, Function.update inflight peer r p = some req → RequestInv store p req := by
  intro p req hp
  by_cases hpeer : p = peer
  · subst hpeer
    rw [Function.update_self] at hp
    exact hr req hp
  · rw [Function.update_of_ne hpeer] at hp
    exact h p hpeer req hp

end RequestInv

namespace VoteInv

variable {v : Voter}

theorem init (authorityId : Nat) : VoteInv (Voter.init authorityId) where
  inflight _ _ h := nomatch h
  sent_stored _ h := nomatch h
  sent_once _ h := nomatch h
  sent_sorted := List.Pairwise.nil

/-- An event that keeps the store and the votes sent keeps the invariant when
    the requests it leaves in flight keep theirs. -/
theorem of_requests {v' : Voter} (hI : VoteInv v) (hstore : v'.voteDigestStore = v.voteDigestStore)
    (hsent : v'.sent = v.sent)
    (hinflight : ∀ p req, v'.inflight p = some req → RequestInv v.voteDigestStore p req) :
    VoteInv v' where
  inflight := hstore ▸ hinflight
  sent_stored := hstore ▸ hsent ▸ hI.sent_stored
  sent_once := hsent ▸ hI.sent_once
  sent_sorted := hsent ▸ hI.sent_sorted

/-- A vote sent before is of the epoch of the vote a reply returns, of a round
    not above it, and for the same header at the same round: what the reply read
    is the last vote for that author. -/
theorem earlier_vote {peer : Nat} {header : Header} {result : Option VoteInfo} {vote : Vote}
    {write : Bool} (hI : VoteInv v) (hreq : v.inflight peer = some ⟨header, .signing result⟩)
    (hcheck : checkVoteInfo v.authorityId header result = .ok (vote, write))
    {w : Vote} (hw : w ∈ v.sent) (horigin : w.origin = peer) :
    w.epoch = vote.epoch ∧ w.round ≤ vote.round ∧ (w.round = vote.round → w.digest = vote.digest) := by
  have hread : result = v.voteDigestStore.read peer := (hI.inflight peer _ hreq).2
  obtain ⟨info, hinfo, hepoch, hle, hdigest⟩ := hI.sent_stored w hw
  rw [horigin, ← hread] at hinfo
  obtain ⟨rfl, ⟨-, hnewer⟩ | ⟨-, hsame⟩⟩ := checkVoteInfo_eq_ok hcheck
  · -- written: the stored vote, and so `w`, is of a lower round
    obtain ⟨hepoch', hlt⟩ := hnewer info hinfo
    refine ⟨hepoch ▸ hepoch', by simp only [Vote.new]; omega, fun heq => ?_⟩
    simp only [Vote.new] at heq
    omega
  · -- resent: the stored vote is this one
    rw [hinfo, Option.some.injEq] at hsame
    subst hsame
    exact ⟨hepoch.symm, hle, fun heq => (hdigest heq).symm⟩

/-- A reply keeps the invariant. -/
theorem reply {peer : Nat} (hI : VoteInv v) : VoteInv (v.step (.reply peer)) := by
  simp only [Voter.step]
  split
  · next header result hreq =>
    have hauthor : header.author = peer := (hI.inflight peer _ hreq).1
    split
    · next vote write hcheck =>
      obtain ⟨hvote, _⟩ := checkVoteInfo_eq_ok hcheck
      have horigin : vote.origin = peer := by rw [hvote, ← hauthor]; rfl
      have hearlier := fun w hw horig => hI.earlier_vote hreq hcheck (w := w) hw horig
      -- after the reply the store holds this vote for `peer`, and nothing else changed
      have hstore : ∀ p, (if write then v.voteDigestStore.write vote else v.voteDigestStore).read p =
          if p = peer then some (VoteInfo.ofVote vote) else v.voteDigestStore.read p := by
        intro p
        obtain ⟨-, ⟨rfl, -⟩ | ⟨rfl, hsame⟩⟩ := checkVoteInfo_eq_ok hcheck
        · simp [horigin]
        · rw [if_neg Bool.false_ne_true]
          split
          · next hp =>
            subst hp
            rw [← (hI.inflight _ _ hreq).2, hsame]
          · rfl
      refine ⟨?_, ?_, ?_, ?_⟩
      · -- the store changed only at `peer`, whose one request has answered
        refine requestInv_update (fun p hpeer req hp => ?_) (fun req hr => nomatch hr)
        refine (hI.inflight p req hp).of_read_eq ?_
        rw [hstore p, if_neg hpeer]
      · intro w hw
        rw [hstore]
        rcases List.mem_append.mp hw with hw | hw
        · by_cases hpeer : w.origin = peer
          · obtain ⟨hepoch, hle, hdigest⟩ := hearlier w hw hpeer
            exact ⟨_, if_pos hpeer, hepoch.symm, hle, fun h => (hdigest h).symm⟩
          · rw [if_neg hpeer]
            exact hI.sent_stored w hw
        · rw [List.mem_singleton.mp hw, if_pos horigin]
          exact ⟨_, rfl, rfl, Nat.le_refl _, fun _ => rfl⟩
      · intro w hw w' hw' hsame hround
        rcases List.mem_append.mp hw with hw | hw <;> rcases List.mem_append.mp hw' with hw' | hw'
        · exact hI.sent_once w hw w' hw' hsame hround
        · rw [List.mem_singleton.mp hw'] at hsame hround ⊢
          exact (hearlier w hw (hsame.trans horigin)).2.2 hround
        · rw [List.mem_singleton.mp hw] at hsame hround ⊢
          exact ((hearlier w' hw' (hsame.symm.trans horigin)).2.2 hround.symm).symm
        · rw [List.mem_singleton.mp hw, List.mem_singleton.mp hw']
      · refine List.pairwise_append.mpr ⟨hI.sent_sorted, List.pairwise_singleton _ _, ?_⟩
        intro w hw w' hw' hsame
        rw [List.mem_singleton.mp hw'] at hsame ⊢
        exact (hearlier w hw (hsame.trans horigin)).2.1
    · -- an error: the request is dropped
      exact hI.of_requests rfl rfl
        (requestInv_update (fun p _ => hI.inflight p) (fun req hr => nomatch hr))
  · exact hI

/-- Every event keeps the invariant. -/
theorem step (hI : VoteInv v) (e : VoteEvent) : VoteInv (v.step e) := by
  cases e with
  | reply peer => exact hI.reply
  | request peer header =>
    obtain ⟨hstore, hsent⟩ := v.step_of_not_reply (.request peer header) (fun _ h => nomatch h)
    refine hI.of_requests hstore hsent ?_
    simp only [Voter.step]
    split
    · exact hI.inflight
    · split
      · next hauthor =>
        -- the request passed the author check
        simp only [checkRequestAuthor] at hauthor
        split_ifs at hauthor with hpeer
        refine requestInv_update (fun p _ => hI.inflight p) (fun req hr => ?_)
        cases hr
        exact hpeer
      · exact hI.inflight
  | fail peer =>
    exact hI.of_requests rfl rfl
      (requestInv_update (fun p _ => hI.inflight p) (fun req hr => nomatch hr))
  | read peer =>
    obtain ⟨hstore, hsent⟩ := v.step_of_not_reply (.read peer) (fun _ h => nomatch h)
    refine hI.of_requests hstore hsent ?_
    simp only [Voter.step]
    split
    · next header hreq =>
      -- the store is read under the header's author, who is the peer
      have hauthor : header.author = peer := hI.inflight peer _ hreq
      refine requestInv_update (fun p _ => hI.inflight p) (fun req hr => ?_)
      cases hr
      exact ⟨hauthor, by rw [hauthor]⟩
    · exact hI.inflight
  | restart => exact hI.of_requests rfl rfl (fun _ _ h => nomatch h)

/-- Every run keeps the invariant. -/
theorem run (hI : VoteInv v) (events : List VoteEvent) : VoteInv (v.run events) := by
  induction events generalizing v with
  | nil => exact hI
  | cons e events ih => exact ih (hI.step e)

end VoteInv

/-- Vote-once safety of a primary: over every interleaving of vote requests,
    cancellations and restarts, from an empty vote store, no two votes returned
    are for headers with different digests of one author, epoch and round, and
    the rounds of the votes returned for one author never go down. -/
theorem votes_once (authorityId : Nat) (events : List VoteEvent) :
    (∀ w ∈ ((Voter.init authorityId).run events).sent,
      ∀ w' ∈ ((Voter.init authorityId).run events).sent,
        w.origin = w'.origin → w.epoch = w'.epoch → w.round = w'.round →
          w.headerDigest = w'.headerDigest) ∧
    ((Voter.init authorityId).run events).sent.Pairwise
      fun w w' => w.origin = w'.origin → w.round ≤ w'.round := by
  have hI := (VoteInv.init authorityId).run events
  exact ⟨fun w hw w' hw' horigin _ hround => hI.sent_once w hw w' hw' horigin hround,
    hI.sent_sorted⟩

end Mango.Narwhal
