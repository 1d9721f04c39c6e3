/-
  Mango.Narwhal.Primary.ProposerDigests

  Where the proposer keeps the batch digests and system messages it receives
  (`Proposer::run`, `create_new_header`). Each one waits in the queue
  `digests` or `system_messages`, is held in `proposed_headers` under the round
  of the own header that carries it, or went with a header that consensus
  reported committed. A header takes at most `max_header_num_of_batches`
  digests from the front of the queue; a report of committed own headers
  gives the messages of the headers left at or below the highest committed
  round back to the front of the queues, oldest first.

  The code keeps no record of the messages received or committed. The ledger
  (`MessageLedger`) is the proof's account of them, computed from the proposer
  before each event and run beside it (`runLedger`, which runs the proposer as
  `run` does). A restart empties the queues and forgets `proposed_headers`,
  so the account holds over runs without restarts
  (`proposer_conserves_messages`); the bound on the digests of a header holds
  over every run.
-/
import Mango.Narwhal.Primary.Proposer

namespace Mango.Narwhal

open Mango.Lib

/-- The header an output sends to the certifier. -/
def ProposerOutput.header? : ProposerOutput → Option Header
  | .created header => some header
  | .reused header => some header
  | .resent header => some header
  | .restarted => none

/-- The headers sent to the certifier, in order. -/
def sentHeaders (log : List ProposerOutput) : List Header :=
  log.filterMap ProposerOutput.header?

/-- Whether an event restarts the proposer. -/
def ProposerEvent.isRestart : ProposerEvent → Bool
  | .restart => true
  | _ => false

/-- The account of the messages of a run: the digests and system messages
    received, and those that reports of committed own headers took out of
    `proposed_headers`. -/
structure MessageLedger where
  receivedDigests : List Nat
  receivedSystemMessages : List Nat
  committedDigests : List Nat
  committedSystemMessages : List Nat

namespace MessageLedger

/-- Nothing received yet. -/
def empty : MessageLedger := ⟨[], [], [], []⟩

/-- One event in the account, with the proposer before it: a message received,
    or the entries of the rounds a report names. -/
def record (p : Proposer) (l : MessageLedger) : ProposerEvent → MessageLedger
  | .ourDigest digest => { l with receivedDigests := l.receivedDigests ++ [digest] }
  | .systemMessage m => { l with receivedSystemMessages := l.receivedSystemMessages ++ [m] }
  | .committedOwnHeaders rounds =>
    { l with
      committedDigests :=
        l.committedDigests ++ (p.proposedHeaders.filter (·.1 ∈ rounds)).flatMap (·.2.digests)
      committedSystemMessages :=
        l.committedSystemMessages ++ (p.proposedHeaders.filter (·.1 ∈ rounds)).flatMap (·.2.systemMessages) }
  | _ => l

end MessageLedger

namespace ProposerWorld

variable (cfg : ProposerConfig)

/-- A sequence of events, with the account kept beside the world. -/
def runLedger (w : ProposerWorld) (l : MessageLedger) (events : List ProposerEvent) :
    Except Halt (ProposerWorld × MessageLedger) :=
  events.foldlM (fun wl e => (·, wl.2.record wl.1.proposer e) <$> wl.1.step cfg e) (w, l)

variable {cfg}

/-- The ledger runs the proposer as `run` does. -/
theorem runLedger_of_run : ∀ (events : List ProposerEvent) {w w' : ProposerWorld} (l : MessageLedger),
    w.run cfg events = .ok w' → ∃ l', w.runLedger cfg l events = .ok (w', l')
  | [], w, w', l, h => by
    rw [run, List.foldlM_nil, Except.pure_eq_ok] at h
    exact ⟨l, by rw [h]; rfl⟩
  | e :: events, w, w', l, h => by
    rw [run, List.foldlM_cons] at h
    obtain ⟨w₁, h₁, hrest⟩ := Except.bind_eq_ok.mp h
    obtain ⟨l', hl'⟩ := runLedger_of_run events (l.record w.proposer e) hrest
    refine ⟨l', ?_⟩
    rw [runLedger, List.foldlM_cons, h₁]
    exact hl'

/-! ## The account of the messages -/

/-- **Every message received is in one place**: waiting in its queue, held in
    `proposed_headers` under the round of the own header that carries it, or
    taken by a report of committed own headers; the held entries are in order
    of round. -/
structure MessagesAccounted (w : ProposerWorld) (l : MessageLedger) : Prop where
  digests : l.receivedDigests.Perm
    (w.proposer.digests ++ w.proposer.proposedHeaders.flatMap (·.2.digests) ++ l.committedDigests)
  systemMessages : l.receivedSystemMessages.Perm
    (w.proposer.systemMessages ++ w.proposer.proposedHeaders.flatMap (·.2.systemMessages) ++
      l.committedSystemMessages)
  sorted : w.proposer.proposedHeaders.Pairwise (·.1 < ·.1)
  carried : ∀ e ∈ w.proposer.proposedHeaders, e.2.header.round = e.1 ∧ e.2.header.payload = e.2.digests

/-- What each event keeps besides: no held header is above the round. -/
structure LedgerInv (w : ProposerWorld) (l : MessageLedger) : Prop extends MessagesAccounted w l where
  below : ∀ e ∈ w.proposer.proposedHeaders, e.1 ≤ w.proposer.round

variable {w w' : ProposerWorld} {l : MessageLedger}

/-- A message received goes to the back of its queue. -/
theorem perm_receive {received queue held committed : List Nat} (x : Nat)
    (h : received.Perm (queue ++ held ++ committed)) :
    (received ++ [x]).Perm (queue ++ [x] ++ held ++ committed) :=
  (h.append_right [x]).trans (List.perm_iff_count.mpr fun a => by simp only [List.count_append]; omega)

namespace LedgerInv

/-- A change that leaves the queues and `proposed_headers` alone, and does not
    lower the round, keeps the account. -/
theorem frame (hI : LedgerInv w l) (hdigests : w'.proposer.digests = w.proposer.digests)
    (hsystem : w'.proposer.systemMessages = w.proposer.systemMessages)
    (hheaders : w'.proposer.proposedHeaders = w.proposer.proposedHeaders)
    (hround : w.proposer.round ≤ w'.proposer.round) : LedgerInv w' l := by
  refine ⟨⟨?_, ?_, ?_, ?_⟩, ?_⟩ <;> rw [hheaders]
  · rw [hdigests]
    exact hI.digests
  · rw [hsystem]
    exact hI.systemMessages
  · exact hI.sorted
  · exact hI.carried
  · exact fun e he => Nat.le_trans (hI.below e he) hround

/-- The world starts with nothing received. -/
theorem init : LedgerInv (init cfg) MessageLedger.empty :=
  ⟨⟨List.Perm.nil, List.Perm.nil, List.Pairwise.nil, fun _ h => (nomatch h)⟩, fun _ h => (nomatch h)⟩

/-- **A report of committed own headers** moves the entries of the rounds it
    names to the account, and those left at or below the highest of them back
    to the front of the queues. -/
theorem committedOwnHeaders (hI : LedgerInv w l) (rounds : List Nat) :
    LedgerInv { w with proposer := w.proposer.committedOwnHeaders rounds }
      (l.record w.proposer (.committedOwnHeaders rounds)) := by
  have hsplit := perm_filter_three (fun e : Nat × ProposedHeader => decide (e.1 ∈ rounds))
    (fun e => decide (e.1 ≤ rounds.foldl max 0)) w.proposer.proposedHeaders
  -- the three parts of `proposed_headers`, as the branch names them
  have hC : w.proposer.proposedHeaders.filter (fun e => decide (e.1 ∈ rounds)) =
      w.proposer.proposedHeaders.filter (·.1 ∈ rounds) := rfl
  have hR : w.proposer.proposedHeaders.filter (fun e => decide (e.1 ≤ rounds.foldl max 0) && !decide (e.1 ∈ rounds)) =
      w.proposer.proposedHeaders.filter fun e => e.1 ∉ rounds ∧ e.1 ≤ rounds.foldl max 0 := by
    congr 1
    funext e
    simp [Bool.and_comm]
  have hS : w.proposer.proposedHeaders.filter (fun e => !decide (e.1 ≤ rounds.foldl max 0) && !decide (e.1 ∈ rounds)) =
      w.proposer.proposedHeaders.filter fun e => e.1 ∉ rounds ∧ rounds.foldl max 0 < e.1 := by
    congr 1
    funext e
    by_cases hm : e.1 ≤ rounds.foldl max 0
    · simp [hm]
    · simp [hm, Nat.lt_of_not_le hm]
  rw [hC, hR, hS] at hsplit
  have hdigests := hsplit.flatMap_right (·.2.digests)
  have hsystem := hsplit.flatMap_right (·.2.systemMessages)
  simp only [List.flatMap_append] at hdigests hsystem
  have hsub : ∀ e ∈ w.proposer.proposedHeaders.filter fun e => e.1 ∉ rounds ∧ rounds.foldl max 0 < e.1,
      e ∈ w.proposer.proposedHeaders := fun e he => List.mem_of_mem_filter he
  refine ⟨⟨?_, ?_, ?_, ?_⟩, ?_⟩ <;> simp only [Proposer.committedOwnHeaders_eq rounds hI.sorted]
  · refine hI.digests.trans ?_
    refine List.perm_iff_count.mpr fun a => ?_
    have hc := hdigests.count_eq a
    simp only [MessageLedger.record, List.count_append] at hc ⊢
    omega
  · refine hI.systemMessages.trans ?_
    refine List.perm_iff_count.mpr fun a => ?_
    have hc := hsystem.count_eq a
    simp only [MessageLedger.record, List.count_append] at hc ⊢
    omega
  · exact hI.sorted.filter _
  · exact fun e he => hI.carried e (hsub e he)
  · exact fun e he => hI.below e (hsub e he)

/-- **An input of the loop keeps the account**, with the message received or
    the report recorded; a restart is left out. -/
theorem handle (hI : LedgerInv w l) {e : ProposerEvent} (hr : e.isRestart = false)
    (h : w.handle cfg e = .ok w') : LedgerInv w' (l.record w.proposer e) := by
  cases e with
  | parents certs round =>
    obtain ⟨p, rfl, hround, hdigests, hsystem, hheaders, -⟩ := receiveParents_eq h
    exact hI.frame hdigests hsystem hheaders hround
  | ourDigest digest =>
    simp only [ProposerWorld.handle, Except.pure_eq_ok] at h
    subst h
    exact ⟨⟨perm_receive digest hI.digests, hI.systemMessages, hI.sorted, hI.carried⟩, hI.below⟩
  | systemMessage m =>
    simp only [ProposerWorld.handle, Except.pure_eq_ok] at h
    subst h
    exact ⟨⟨hI.digests, perm_receive m hI.systemMessages, hI.sorted, hI.carried⟩, hI.below⟩
  | committedOwnHeaders rounds =>
    simp only [ProposerWorld.handle, Except.pure_eq_ok] at h
    subst h
    exact hI.committedOwnHeaders rounds
  | headerRepeatTimer =>
    simp only [ProposerWorld.handle] at h
    split at h <;>
    · rw [Except.pure_eq_ok] at h
      subst h
      exact hI.frame rfl rfl rfl (Nat.le_refl _)
  | restart => cases hr
  | maxDelayTimer | minDelayTimer | elapse | swapTable =>
    simp only [ProposerWorld.handle, Except.pure_eq_ok] at h
    subst h
    exact hI.frame rfl rfl rfl (Nat.le_refl _)

/-- **The top of the loop keeps the account.** A new header takes the first
    digests of the queue, and all the system messages, into an entry of a
    round above all those held; a reused one moves nothing. -/
theorem tryPropose (hI : LedgerInv w l) (h : w.tryPropose cfg = .ok w') : LedgerInv w' l := by
  rcases tryPropose_eq h with rfl | ⟨header, fresh, p, clock, hcreate, rfl⟩
  · exact hI
  rcases Proposer.createNewHeader_cases hcreate with ⟨-, -, rfl⟩ | ⟨-, hnew⟩
  · -- the stored header is sent again, from the next round
    exact hI.frame rfl rfl rfl (Nat.le_succ _)
  obtain ⟨hround, hpayload, -, rfl⟩ := Proposer.newHeader_eq hnew
  -- the new entry goes last: every round held is below the new one
  have hlast := @Proposer.insertProposed_of_lt (w.proposer.round + 1)
    ⟨header, w.proposer.digests.take (min w.proposer.digests.length cfg.maxHeaderNumOfBatches),
      w.proposer.systemMessages⟩ w.proposer.proposedHeaders fun e he => Nat.lt_succ_of_le (hI.below e he)
  have htake := List.take_append_drop (min w.proposer.digests.length cfg.maxHeaderNumOfBatches) w.proposer.digests
  refine ⟨⟨?_, ?_, ?_, ?_⟩, ?_⟩ <;> simp only [hlast]
  · refine hI.digests.trans (List.perm_iff_count.mpr fun a => ?_)
    have hc := congrArg (List.count a) htake
    simp only [List.flatMap_append, List.flatMap_singleton, List.count_append] at hc ⊢
    omega
  · refine hI.systemMessages.trans (List.perm_iff_count.mpr fun a => ?_)
    simp only [List.flatMap_append, List.flatMap_singleton, List.count_append, List.count_nil]
    omega
  · refine List.pairwise_append.mpr ⟨hI.sorted, List.pairwise_singleton _ _, fun e he e' he' => ?_⟩
    rw [List.mem_singleton.mp he']
    exact Nat.lt_succ_of_le (hI.below e he)
  · intro e he
    rcases List.mem_append.mp he with he | he
    · exact hI.carried e he
    · rw [List.mem_singleton.mp he]
      exact ⟨hround, hpayload⟩
  · intro e he
    rcases List.mem_append.mp he with he | he
    · exact Nat.le_succ_of_le (hI.below e he)
    · rw [List.mem_singleton.mp he]

/-- One event, then the check at the top of the loop. -/
theorem step (hI : LedgerInv w l) {e : ProposerEvent} (hr : e.isRestart = false)
    (h : w.step cfg e = .ok w') : LedgerInv w' (l.record w.proposer e) := by
  obtain ⟨w₁, h₁, h₂⟩ := Except.bind_eq_ok.mp h
  exact (hI.handle hr h₁).tryPropose h₂

end LedgerInv

/-! ## The digests of a header -/

/-- Every header sent, stored or latest holds at most
    `max_header_num_of_batches` digests. -/
structure WithinLimit (cfg : ProposerConfig) (w : ProposerWorld) : Prop where
  sent : ∀ header ∈ sentHeaders w.log, header.payload.length ≤ cfg.maxHeaderNumOfBatches
  stored : ∀ header, w.lastProposed = some header → header.payload.length ≤ cfg.maxHeaderNumOfBatches
  latest : ∀ header, w.proposer.optLatestHeader = some header →
    header.payload.length ≤ cfg.maxHeaderNumOfBatches

namespace WithinLimit

/-- A change that sends nothing and leaves the stored and latest headers keeps
    the bound. -/
theorem frame (hI : WithinLimit cfg w) (hlog : w'.log = w.log) (hstored : w'.lastProposed = w.lastProposed)
    (hlatest : w'.proposer.optLatestHeader = w.proposer.optLatestHeader) : WithinLimit cfg w' :=
  ⟨hlog ▸ hI.sent, hstored ▸ hI.stored, hlatest ▸ hI.latest⟩

/-- A header sent goes to the end of the log. -/
theorem send {log : List ProposerOutput} {o : ProposerOutput}
    (hsent : ∀ h ∈ sentHeaders log, h.payload.length ≤ cfg.maxHeaderNumOfBatches)
    (ho : ∀ h, o.header? = some h → h.payload.length ≤ cfg.maxHeaderNumOfBatches) :
    ∀ h ∈ sentHeaders (log ++ [o]), h.payload.length ≤ cfg.maxHeaderNumOfBatches := by
  intro h hh
  rw [sentHeaders, List.filterMap_append, List.mem_append] at hh
  rcases hh with hh | hh
  · exact hsent h hh
  · rw [List.mem_filterMap] at hh
    obtain ⟨o', ho', hsome⟩ := hh
    rw [List.mem_singleton.mp ho'] at hsome
    exact ho h hsome

theorem init : WithinLimit cfg (init cfg) := ⟨fun _ h => (nomatch h), fun _ h => (nomatch h), fun _ h => (nomatch h)⟩

/-- An input of the loop sends at most the latest header again. -/
theorem handle (hI : WithinLimit cfg w) {e : ProposerEvent} (h : w.handle cfg e = .ok w') :
    WithinLimit cfg w' := by
  cases e with
  | parents certs round =>
    obtain ⟨p, rfl, -, -, -, -, hlatest⟩ := receiveParents_eq h
    exact hI.frame rfl rfl hlatest
  | headerRepeatTimer =>
    simp only [ProposerWorld.handle] at h
    split at h
    case h_1 header hlatest =>
      rw [Except.pure_eq_ok] at h
      subst h
      exact ⟨send hI.sent fun h hh => hI.latest h (by cases hh; exact hlatest), hI.stored, hI.latest⟩
    case h_2 =>
      rw [Except.pure_eq_ok] at h
      subst h
      exact hI.frame rfl rfl rfl
  | restart =>
    simp only [ProposerWorld.handle, Except.pure_eq_ok] at h
    subst h
    exact ⟨send hI.sent fun _ hh => (by cases hh), hI.stored, fun _ hh => (by cases hh)⟩
  | committedOwnHeaders rounds =>
    simp only [ProposerWorld.handle, Except.pure_eq_ok] at h
    subst h
    exact hI.frame rfl rfl (Proposer.committedOwnHeaders_optLatestHeader rounds w.proposer)
  | ourDigest | systemMessage | maxDelayTimer | minDelayTimer | elapse | swapTable =>
    simp only [ProposerWorld.handle, Except.pure_eq_ok] at h
    subst h
    exact hI.frame rfl rfl rfl

/-- The top of the loop sends the stored header or a new one, which takes at
    most `max_header_num_of_batches` digests. -/
theorem tryPropose (hI : WithinLimit cfg w) (h : w.tryPropose cfg = .ok w') : WithinLimit cfg w' := by
  rcases tryPropose_eq h with rfl | ⟨header, fresh, p, clock, hcreate, rfl⟩
  · exact hI
  have hheader : header.payload.length ≤ cfg.maxHeaderNumOfBatches := by
    rcases Proposer.createNewHeader_cases hcreate with ⟨hstore, -, -⟩ | ⟨-, hnew⟩
    · exact hI.stored header hstore
    · obtain ⟨-, hpayload, -⟩ := Proposer.newHeader_eq hnew
      rw [hpayload, List.length_take]
      omega
  refine ⟨send hI.sent fun h hh => ?_, fun h hh => ?_, fun h hh => ?_⟩
  · cases fresh <;>
    · cases hh
      exact hheader
  · cases hh
    exact hheader
  · cases hh
    exact hheader

theorem step (hI : WithinLimit cfg w) {e : ProposerEvent} (h : w.step cfg e = .ok w') : WithinLimit cfg w' := by
  obtain ⟨w₁, h₁, h₂⟩ := Except.bind_eq_ok.mp h
  exact (hI.handle h₁).tryPropose h₂

end WithinLimit

/-- **No header sent holds more than `max_header_num_of_batches` digests**,
    over every run, restarts included. -/
theorem sentHeaders_within_limit (events : List ProposerEvent) {w₀ w : ProposerWorld}
    (h₀ : start cfg = .ok w₀) (hrun : w₀.run cfg events = .ok w) :
    ∀ header ∈ sentHeaders w.log, header.payload.length ≤ cfg.maxHeaderNumOfBatches :=
  (foldlM_ok_inv (WithinLimit cfg) (step cfg) events w₀ w (WithinLimit.init.tryPropose h₀)
    (fun _ _ _ _ hI hstep => hI.step hstep) hrun).sent

/-- **The proposer conserves the batch digests and system messages** over
    every run without restarts from its first start: each message received is
    waiting in its queue, held in `proposed_headers` under the round of the
    own header that carries it, or taken by a report of committed own
    headers. At every point, a report gives the messages of the uncommitted
    headers at or below the highest round it names back to the front of the
    queues, in order of round; and no header sent holds more than
    `max_header_num_of_batches` digests. -/
theorem proposer_conserves_messages (events : List ProposerEvent) (hnorestart : ∀ e ∈ events, e.isRestart = false)
    {w₀ w : ProposerWorld} (h₀ : start cfg = .ok w₀) (hrun : w₀.run cfg events = .ok w) :
    ∃ l, w₀.runLedger cfg MessageLedger.empty events = .ok (w, l) ∧ MessagesAccounted w l ∧
      (∀ rounds : List Nat,
        (w.proposer.committedOwnHeaders rounds).digests =
          (w.proposer.proposedHeaders.filter fun e => e.1 ∉ rounds ∧ e.1 ≤ rounds.foldl max 0).flatMap
            (·.2.digests) ++ w.proposer.digests ∧
        (w.proposer.committedOwnHeaders rounds).systemMessages =
          (w.proposer.proposedHeaders.filter fun e => e.1 ∉ rounds ∧ e.1 ≤ rounds.foldl max 0).flatMap
            (·.2.systemMessages) ++ w.proposer.systemMessages) ∧
      ∀ header ∈ sentHeaders w.log, header.payload.length ≤ cfg.maxHeaderNumOfBatches := by
  obtain ⟨l, hl⟩ := runLedger_of_run events MessageLedger.empty hrun
  -- the account is kept by every event of the run
  have hI : LedgerInv w l :=
    (foldlM_ok_inv (fun wl => LedgerInv wl.1 wl.2) _ events (w₀, MessageLedger.empty) (w, l)
      (LedgerInv.init.tryPropose h₀)
      (fun e he wl wl' hI hstep => by
        obtain ⟨w₁, h₁, rfl⟩ := Except.map_eq_ok.mp hstep
        exact hI.step (hnorestart e he) h₁) hl)
  refine ⟨l, hl, hI.toMessagesAccounted, fun rounds => ?_, sentHeaders_within_limit events h₀ hrun⟩
  rw [Proposer.committedOwnHeaders_eq rounds hI.sorted]
  exact ⟨rfl, rfl⟩

/-- A proposer alone in its committee, with a batch threshold of one digest. -/
def soloProposer : ProposerConfig :=
  ⟨0, ⟨0, [1]⟩, 1, 10, 2000, 500, [⟨0, 0, 0, [], 0, 100⟩], true, ⟨fun _ l => l.head?.map (·.1), fun _ _ => 0⟩⟩

/-- Digest 7 goes into the header of round 1 and digest 8 into that of round 2;
    consensus reports round 2 committed. -/
def resendEvents : List ProposerEvent :=
  [.ourDigest 7, .parents [⟨1, 0, 0, [100], 0, 101⟩] 1, .ourDigest 8, .committedOwnHeaders [2]]

def soloStarted : ProposerWorld := ((start soloProposer).toOption).getD (init soloProposer)

def soloResent : ProposerWorld := ((soloStarted.run soloProposer resendEvents).toOption).getD soloStarted

theorem proposer_conserves_messages_solo :
    (∀ e ∈ resendEvents, e.isRestart = false) ∧ start soloProposer = .ok soloStarted ∧
      soloStarted.run soloProposer resendEvents = .ok soloResent ∧
      ∃ l, soloStarted.runLedger soloProposer MessageLedger.empty resendEvents = .ok (soloResent, l) ∧
        MessagesAccounted soloResent l ∧
        (∀ rounds : List Nat,
          (soloResent.proposer.committedOwnHeaders rounds).digests =
            (soloResent.proposer.proposedHeaders.filter fun e => e.1 ∉ rounds ∧ e.1 ≤ rounds.foldl max 0).flatMap
              (·.2.digests) ++ soloResent.proposer.digests ∧
          (soloResent.proposer.committedOwnHeaders rounds).systemMessages =
            (soloResent.proposer.proposedHeaders.filter fun e => e.1 ∉ rounds ∧ e.1 ≤ rounds.foldl max 0).flatMap
              (·.2.systemMessages) ++ soloResent.proposer.systemMessages) ∧
        ∀ header ∈ sentHeaders soloResent.log, header.payload.length ≤ soloProposer.maxHeaderNumOfBatches :=
  ⟨by decide, rfl, rfl, proposer_conserves_messages resendEvents (by decide) rfl rfl⟩

/-- The round-1 header was not committed, and is below the round committed:
    its digest waits in the queue again. -/
example : soloResent.proposer.digests = [7] ∧ soloResent.proposer.proposedHeaders = [] := ⟨rfl, rfl⟩

end ProposerWorld

end Mango.Narwhal
