/-
  Mango.Narwhal.Consensus.Recovery

  Crash recovery of the consensus task. A node that restarts runs
  `Consensus::spawn` again over what its stores hold
  (`narwhal/primary/src/consensus/state.rs`): `LeaderSchedule::from_store`
  restores the swap table from the latest commit whose scores are final, the
  largest recovered `last_committed` round becomes the committed round, and
  `ConsensusState::new_from_store` rebuilds the DAG from the certificate store
  and the last sub-dag from its persisted commit.

  `Recoverable` says what each part of the task owes to the stores: the DAG is
  the received certificates above the GC round, each of which passed
  `check_parents`; the persisted `last_committed` table is the one in memory and
  yields the committed round; the latest persisted commit is the last sub-dag,
  whose leader is at the committed round; the swap table is the one of the
  latest final commit. A fresh node is recoverable, every successful
  `process_certificate` keeps it so, and `spawn` over the stores of a
  recoverable task gives the task itself back. So a node that restarts after
  any run sends, for every continuation, exactly what it would have sent.
-/
import Mango.Narwhal.Consensus.Run

namespace Mango.Narwhal

open Mango.Lib

/-- What the task `⟨b, s⟩` owes to its stores after receiving `fed`: enough for
    `spawn` to rebuild it from the consensus store and a certificate store that
    holds `fed`. -/
structure Recoverable (cfg : BullsharkConfig) (gcDepth : Nat) (fed : List Certificate)
    (b : Bullshark) (s : ConsensusState) : Prop where
  coherent : s.Coherent
  gcDepth_eq : s.gcDepth = gcDepth
  /-- The DAG holds received certificates, and every received certificate above
      the GC round. -/
  dag_fed : ∀ r a e, s.dag r a = some e → e ∈ fed
  fed_dag : ∀ x ∈ fed, s.lastRound.gcRound < x.round → s.dag x.round x.origin = some x
  /-- What the rebuild checks again of every certificate it inserts. -/
  parents : ∀ r a e, s.dag r a = some e →
    ConsensusState.checkParents cfg.committee.authorities e s.dag s.lastRound.gcRound = .ok ()
  lastCommitted_store : b.store.lastCommitted = s.lastCommitted
  lastCommitted_mem : ∀ a r, s.lastCommitted a = some r → a ∈ cfg.committee.authorities
  committedRound_eq : s.lastRound.committedRound =
    Consensus.lastCommittedRound cfg.committee.authorities s.lastCommitted
  latest : b.store.getLatestSubDag = s.lastCommittedSubDag.map ConsensusCommit.fromSubDag
  indices : ∀ d ∈ b.store.committedSubDags, d.subDagIndex < s.nextSubDagIndex
  lastSubDag : ∀ sd, s.lastCommittedSubDag = some sd →
    sd.leader.round = s.lastRound.committedRound ∧ sd.leader ∈ fed ∧ ∀ x ∈ sd.certificates, x ∈ fed
  schedule : LeaderSchedule.fromStore cfg.committee b.store cfg.badNodesStakeThreshold =
    .ok b.leaderSwapTable

namespace Recoverable

variable {cfg : BullsharkConfig} {gcDepth : Nat} {fed : List Certificate} {b : Bullshark}
  {s : ConsensusState}

/-! ## A fresh node, and what a run does -/

/-- A fresh node, with empty stores, has received nothing. -/
theorem init (cfg : BullsharkConfig) (gcDepth : Nat) :
    Recoverable cfg gcDepth [] ⟨LeaderSwapTable.default, ConsensusStore.empty⟩
      (ConsensusState.new gcDepth) where
  coherent := ConsensusState.coherent_new gcDepth
  gcDepth_eq := rfl
  dag_fed _ _ _ h := by cases h
  fed_dag _ h := by cases h
  parents _ _ _ h := by cases h
  lastCommitted_store := rfl
  lastCommitted_mem _ _ h := by cases h
  committedRound_eq := by simp [Consensus.lastCommittedRound, ConsensusState.new]
  latest := rfl
  indices _ h := by cases h
  lastSubDag _ h := by cases h
  schedule := rfl

/-- Inserting a received certificate keeps the task recoverable, when digests
    tell the received certificates apart. -/
theorem tryInsert {y : Certificate} {inserted : Bool} {s₁ : ConsensusState}
    (hI : Recoverable cfg gcDepth fed b s)
    (hinj : ∀ x ∈ fed ++ [y], ∀ z ∈ fed ++ [y], x.digest = z.digest → x = z)
    (h : s.tryInsert cfg.committee.authorities y = .ok (inserted, s₁)) :
    Recoverable cfg gcDepth (fed ++ [y]) b s₁ := by
  have hs₁ := hI.coherent.tryInsert h
  have hmono : ∀ x ∈ fed, x ∈ fed ++ [y] := fun x hx => List.mem_append_left _ hx
  have hy : y ∈ fed ++ [y] := List.mem_append_right _ (List.mem_singleton_self y)
  obtain ⟨dag', hins, rfl⟩ := ConsensusState.tryInsert_ok h
  rcases ConsensusState.tryInsertInDag_cases hins with ⟨hle, -, rfl⟩ | ⟨hgt, hcheck, hslot, -, rfl⟩
  · -- A certificate at or below the GC round is dropped.
    refine { hI with
      coherent := hs₁
      dag_fed := fun r a e he => hmono e (hI.dag_fed r a e he)
      fed_dag := fun x hx hgc => ?_
      lastSubDag := fun sd hsd => ?_ }
    · rcases List.mem_append.mp hx with hx | hx
      · exact hI.fed_dag x hx hgc
      · rw [List.mem_singleton.mp hx] at hgc
        exact absurd hgc (Nat.not_lt.mpr hle)
    · obtain ⟨hround, hL, hcerts⟩ := hI.lastSubDag sd hsd
      exact ⟨hround, hmono _ hL, fun x hx => hmono x (hcerts x hx)⟩
  -- Otherwise `y` is stored, and each slot keeps a certificate with its digest.
  have hkeep : ∀ r a e, s.dag r a = some e →
      ∃ e', (s.dag.insert y) r a = some e' ∧ e'.digest = e.digest := by
    intro r a e he
    simp only [Dag.insert_apply]
    split
    · rename_i hk
      obtain ⟨rfl, rfl⟩ := hk
      exact ⟨y, rfl, (hslot e he).symm⟩
    · exact ⟨e, he, rfl⟩
  refine { hI with
    coherent := hs₁
    dag_fed := fun r a e he => ?_
    fed_dag := fun x hx hgc => ?_
    parents := fun r a e he => ?_
    lastSubDag := fun sd hsd => ?_ }
  · simp only [Dag.insert_apply] at he
    split at he
    · cases he
      exact hy
    · exact hmono e (hI.dag_fed r a e he)
  · show (s.dag.insert y) x.round x.origin = some x
    rcases List.mem_append.mp hx with hx' | hx'
    · have hxdag := hI.fed_dag x hx' hgc
      simp only [Dag.insert_apply]
      split
      · -- `y` took the slot of `x`, so it has its digest and is `x`.
        rename_i hk
        rw [hk.1, hk.2] at hxdag
        exact congrArg some (hinj y hy x (hmono x hx') (hslot x hxdag).symm)
      · exact hxdag
    · rw [List.mem_singleton.mp hx']
      simp
  · show ConsensusState.checkParents _ e (s.dag.insert y) s.lastRound.gcRound = .ok ()
    have hold : ConsensusState.checkParents cfg.committee.authorities e s.dag s.lastRound.gcRound =
        .ok () := by
      simp only [Dag.insert_apply] at he
      split at he
      · cases he
        exact hcheck
      · exact hI.parents r a e he
    exact ConsensusState.checkParents_mono hold (Nat.le_refl _) fun _ a e' he' =>
      hkeep _ a e' he'
  · obtain ⟨hround, hL, hcerts⟩ := hI.lastSubDag sd hsd
    exact ⟨hround, hmono _ hL, fun x hx => hmono x (hcerts x hx)⟩

/-- **A commit step keeps the task recoverable**: what it commits, persists and
    installs is what the stores now say. -/
theorem step {b' : Bullshark} {s' : ConsensusState} {sd : CommittedSubDag}
    (hI : Recoverable cfg gcDepth fed b s)
    (hauth : ∀ x ∈ fed, x.origin ∈ cfg.committee.authorities)
    (h : Bullshark.CommitStep cfg b s sd b' s') : Recoverable cfg gcDepth fed b' s' := by
  have hs := hI.coherent
  have hs' := h.coherent hs
  have hround : s'.lastRound.committedRound = sd.leader.round := h.committedRound hs
  have habove := h.leader_above
  have hLfed : sd.leader ∈ fed := hI.dag_fed _ _ _ h.leader_mem
  have hgc : s.lastRound.gcRound ≤ s'.lastRound.gcRound := by
    rw [hs.gcRound_eq, hs'.gcRound_eq, hround, h.gcDepth]
    omega
  -- The committed certificates were received, and are at most at the leader's round.
  have hcerts : ∀ x ∈ sd.certificates, x ∈ fed ∧ x.round ≤ sd.leader.round := by
    intro x hx
    by_cases hxL : x = sd.leader
    · subst hxL
      exact ⟨hLfed, Nat.le_refl _⟩
    · obtain ⟨-, hdag, hlt, -⟩ := (h.mem hs).2 x hx hxL
      exact ⟨hI.dag_fed _ _ _ hdag, Nat.le_of_lt hlt⟩
  -- A new last committed round is an old one or the round of a committed certificate.
  have hsource : ∀ a r, r ∈ (s.lastCommitted a).toList ++
      (sd.certificates.filter (·.origin = a)).map (·.round) →
      s.lastCommitted a = some r ∨ ∃ x ∈ sd.certificates, x.origin = a ∧ x.round = r := by
    intro a r hr
    rcases List.mem_append.mp hr with hr | hr
    · exact .inl (Option.mem_toList.mp hr)
    · obtain ⟨x, hx, rfl⟩ := List.mem_map.mp hr
      obtain ⟨hx, hxa⟩ := List.mem_filter.mp hx
      exact .inr ⟨x, hx, by simpa using hxa, rfl⟩
  have hbound : ∀ a r, r ∈ (s.lastCommitted a).toList ++
      (sd.certificates.filter (·.origin = a)).map (·.round) → r ≤ sd.leader.round := by
    intro a r hr
    rcases hsource a r hr with hr | ⟨x, hx, -, rfl⟩
    · have hle := Consensus.le_lastCommittedRound (hI.lastCommitted_mem a r hr) hr
      rw [← hI.committedRound_eq] at hle
      omega
    · exact (hcerts x hx).2
  -- The step writes its commit after every stored one, and the schedule follows it.
  obtain ⟨changed, hsched⟩ := h.schedule
  obtain ⟨hstore, htable⟩ := Bullshark.updateLeaderSchedule_ok hsched
  have hidx : ∀ d ∈ b.store.committedSubDags, d.subDagIndex < sd.subDagIndex := by
    rw [h.subDagIndex]
    exact hI.indices
  refine
    { coherent := hs'
      gcDepth_eq := h.gcDepth.trans hI.gcDepth_eq
      dag_fed := fun r a e he => ?_
      fed_dag := fun x hx hgcx => ?_
      parents := fun r a e he => ?_
      lastCommitted_store := ?_
      lastCommitted_mem := fun a r hr => ?_
      committedRound_eq := ?_
      latest := ?_
      indices := fun d hd => ?_
      lastSubDag := fun sd' hsd' => ?_
      schedule := ?_ }
  · rw [h.dag hs] at he
    split at he
    · exact hI.dag_fed r a e he
    · cases he
  · rw [h.dag hs, if_pos hgcx]
    exact hI.fed_dag x hx (by omega)
  · rw [h.dag hs] at he
    split at he
    · rename_i hr
      have hre := (hs.keys r a e he).1
      -- The round below a certificate kept above the new GC round is kept whole.
      refine ConsensusState.checkParents_mono (hI.parents r a e he) hgc fun hlt a' e' he' => ?_
      refine ⟨e', ?_, rfl⟩
      rw [h.dag hs, if_pos (by omega)]
      exact he'
    · cases he
  · funext a
    rw [hstore, h.state_eq]
    show ((sd.certificates.foldl ConsensusState.update s).lastCommitted a).or
      (b.store.lastCommitted a) = _
    rw [hI.lastCommitted_store, ConsensusState.foldl_update_lastCommitted_or]
  · rw [h.lastCommitted a] at hr
    rcases hsource a r (List.max?_mem hr) with hr | ⟨x, hx, rfl, -⟩
    · exact hI.lastCommitted_mem a r hr
    · exact hauth x (hcerts x hx).1
  · -- The leader's origin now has the leader's round, the largest of all.
    have hLmem : sd.leader.round ∈ (s.lastCommitted sd.leader.origin).toList ++
        (sd.certificates.filter (·.origin = sd.leader.origin)).map (·.round) :=
      List.mem_append_right _ (List.mem_map_of_mem (List.mem_filter.mpr ⟨(h.mem hs).1, by simp⟩))
    have hLlc : s'.lastCommitted sd.leader.origin = some sd.leader.round := by
      rw [h.lastCommitted]
      exact max?_eq_of_mem hLmem (hbound _)
    rw [hround, Consensus.lastCommittedRound_eq_of_mem _ (hauth _ hLfed) hLlc]
    intro a _ r hr
    rw [h.lastCommitted a] at hr
    exact hbound a r (List.max?_mem hr)
  · rw [hstore, ConsensusStore.getLatestSubDag_write hidx, h.lastCommittedSubDag]
    rfl
  · rw [hstore, ConsensusStore.committedSubDags_write hidx] at hd
    rw [h.nextSubDagIndex]
    rcases List.mem_append.mp hd with hd | hd
    · have hlt := hI.indices d hd
      have hsd := h.subDagIndex
      omega
    · rw [List.mem_singleton.mp hd]
      exact Nat.lt_succ_self _
  · rw [h.lastCommittedSubDag] at hsd'
    cases hsd'
    exact ⟨hround.symm, hLfed, fun x hx => (hcerts x hx).1⟩
  · -- `from_store` reads back the table of the latest final commit.
    rw [hstore]
    unfold LeaderSchedule.fromStore
    rw [ConsensusStore.readLatestCommitWithFinalReputationScores_write hidx]
    cases hfinal : sd.reputationScore.finalOfSchedule
    · rw [hfinal, if_neg Bool.false_ne_true] at htable
      rw [if_neg Bool.false_ne_true, htable]
      exact hI.schedule
    · rw [hfinal, if_pos rfl] at htable
      rw [if_pos rfl]
      exact htable

theorem chain {b' : Bullshark} {s' : ConsensusState} {sds : List CommittedSubDag}
    (hI : Recoverable cfg gcDepth fed b s)
    (hauth : ∀ x ∈ fed, x.origin ∈ cfg.committee.authorities)
    (h : Bullshark.CommitChain cfg b s sds b' s') : Recoverable cfg gcDepth fed b' s' := by
  induction h with
  | nil => exact hI
  | cons hstep _ ih => exact ih (hI.step hauth hstep)

/-- One successful `process_certificate` keeps the task recoverable. -/
theorem processCertificate {rng : LeaderRng} {c c' : Consensus} {y : Certificate} {o : Outcome}
    {sds : List CommittedSubDag} (hI : Recoverable cfg gcDepth fed c.protocol c.state)
    (hauth : ∀ x ∈ fed ++ [y], x.origin ∈ cfg.committee.authorities)
    (hinj : ∀ x ∈ fed ++ [y], ∀ z ∈ fed ++ [y], x.digest = z.digest → x = z)
    (h : Bullshark.processCertificate cfg rng c y = .ok (o, sds, c')) :
    Recoverable cfg gcDepth (fed ++ [y]) c'.protocol c'.state := by
  obtain ⟨inserted, s₁, hins, hchain⟩ := Bullshark.processCertificate_ok hI.coherent h
  exact (hI.tryInsert hinj hins).chain hauth hchain

/-! ## The rebuild -/

/-- **`spawn` over the stores rebuilds a recoverable task**, when the certificate
    store holds the received certificates and their digests tell them apart. -/
theorem spawn {c : Consensus} (hI : Recoverable cfg gcDepth fed c.protocol c.state)
    (hinj : ∀ x ∈ fed, ∀ y ∈ fed, x.digest = y.digest → x = y) {certStore : CertificateStore}
    (hstore : ∀ x, x ∈ certStore.written ↔ x ∈ fed) :
    Consensus.spawn cfg gcDepth c.protocol.store certStore = .ok c := by
  have hs := hI.coherent
  have hinj' : ∀ x ∈ certStore.written, ∀ y ∈ certStore.written, x.digest = y.digest → x = y :=
    fun x hx y hy => hinj x ((hstore x).mp hx) y ((hstore y).mp hy)
  have hread : ∀ x ∈ fed, certStore.read x.digest = some x := fun x hx =>
    CertificateStore.read_of_mem (fun y hy hd => hinj' y hy x ((hstore x).mpr hx) hd)
      ((hstore x).mpr hx)
  -- The committed round recovered from the store is the one in memory.
  have hround : Consensus.lastCommittedRound cfg.committee.authorities
      c.protocol.store.lastCommitted = c.state.lastRound.committedRound := by
    rw [hI.lastCommitted_store, hI.committedRound_eq]
  have hdag : ConsensusState.constructDagFromCertStore cfg.committee.authorities certStore
      c.state.lastCommitted c.state.lastRound.gcRound = .ok c.state.dag := by
    refine ConsensusState.constructDagFromCertStore_eq hinj' (fun r a e he => ?_)
      (fun x hx hgc => hI.fed_dag x ((hstore x).mp hx) hgc) hI.parents
    obtain ⟨hr, ha⟩ := hs.keys r a e he
    exact ⟨(hstore e).mpr (hI.dag_fed r a e he), hr, ha, hs.above_gc r a e he⟩
  have hstate : ConsensusState.newFromStore cfg.committee.authorities
      c.state.lastRound.committedRound gcDepth c.state.lastCommitted
      (c.state.lastCommittedSubDag.map ConsensusCommit.fromSubDag) certStore = .ok c.state := by
    rw [← hI.gcDepth_eq]
    refine ConsensusState.newFromStore_eq hs.lastRound_eq hdag fun sd hsd x hx => ?_
    obtain ⟨-, hL, hcerts⟩ := hI.lastSubDag sd hsd
    rcases List.mem_cons.mp hx with rfl | hx
    · exact hread _ hL
    · exact hread x (hcerts x hx)
  unfold Consensus.spawn
  rw [hI.schedule]
  dsimp only
  rw [hround, hI.latest, hI.lastCommitted_store, hstate]
  -- The assertion of `spawn` holds: the last sub-dag's leader is at the committed round.
  cases hl : c.state.lastCommittedSubDag with
  | none => rfl
  | some sd =>
    have hL := (hI.lastSubDag sd hl).1
    simp only [Option.map_some, ConsensusCommit.fromSubDag, hL, ne_eq, not_true_eq_false,
      if_false]
    rfl

end Recoverable

/-! ## Restarting after a run -/

/-- **Crash recovery.** A fresh node runs the consensus task over certificates that
    passed sanitization (the committee's epoch, an origin in the committee) and
    whose digests tell them apart. If it stops there and spawns again, over the
    consensus store the run left and a certificate store holding the certificates
    it received, it rebuilds a task that, on every continuation of the stream,
    sends exactly what the task that never stopped sends, and ends the same way. -/
theorem spawn_from_stores_resumes_run (cfg : BullsharkConfig) (rng : LeaderRng) (gcDepth : Nat)
    (c₀ : Consensus)
    (hfresh : Consensus.spawn cfg gcDepth ConsensusStore.empty CertificateStore.empty = .ok c₀)
    (fed : List Certificate)
    (hsan : ∀ x ∈ fed, x.epoch = cfg.committee.epoch ∧ x.origin ∈ cfg.committee.authorities)
    (hinj : ∀ x ∈ fed, ∀ y ∈ fed, x.digest = y.digest → x = y)
    (c : Consensus) (hrun : (Consensus.runInner cfg rng c₀ fed).2 = .ok c)
    (certStore : CertificateStore) (hstore : ∀ x, x ∈ certStore.written ↔ x ∈ fed) :
    ∃ c', Consensus.spawn cfg gcDepth c.protocol.store certStore = .ok c' ∧
      ∀ cont, Consensus.runInner cfg rng c' cont = Consensus.runInner cfg rng c cont := by
  -- A fresh node is the recoverable task of no certificates.
  have hI₀ := Recoverable.init cfg gcDepth
  have hc₀ : c₀ = ⟨⟨LeaderSwapTable.default, ConsensusStore.empty⟩, ConsensusState.new gcDepth⟩ := by
    have h := @Recoverable.spawn cfg gcDepth []
      ⟨⟨LeaderSwapTable.default, ConsensusStore.empty⟩, ConsensusState.new gcDepth⟩ hI₀
      (fun x hx => by cases hx) CertificateStore.empty (fun x => by simp [CertificateStore.empty])
    rw [hfresh] at h
    exact Except.ok.inj h
  subst hc₀
  -- Every certificate the run processes keeps it recoverable from what it received.
  have hstep : ∀ pre (outs : List CommittedSubDag) (c : Consensus) x o sds c', x ∈ fed →
      x.epoch = cfg.committee.epoch →
      ((∀ y ∈ pre, y ∈ fed) ∧ Recoverable cfg gcDepth pre c.protocol c.state) →
      Bullshark.processCertificate cfg rng c x = .ok (o, sds, c') →
      (∀ y ∈ pre ++ [x], y ∈ fed) ∧ Recoverable cfg gcDepth (pre ++ [x]) c'.protocol c'.state := by
    rintro pre - c x o sds c' hx - ⟨hpre, hI⟩ h
    have hsub : ∀ y ∈ pre ++ [x], y ∈ fed := by
      intro y hy
      rcases List.mem_append.mp hy with hy | hy
      · exact hpre y hy
      · exact List.mem_singleton.mp hy ▸ hx
    exact ⟨hsub, hI.processCertificate (fun y hy => (hsan y (hsub y hy)).2)
      (fun y hy z hz => hinj y (hsub y hy) z (hsub z hz)) h⟩
  obtain ⟨pre, c', ⟨-, hI⟩, hc'⟩ := @Consensus.runInner_induct cfg rng
    (fun pre _ c => (∀ y ∈ pre, y ∈ fed) ∧ Recoverable cfg gcDepth pre c.protocol c.state) fed
    (fun _ _ _ x hx hepoch _ => absurd (hsan x hx).1 hepoch) hstep
    [] [] ⟨⟨LeaderSwapTable.default, ConsensusStore.empty⟩, ConsensusState.new gcDepth⟩
    ⟨(fun y hy => by cases hy), hI₀⟩
  -- The run ended without a halt, so it received all of `fed`.
  obtain ⟨rfl, hpre⟩ := hc' c hrun
  rw [List.nil_append] at hpre
  subst hpre
  exact ⟨c, hI.spawn hinj hstore, fun _ => rfl⟩

/-- A restart after a run of one authority over its certificates of rounds 1 to 3,
    which commits the leader of round 2. -/
theorem spawn_from_stores_resumes_run_one_authority :
    ∃ c, (Consensus.runInner ⟨⟨0, [1]⟩, 33, 300⟩ ⟨fun _ l => l.head?.map (·.1), fun _ _ => 0⟩
        ⟨⟨LeaderSwapTable.default, ConsensusStore.empty⟩, ConsensusState.new 1⟩
        [⟨1, 0, 0, [], 10, 101⟩, ⟨2, 0, 0, [101], 20, 102⟩, ⟨3, 0, 0, [102], 30, 103⟩]).2 = .ok c ∧
      ∃ c', Consensus.spawn ⟨⟨0, [1]⟩, 33, 300⟩ 1 c.protocol.store
          ⟨[⟨1, 0, 0, [], 10, 101⟩, ⟨2, 0, 0, [101], 20, 102⟩, ⟨3, 0, 0, [102], 30, 103⟩]⟩ = .ok c' ∧
        ∀ cont, Consensus.runInner ⟨⟨0, [1]⟩, 33, 300⟩ ⟨fun _ l => l.head?.map (·.1), fun _ _ => 0⟩
          c' cont = Consensus.runInner ⟨⟨0, [1]⟩, 33, 300⟩
            ⟨fun _ l => l.head?.map (·.1), fun _ _ => 0⟩ c cont :=
  ⟨_, rfl, spawn_from_stores_resumes_run _ _ 1 _ rfl _ (by decide) (by decide) _ rfl ⟨_⟩
    fun _ => Iff.rfl⟩

end Mango.Narwhal
