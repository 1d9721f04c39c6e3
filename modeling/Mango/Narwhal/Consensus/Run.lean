/-
  Mango.Narwhal.Consensus.Run

  What the consensus task does over a whole run: the states `new_from_store`
  rebuilds, and when it rebuilds a given one exactly; and the induction
  principle of `run_inner`, which reduces a property of everything a run sends
  to one successful `process_certificate`.
-/
import Mango.Narwhal.Consensus.CommitStep
import Mango.Narwhal.Consensus.Task

namespace Mango.Narwhal

open Mango.Lib

/-! ## Rebuilt states -/

namespace ConsensusState

variable {authorities : List Nat} {certStore : CertificateStore}

/-- The DAG `construct_dag_from_cert_store` rebuilds holds stored certificates,
    each at its own round and origin, above the GC round. -/
theorem constructDagFromCertStore_ok {lastCommitted : Nat → Option Nat} {g : Nat} {dag : Dag}
    (h : constructDagFromCertStore authorities certStore lastCommitted g = .ok dag) :
    dag.KeysConsistent ∧ ∀ r a c, dag r a = some c → g < r ∧ c ∈ certStore.written := by
  obtain ⟨certificates, hafter, hfold⟩ := Except.bind_eq_ok.mp h
  have hmem := CertificateStore.afterRound_mem hafter
  refine foldlM_ok_inv
    (fun dag => dag.KeysConsistent ∧ ∀ r a c, dag r a = some c → g < r ∧ c ∈ certStore.written)
    _ certificates Dag.empty dag ⟨Dag.KeysConsistent.empty, fun r a c h => by simp at h⟩
    ?_ hfold
  intro x hx d d' ⟨hkeys, hall⟩ hstep
  obtain ⟨⟨inserted, d₁⟩, hins, hstep⟩ := Except.bind_eq_ok.mp hstep
  cases Except.pure_eq_ok.mp hstep
  rcases tryInsertInDag_cases hins with ⟨-, -, rfl⟩ | ⟨hgt, -, -, -, rfl⟩
  · exact ⟨hkeys, hall⟩
  refine ⟨hkeys.insert x, fun r a c hc => ?_⟩
  simp only [Dag.insert_apply] at hc
  split at hc
  · rename_i hk
    cases hc
    exact ⟨hk.1 ▸ hgt, hmem x hx⟩
  · exact hall r a c hc

/-- What `new_from_store` builds: the recovered rounds and last committed table,
    a DAG of stored certificates, and the last sub-dag of the persisted commit
    with its certificates read back. -/
theorem newFromStore_ok {lastCommittedRound gcDepth : Nat} {recovered : Nat → Option Nat}
    {latest : Option ConsensusCommit} {s : ConsensusState}
    (h : newFromStore authorities lastCommittedRound gcDepth recovered latest certStore = .ok s) :
    s.lastRound = ConsensusRound.newWithGcDepth lastCommittedRound gcDepth ∧
      s.gcDepth = gcDepth ∧ s.lastCommitted = recovered ∧
      constructDagFromCertStore authorities certStore recovered
        (gcRound lastCommittedRound gcDepth) = .ok s.dag ∧
      (match latest with
        | some commit => ∃ certificates leader,
            commit.certificates.mapM (readStored certStore) = .ok certificates ∧
            readStored certStore commit.leader = .ok leader ∧
            s.lastCommittedSubDag = some (CommittedSubDag.fromCommit commit certificates leader)
        | none => s.lastCommittedSubDag = none) := by
  obtain ⟨dag, hdag, h⟩ := Except.bind_eq_ok.mp h
  cases latest with
  | none =>
    obtain ⟨lastSubDag, hsub, h⟩ := Except.bind_eq_ok.mp h
    cases Except.pure_eq_ok.mp hsub
    cases Except.pure_eq_ok.mp h
    exact ⟨rfl, rfl, rfl, hdag, rfl⟩
  | some commit =>
    obtain ⟨certificates, hcerts, h⟩ := Except.bind_eq_ok.mp h
    obtain ⟨leader, hleader, h⟩ := Except.bind_eq_ok.mp h
    obtain ⟨lastSubDag, hsub, h⟩ := Except.bind_eq_ok.mp h
    cases Except.pure_eq_ok.mp hsub
    cases Except.pure_eq_ok.mp h
    exact ⟨rfl, rfl, rfl, hdag, certificates, leader, hcerts, hleader, rfl⟩

/-- A rebuilt state is coherent, and its DAG holds stored certificates. -/
theorem newFromStore_coherent {lastCommittedRound gcDepth : Nat} {recovered : Nat → Option Nat}
    {latest : Option ConsensusCommit} {s : ConsensusState}
    (h : newFromStore authorities lastCommittedRound gcDepth recovered latest certStore = .ok s) :
    s.Coherent ∧ ∀ r a c, s.dag r a = some c → c ∈ certStore.written := by
  obtain ⟨hround, hdepth, -, hdag, -⟩ := newFromStore_ok h
  obtain ⟨hkeys, hall⟩ := constructDagFromCertStore_ok hdag
  refine ⟨⟨?_, hkeys, fun r a c hc => ?_⟩, fun r a c hc => (hall r a c hc).2⟩
  · rw [hround, hdepth]
    rfl
  · rw [hround]
    exact (hall r a c hc).1

/-- **The DAG is rebuilt exactly.** Let digests tell the stored certificates apart,
    and let `dag` hold every stored certificate above `g` at its round and origin,
    nothing else, and only certificates that pass `check_parents` in it. Then
    `construct_dag_from_cert_store` rebuilds `dag`: it inserts the certificates in
    round order, so the round below each one is complete when it is checked. -/
theorem constructDagFromCertStore_eq {lastCommitted : Nat → Option Nat} {g : Nat} {dag : Dag}
    (hinj : ∀ x ∈ certStore.written, ∀ y ∈ certStore.written, x.digest = y.digest → x = y)
    (hsound : ∀ r a e, dag r a = some e →
      e ∈ certStore.written ∧ e.round = r ∧ e.origin = a ∧ g < r)
    (hcomplete : ∀ x ∈ certStore.written, g < x.round → dag x.round x.origin = some x)
    (hparents : ∀ r a e, dag r a = some e → checkParents authorities e dag g = .ok ()) :
    constructDagFromCertStore authorities certStore lastCommitted g = .ok dag := by
  obtain ⟨certs, hafter, hkeys, hmem⟩ := certStore.afterRound_ok hinj (g + 1)
  -- `after_round` returns the certificates of `dag`, in round order.
  have hcerts : ∀ x ∈ certs, dag x.round x.origin = some x := by
    intro x hx
    have hk : (x.round, x.origin) ∈ certStore.roundKeys.filter (g + 1 ≤ ·.1) :=
      hkeys ▸ List.mem_map_of_mem hx
    have hg : g + 1 ≤ x.round := by simpa using (List.mem_filter.mp hk).2
    exact hcomplete x (hmem x hx) hg
  have hcover : ∀ r a e, dag r a = some e → ∃ y ∈ certs, y.round = r ∧ y.origin = a := by
    intro r a e he
    obtain ⟨hw, rfl, rfl, hg⟩ := hsound r a e he
    have hk : (e.round, e.origin) ∈ certStore.roundKeys.filter (g + 1 ≤ ·.1) :=
      List.mem_filter.mpr ⟨CertificateStore.mem_roundKeys.mpr ⟨e, hw, rfl⟩,
        by simp only [decide_eq_true_eq]; omega⟩
    rw [← hkeys] at hk
    obtain ⟨y, hy, hyk⟩ := List.mem_map.mp hk
    simp only [Prod.mk.injEq] at hyk
    exact ⟨y, hy, hyk.1, hyk.2⟩
  have hsorted : certs.Pairwise fun x y => x.round ≤ y.round := by
    have h := (@CertificateStore.roundKeys_sorted certStore).filter (g + 1 ≤ ·.1)
    rwa [← hkeys, List.pairwise_map] at h
  refine Except.bind_eq_ok.mpr ⟨certs, hafter, ?_⟩
  -- The insertions rebuild `dag` key by key: what they have built is part of
  -- `dag`, and holds every certificate inserted so far.
  refine (foldlM_ok_of_step
    (fun done d => (∀ r a e, d r a = some e → dag r a = some e) ∧
      ∀ x ∈ done, d x.round x.origin = some x)
    (fun (d : Dag) (c : Certificate) => tryInsertInDag authorities d lastCommitted g c >>= fun r => pure r.2)
    certs ?_ Dag.empty ⟨fun r a e h => by simp at h, by simp⟩).elim ?_
  · rintro done x rest d hsplit ⟨hsub, hall⟩
    have hx : x ∈ certs := hsplit ▸ List.mem_append_right _ List.mem_cons_self
    have hxdag := hcerts x hx
    have hgx : g < x.round := (hsound _ _ _ hxdag).2.2.2
    have hlater : ∀ z ∈ rest, x.round ≤ z.round := by
      rw [hsplit, List.pairwise_append] at hsorted
      exact (List.pairwise_cons.mp hsorted.2.1).1
    -- The round below `x` is complete: its certificates come earlier in round order.
    have hbelow : ∀ a e, dag (x.round - 1) a = some e → d (x.round - 1) a = some e := by
      intro a e he
      obtain ⟨y, hy, hyr, rfl⟩ := hcover _ _ _ he
      have hyd : y ∈ done := by
        rcases List.mem_append.mp (hsplit ▸ hy) with hyd | hyx
        · exact hyd
        rcases List.mem_cons.mp hyx with rfl | hyr'
        · omega
        · have := hlater y hyr'
          omega
      rw [← hyr] at he ⊢
      rw [hall y hyd, ← he, hsub _ _ _ (hall y hyd)]
    have hcheck : checkParents authorities x d g = .ok () :=
      checkParents_mono (hparents _ _ _ hxdag) (Nat.le_refl g) fun _ a e he =>
        ⟨e, hbelow a e he, rfl⟩
    have hslot : ∀ e, d x.round x.origin = some e → e.digest = x.digest := by
      intro e he
      obtain rfl : x = e := Option.some.inj (hxdag.symm.trans (hsub _ _ _ he))
      rfl
    refine ⟨d.insert x, ?_, ?_, ?_⟩
    · show (tryInsertInDag authorities d lastCommitted g x >>= fun r => pure r.2) = _
      rw [tryInsertInDag_of_checkParents hgx hcheck hslot]
      rfl
    · intro r a e he
      simp only [Dag.insert_apply] at he
      split at he
      · rename_i hk
        cases he
        rw [hk.1, hk.2]
        exact hxdag
      · exact hsub r a e he
    · intro y hy
      rcases List.mem_append.mp hy with hyd | hyx
      · simp only [Dag.insert_apply]
        split
        · -- `x` went to the slot of `y`, where `dag` holds both.
          rename_i hk
          have hyx : dag x.round x.origin = some y := hk.1 ▸ hk.2 ▸ hsub _ _ _ (hall y hyd)
          rw [← Option.some.inj (hxdag.symm.trans hyx)]
        · exact hall y hyd
      · rw [List.mem_singleton.mp hyx]
        simp
  · rintro dag' ⟨hfold, hsub, hall⟩
    have hdag : dag' = dag := by
      funext r a
      cases he : dag r a with
      | none =>
        cases he' : dag' r a with
        | none => rfl
        | some e => exact absurd (hsub r a e he') (by simp [he])
      | some e =>
        obtain ⟨y, hy, rfl, rfl⟩ := hcover r a e he
        rw [hall y hy, ← hsub _ _ _ (hall y hy), he]
    exact hdag ▸ hfold

/-- Reading back the digests of certificates the store returns by digest. -/
theorem mapM_readStored {l : List Certificate} (h : ∀ x ∈ l, certStore.read x.digest = some x) :
    (l.map (·.digest)).mapM (readStored certStore) = .ok l := by
  induction l with
  | nil => rfl
  | cons x l ih =>
    have hx : readStored certStore x.digest = .ok x := by
      rw [readStored, h x List.mem_cons_self]
      rfl
    rw [List.map_cons, List.mapM_cons, hx, ih fun y hy => h y (List.mem_cons_of_mem x hy)]
    rfl

/-- **`new_from_store` rebuilds a state exactly** from its committed round, its
    last committed table and the commit of its last sub-dag, when the DAG is
    rebuilt exactly and the certificates of that sub-dag read back. -/
theorem newFromStore_eq {lastCommittedRound : Nat} {s : ConsensusState}
    (hround : s.lastRound = ConsensusRound.newWithGcDepth lastCommittedRound s.gcDepth)
    (hdag : constructDagFromCertStore authorities certStore s.lastCommitted s.lastRound.gcRound =
      .ok s.dag)
    (hread : ∀ sd, s.lastCommittedSubDag = some sd →
      ∀ x ∈ sd.leader :: sd.certificates, certStore.read x.digest = some x) :
    newFromStore authorities lastCommittedRound s.gcDepth s.lastCommitted
      (s.lastCommittedSubDag.map ConsensusCommit.fromSubDag) certStore = .ok s := by
  obtain ⟨lastRound, gcDepth, lastCommitted, lastCommittedSubDag, dag⟩ := s
  dsimp only at hround hdag hread ⊢
  subst hround
  unfold newFromStore
  dsimp only
  rw [hdag]
  cases lastCommittedSubDag with
  | none => rfl
  | some sd =>
    -- `from_commit` of the persisted sub-dag and its certificates is the sub-dag.
    have hsd := hread sd rfl
    have hleader : readStored certStore sd.leader.digest = .ok sd.leader := by
      rw [readStored, hsd sd.leader List.mem_cons_self]
      rfl
    have hcerts := mapM_readStored fun x hx => hsd x (List.mem_cons_of_mem _ hx)
    simp only [Option.map_some, ConsensusCommit.fromSubDag, hcerts, hleader]
    rfl

end ConsensusState

namespace Consensus

variable {authorities : List Nat} {lastCommitted : Nat → Option Nat}

theorem le_lastCommittedRound {a r : Nat} (ha : a ∈ authorities) (h : lastCommitted a = some r) :
    r ≤ lastCommittedRound authorities lastCommitted := by
  obtain ⟨m, hm, hle⟩ := le_max?_of_mem (List.mem_filterMap.mpr ⟨a, ha, h⟩)
  rw [lastCommittedRound, hm]
  exact hle

/-- The recovered committed round is a round of the table that bounds all of it. -/
theorem lastCommittedRound_eq_of_mem {a m : Nat}
    (hle : ∀ a ∈ authorities, ∀ r, lastCommitted a = some r → r ≤ m) (ha : a ∈ authorities)
    (hm : lastCommitted a = some m) : lastCommittedRound authorities lastCommitted = m := by
  rw [lastCommittedRound, max?_eq_of_mem (List.mem_filterMap.mpr ⟨a, ha, hm⟩)]
  · rfl
  intro r hr
  obtain ⟨a', ha', hr'⟩ := List.mem_filterMap.mp hr
  exact hle a' ha' r hr'

end Consensus

/-! ## Runs -/

namespace Consensus

variable {cfg : BullsharkConfig} {rng : LeaderRng}

/-- **Induction over `run_inner`.** A property of the certificates received so
    far, of the sub-dags sent and of the task, that survives every certificate of
    another epoch and every successful `process_certificate`, holds of all a run
    sends and of the task where it ends; a run that ends without a halt has
    received all its certificates. -/
theorem runInner_induct (P : List Certificate → List CommittedSubDag → Consensus → Prop)
    {certs : List Certificate}
    (hskip : ∀ pre outs c x, x ∈ certs → x.epoch ≠ cfg.committee.epoch → P pre outs c →
      P (pre ++ [x]) outs c)
    (hstep : ∀ pre outs c x o sds c', x ∈ certs → x.epoch = cfg.committee.epoch →
      P pre outs c → Bullshark.processCertificate cfg rng c x = .ok (o, sds, c') →
      P (pre ++ [x]) (outs ++ sds) c')
    {pre : List Certificate} {outs : List CommittedSubDag} {c : Consensus} (hP : P pre outs c) :
    ∃ pre' c', P pre' (outs ++ (runInner cfg rng c certs).1) c' ∧
      ∀ c'', (runInner cfg rng c certs).2 = .ok c'' → c'' = c' ∧ pre' = pre ++ certs := by
  induction certs generalizing pre outs c with
  | nil =>
    refine ⟨pre, c, by simpa [runInner] using hP, fun c'' h => ?_⟩
    simp only [runInner, Except.ok.injEq] at h
    exact ⟨h.symm, by simp⟩
  | cons x rest ih =>
    have hskip' : ∀ pre outs c y, y ∈ rest → y.epoch ≠ cfg.committee.epoch → P pre outs c →
        P (pre ++ [y]) outs c :=
      fun pre outs c y hy => hskip pre outs c y (List.mem_cons_of_mem x hy)
    have hstep' : ∀ pre outs c y o sds c', y ∈ rest → y.epoch = cfg.committee.epoch →
        P pre outs c → Bullshark.processCertificate cfg rng c y = .ok (o, sds, c') →
        P (pre ++ [y]) (outs ++ sds) c' :=
      fun pre outs c y o sds c' hy => hstep pre outs c y o sds c' (List.mem_cons_of_mem x hy)
    unfold runInner
    split
    · -- A certificate of another epoch is received and dropped.
      rename_i hepoch
      obtain ⟨pre', c', hP', hc'⟩ :=
        ih hskip' hstep' (hskip pre outs c x List.mem_cons_self hepoch hP)
      exact ⟨pre', c', hP', fun c'' h => ⟨(hc' c'' h).1, by simp [(hc' c'' h).2]⟩⟩
    rename_i hepoch
    split
    · -- The task stops at a halt; what it sent is what it had sent.
      refine ⟨pre, c, by simpa using hP, fun c'' h => ?_⟩
      cases h
    · rename_i o sds c₁ hpc
      have hP₁ := hstep pre outs c x o sds c₁ List.mem_cons_self (not_not.mp hepoch) hP hpc
      dsimp only
      split
      · exact ⟨pre ++ [x], c₁, hP₁, fun c'' h => by cases h⟩
      · obtain ⟨pre', c', hP', hc'⟩ := ih hskip' hstep' hP₁
        refine ⟨pre', c', by simpa [List.append_assoc] using hP', fun c'' h => ?_⟩
        exact ⟨(hc' c'' h).1, by simp [(hc' c'' h).2]⟩

end Consensus

end Mango.Narwhal
