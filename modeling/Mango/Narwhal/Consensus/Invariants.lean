/-
  Mango.Narwhal.Consensus.Invariants

  The commit invariants of Bullshark over whole runs of the consensus task,
  from a fresh state or from one rebuilt by `new_from_store`: no certificate is
  committed twice, sub-dag indices are consecutive, leader rounds are even and
  increase, every sub-dag is its leader's causal history above the GC cut,
  sorted by round with the leader last, and the committed rounds of the state
  are those of the certificates committed.

  Certificates are told apart by their digests, as the code does; the
  statements ask that distinct certificates of the run have distinct digests.
  With a GC depth of zero the cut `leader.round - gc_depth` excludes the leader
  itself, and the shape of a sub-dag is stated for positive depths.
-/
import Mango.Narwhal.Consensus.Run

namespace Mango.Narwhal

open Mango.Lib

/-- What a sub-dag flattened by `order_dag` looks like, whatever the state it was
    computed in: distinct digests, sorted by round, the leader last and alone at
    its round, and every element a causal ancestor of the leader above the GC cut. -/
structure SubDagShape (gcDepth : Nat) (subDag : CommittedSubDag) : Prop where
  nodup : (subDag.certificates.map (·.digest)).Nodup
  sorted : subDag.certificates.Pairwise fun a b => a.round ≤ b.round
  last : subDag.certificates.getLast? = some subDag.leader
  leader_alone : ∀ c ∈ subDag.certificates, c ≠ subDag.leader → c.round < subDag.leader.round
  ancestor : ∀ c ∈ subDag.certificates, IsAncestor c subDag.leader
  above_gc : ∀ c ∈ subDag.certificates, subDag.leader.round - gcDepth < c.round

/-- The invariant of a run that has sent `outs` and reached the state `s`, from a
    start whose next sub-dag index is `idx₀` and last committed table `lc₀`;
    `known` holds every certificate the run can meet. -/
structure CommitInv (gcDepth : Nat) (known : List Certificate) (idx₀ : Nat)
    (lc₀ : Nat → Option Nat) (outs : List CommittedSubDag) (s : ConsensusState) : Prop where
  coherent : s.Coherent
  gcDepth_eq : s.gcDepth = gcDepth
  dag_known : ∀ r a c, s.dag r a = some c → c ∈ known
  indices : outs.map (·.subDagIndex) = List.range' idx₀ outs.length
  next_index : s.nextSubDagIndex = idx₀ + outs.length
  leaders_even : ∀ sd ∈ outs, sd.leader.round % 2 = 0
  leaders_increasing : (outs.map (·.leader.round)).Pairwise (· < ·)
  shape : ∀ sd ∈ outs, SubDagShape gcDepth sd
  last_leader : ∀ sd, outs.getLast? = some sd → s.lastRound.committedRound = sd.leader.round
  /-- What the state remembers of every committed certificate. -/
  committed : ∀ c ∈ outs.flatMap (·.certificates), c ∈ known ∧
    c.round ≤ s.lastRound.committedRound ∧ ∃ r, s.lastCommitted c.origin = some r ∧ c.round ≤ r
  nodup : ((outs.flatMap (·.certificates)).map (·.digest)).Nodup
  lastCommitted_eq : ∀ a, s.lastCommitted a = ((lc₀ a).toList ++
    ((outs.flatMap (·.certificates)).filter (·.origin = a)).map (·.round)).max?

namespace CommitInv

variable {gcDepth idx₀ : Nat} {known : List Certificate} {lc₀ : Nat → Option Nat}
  {outs : List CommittedSubDag} {s : ConsensusState}

/-- A coherent start whose DAG holds known certificates. -/
theorem init (hs : s.Coherent) (hd : s.gcDepth = gcDepth)
    (hdag : ∀ r a c, s.dag r a = some c → c ∈ known) :
    CommitInv gcDepth known s.nextSubDagIndex s.lastCommitted [] s where
  coherent := hs
  gcDepth_eq := hd
  dag_known := hdag
  indices := rfl
  next_index := rfl
  leaders_even _ h := by cases h
  leaders_increasing := List.Pairwise.nil
  shape _ h := by cases h
  last_leader _ h := by cases h
  committed _ h := by simp at h
  nodup := List.nodup_nil
  lastCommitted_eq a := by cases s.lastCommitted a <;> simp

/-- Inserting a known certificate keeps the invariant. -/
theorem tryInsert {authorities : List Nat} {x : Certificate} {inserted : Bool}
    {s₁ : ConsensusState} (hI : CommitInv gcDepth known idx₀ lc₀ outs s) (hx : x ∈ known)
    (h : s.tryInsert authorities x = .ok (inserted, s₁)) :
    CommitInv gcDepth known idx₀ lc₀ outs s₁ := by
  have hs₁ := hI.coherent.tryInsert h
  obtain ⟨dag', hins, rfl⟩ := ConsensusState.tryInsert_ok h
  refine { hI with coherent := hs₁, dag_known := fun r a c hc => ?_ }
  rcases ConsensusState.tryInsertInDag_cases hins with ⟨-, -, rfl⟩ | ⟨-, -, -, -, rfl⟩
  · exact hI.dag_known r a c hc
  · simp only [Dag.insert_apply] at hc
    split at hc
    · cases hc
      exact hx
    · exact hI.dag_known r a c hc

/-- The leader of a sent sub-dag is among its certificates. -/
theorem leader_mem_certificates (hI : CommitInv gcDepth known idx₀ lc₀ outs s)
    {sd : CommittedSubDag} (hsd : sd ∈ outs) : sd.leader ∈ outs.flatMap (·.certificates) :=
  List.mem_flatMap.mpr ⟨sd, hsd, List.mem_of_getLast? (hI.shape sd hsd).last⟩

/-- **One commit step keeps the invariant**, when the known certificates have
    distinct digests and the GC depth is positive. -/
theorem step {cfg : BullsharkConfig} {b b' : Bullshark} {s' : ConsensusState}
    {sd : CommittedSubDag} (hI : CommitInv gcDepth known idx₀ lc₀ outs s)
    (hinj : ∀ x ∈ known, ∀ y ∈ known, x.digest = y.digest → x = y) (hd : 0 < gcDepth)
    (h : Bullshark.CommitStep cfg b s sd b' s') :
    CommitInv gcDepth known idx₀ lc₀ (outs ++ [sd]) s' := by
  have hs := hI.coherent
  have hLknown : sd.leader ∈ known := hI.dag_known _ _ _ h.leader_mem
  have hflat : FlattenedSubDag s.dag s.lastCommitted s.gcDepth sd.leader sd.certificates :=
    orderDag_sound hs.keys (fun c hc hdig => hinj c (hI.dag_known _ _ _ hc) _ hLknown hdig)
      (hI.gcDepth_eq ▸ hd) h.order
  have hround : s'.lastRound.committedRound = sd.leader.round := h.committedRound hs
  have habove := h.leader_above
  -- Every certificate of the new sub-dag is known, and at most at its leader's round.
  have hnew : ∀ c ∈ sd.certificates, c ∈ known ∧ c.round ≤ sd.leader.round := by
    intro c hc
    by_cases hcL : c = sd.leader
    · subst hcL
      exact ⟨hLknown, Nat.le_refl _⟩
    · obtain ⟨hlt, hdag, -⟩ := hflat.below c hc hcL
      exact ⟨hI.dag_known _ _ _ hdag, Nat.le_of_lt hlt⟩
  have hflatMap : (outs ++ [sd]).flatMap (·.certificates) =
      outs.flatMap (·.certificates) ++ sd.certificates := by simp
  -- The last committed rounds only grow.
  have hlc : ∀ a r, s.lastCommitted a = some r →
      ∃ r', s'.lastCommitted a = some r' ∧ r ≤ r' := by
    intro a r hr
    rw [h.lastCommitted a, hr]
    exact le_max?_of_mem (List.mem_append_left _ (by simp))
  refine
    { coherent := h.coherent hs
      gcDepth_eq := h.gcDepth.trans hI.gcDepth_eq
      dag_known := fun r a c hc => ?_
      indices := ?_
      next_index := ?_
      leaders_even := fun x hx => ?_
      leaders_increasing := ?_
      shape := fun x hx => ?_
      last_leader := fun x hx => ?_
      committed := fun c hc => ?_
      nodup := ?_
      lastCommitted_eq := fun a => ?_ }
  · rw [h.dag hs] at hc
    split at hc
    · exact hI.dag_known _ _ _ hc
    · cases hc
  · rw [List.map_append, hI.indices, List.length_append, List.length_singleton,
      List.range'_concat, Nat.one_mul, List.map_singleton, h.subDagIndex, hI.next_index]
  · rw [h.nextSubDagIndex, h.subDagIndex, hI.next_index, List.length_append,
      List.length_singleton, Nat.add_assoc]
  · rcases List.mem_append.mp hx with hx | hx
    · exact hI.leaders_even x hx
    · rw [List.mem_singleton.mp hx]
      exact h.leader_even
  · rw [List.map_append, List.map_singleton]
    refine List.pairwise_append.mpr ⟨hI.leaders_increasing, List.pairwise_singleton _ _, ?_⟩
    intro a ha b hb
    obtain ⟨sd', hsd', rfl⟩ := List.mem_map.mp ha
    rw [List.mem_singleton.mp hb]
    -- Earlier leaders are committed, so at most at the committed round.
    have := (hI.committed _ (hI.leader_mem_certificates hsd')).2.1
    omega
  · rcases List.mem_append.mp hx with hx | hx
    · exact hI.shape x hx
    · rw [List.mem_singleton.mp hx]
      exact ⟨hflat.nodup, hflat.sorted, hflat.last, fun c hc hcL => (hflat.below c hc hcL).1,
        hflat.ancestor, fun c hc => hI.gcDepth_eq ▸ hflat.above_gc c hc⟩
  · rw [List.getLast?_concat, Option.some.injEq] at hx
    rw [← hx]
    exact hround
  · rw [hflatMap] at hc
    rcases List.mem_append.mp hc with hc | hc
    · obtain ⟨hk, hcr, r, hr, hle⟩ := hI.committed c hc
      obtain ⟨r', hr', hle'⟩ := hlc _ r hr
      exact ⟨hk, by omega, r', hr', by omega⟩
    · obtain ⟨hk, hle⟩ := hnew c hc
      refine ⟨hk, by omega, ?_⟩
      rw [h.lastCommitted]
      exact le_max?_of_mem (List.mem_append_right _
        (List.mem_map_of_mem (List.mem_filter.mpr ⟨hc, by simp⟩)))
  · rw [hflatMap, List.map_append]
    refine List.nodup_append.mpr ⟨hI.nodup, hflat.nodup, ?_⟩
    intro a ha b hb hab
    obtain ⟨y, hy, rfl⟩ := List.mem_map.mp ha
    obtain ⟨x, hx, rfl⟩ := List.mem_map.mp hb
    -- Equal digests make the new certificate an earlier committed one.
    obtain ⟨hyk, hyr, r, hr, hle⟩ := hI.committed y hy
    have hxy : x = y := hinj x (hnew x hx).1 y hyk hab.symm
    subst hxy
    by_cases hxL : x = sd.leader
    · subst hxL
      omega
    · have := (hflat.below x hx hxL).2.2 r hr
      omega
  · rw [h.lastCommitted, hI.lastCommitted_eq, max?_toList_max?_append, hflatMap,
      List.filter_append, List.map_append, List.append_assoc]

/-- A chain of commit steps keeps the invariant. -/
theorem chain {cfg : BullsharkConfig} {b b' : Bullshark} {s' : ConsensusState}
    {sds : List CommittedSubDag} (hI : CommitInv gcDepth known idx₀ lc₀ outs s)
    (hinj : ∀ x ∈ known, ∀ y ∈ known, x.digest = y.digest → x = y) (hd : 0 < gcDepth)
    (h : Bullshark.CommitChain cfg b s sds b' s') :
    CommitInv gcDepth known idx₀ lc₀ (outs ++ sds) s' := by
  induction h generalizing outs with
  | nil => simpa using hI
  | cons hstep _ ih => simpa [List.append_assoc] using ih (hI.step hinj hd hstep)

/-- One successful `process_certificate` of a known certificate keeps the invariant. -/
theorem processCertificate {cfg : BullsharkConfig} {rng : LeaderRng} {c c' : Consensus}
    {x : Certificate} {o : Outcome} {sds : List CommittedSubDag}
    (hI : CommitInv gcDepth known idx₀ lc₀ outs c.state) (hx : x ∈ known)
    (hinj : ∀ x ∈ known, ∀ y ∈ known, x.digest = y.digest → x = y) (hd : 0 < gcDepth)
    (h : Bullshark.processCertificate cfg rng c x = .ok (o, sds, c')) :
    CommitInv gcDepth known idx₀ lc₀ (outs ++ sds) c'.state := by
  obtain ⟨inserted, s₁, hins, hchain⟩ := Bullshark.processCertificate_ok hI.coherent h
  exact (hI.tryInsert hx hins).chain hinj hd hchain

end CommitInv

/-! ## Runs -/

/-- The commit invariants of a run of the consensus task from `c₀` over `certs`:
    (a) no digest is sent twice, (b) sub-dag indices continue the start's,
    (c) leader rounds are even and increase, (d) every sub-dag has the shape of a
    flattened leader, and (e) where the run ends, the committed round is the last
    leader's and every origin's last committed round the highest it committed. -/
structure RunCommitInvariants (cfg : BullsharkConfig) (rng : LeaderRng) (c₀ : Consensus)
    (certs : List Certificate) : Prop where
  nodup : (((Consensus.runInner cfg rng c₀ certs).1.flatMap (·.certificates)).map
    (·.digest)).Nodup
  indices : (Consensus.runInner cfg rng c₀ certs).1.map (·.subDagIndex) =
    List.range' c₀.state.nextSubDagIndex (Consensus.runInner cfg rng c₀ certs).1.length
  leaders_even : ∀ sd ∈ (Consensus.runInner cfg rng c₀ certs).1, sd.leader.round % 2 = 0
  leaders_increasing : ((Consensus.runInner cfg rng c₀ certs).1.map (·.leader.round)).Pairwise
    (· < ·)
  shape : ∀ sd ∈ (Consensus.runInner cfg rng c₀ certs).1, SubDagShape c₀.state.gcDepth sd
  committedRound_eq : ∀ c, (Consensus.runInner cfg rng c₀ certs).2 = .ok c →
    ∀ sd, (Consensus.runInner cfg rng c₀ certs).1.getLast? = some sd →
      c.state.lastRound.committedRound = sd.leader.round
  lastCommitted_eq : ∀ c, (Consensus.runInner cfg rng c₀ certs).2 = .ok c → ∀ a,
    c.state.lastCommitted a = ((c₀.state.lastCommitted a).toList ++
      (((Consensus.runInner cfg rng c₀ certs).1.flatMap (·.certificates)).filter
        (·.origin = a)).map (·.round)).max?

/-- Bullshark's commit invariants hold over every run of the consensus task that
    starts from `ConsensusState::new` or from a state `new_from_store` rebuilt,
    with a positive GC depth, when the stored and received certificates have
    distinct digests. -/
theorem runInner_commit_invariants (cfg : BullsharkConfig) (rng : LeaderRng) (c₀ : Consensus)
    (certStore : CertificateStore) (lastCommittedRound : Nat) (recovered : Nat → Option Nat)
    (latest : Option ConsensusCommit)
    (hstart : c₀.state = ConsensusState.new c₀.state.gcDepth ∨
      ConsensusState.newFromStore cfg.committee.authorities lastCommittedRound c₀.state.gcDepth
        recovered latest certStore = .ok c₀.state)
    (hgc : 0 < c₀.state.gcDepth) (certs : List Certificate)
    (hinj : ∀ x ∈ certStore.written ++ certs, ∀ y ∈ certStore.written ++ certs,
      x.digest = y.digest → x = y) :
    RunCommitInvariants cfg rng c₀ certs := by
  -- The start is coherent, and its DAG holds stored certificates.
  have hstart' : c₀.state.Coherent ∧
      ∀ r a c, c₀.state.dag r a = some c → c ∈ certStore.written ++ certs := by
    rcases hstart with h | h
    · rw [h]
      exact ⟨ConsensusState.coherent_new _, fun r a c hc => by simp [ConsensusState.new] at hc⟩
    · obtain ⟨hcoh, hmem⟩ := ConsensusState.newFromStore_coherent h
      exact ⟨hcoh, fun r a c hc => List.mem_append_left _ (hmem r a c hc)⟩
  obtain ⟨_, c', hI, hc'⟩ := @Consensus.runInner_induct cfg rng
    (fun _ outs c => CommitInv c₀.state.gcDepth (certStore.written ++ certs)
      c₀.state.nextSubDagIndex c₀.state.lastCommitted outs c.state) certs
    (fun _ _ _ _ _ _ hI => hI)
    (fun _ _ _ _ _ _ _ hx _ hI h => hI.processCertificate (List.mem_append_right _ hx) hinj hgc h)
    [] [] c₀ (CommitInv.init hstart'.1 rfl hstart'.2)
  rw [List.nil_append] at hI
  exact
    { nodup := hI.nodup
      indices := hI.indices
      leaders_even := hI.leaders_even
      leaders_increasing := hI.leaders_increasing
      shape := hI.shape
      committedRound_eq := fun c hc => (hc' c hc).1 ▸ hI.last_leader
      lastCommitted_eq := fun c hc => (hc' c hc).1 ▸ hI.lastCommitted_eq }

/-- The invariants on a run of one authority over its certificates of rounds 1
    to 3, with a GC depth of one. -/
theorem runInner_commit_invariants_one_authority :
    RunCommitInvariants ⟨⟨0, [1]⟩, 33, 300⟩ ⟨fun _ l => l.head?.map (·.1), fun _ _ => 0⟩
      ⟨⟨LeaderSwapTable.default, ConsensusStore.empty⟩, ConsensusState.new 1⟩
      [⟨1, 0, 0, [], 10, 101⟩, ⟨2, 0, 0, [101], 20, 102⟩, ⟨3, 0, 0, [102], 30, 103⟩] :=
  runInner_commit_invariants _ _ _ CertificateStore.empty 0 (fun _ => none) none (Or.inl rfl)
    (by decide) _ (by decide)

/-- With a GC depth of zero the cut `leader.round - gc_depth` is the leader's own
    round, and the first commit of a run from `ConsensusState::new` lies below it:
    one authority, its certificates of rounds 1 to 3, the first without parents.
    With one authority the weighted choice of the `rand` crate can only elect it. -/
theorem runInner_gcDepth_zero_commits_below_cut :
    ∃ sd ∈ (Consensus.runInner ⟨⟨0, [1]⟩, 33, 300⟩ ⟨fun _ l => l.head?.map (·.1), fun _ _ => 0⟩
        ⟨⟨LeaderSwapTable.default, ConsensusStore.empty⟩, ConsensusState.new 0⟩
        [⟨1, 0, 0, [], 10, 101⟩, ⟨2, 0, 0, [101], 20, 102⟩, ⟨3, 0, 0, [102], 30, 103⟩]).1,
      ∃ c ∈ sd.certificates, ¬ sd.leader.round - 0 < c.round := by
  decide

end Mango.Narwhal
