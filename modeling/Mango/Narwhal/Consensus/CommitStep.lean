/-
  Mango.Narwhal.Consensus.CommitStep

  What one successful `process_certificate` does, said once so that every
  invariant over runs is proved from it: the certificate goes through
  `try_insert`, then zero or more leaders are committed, each in one
  `CommitStep`. A step flattens its leader with `order_dag`, applies `update`
  for every certificate of the sub-dag, resolves the reputation scores,
  persists the commit and may install a new swap table. A `CommitChain`
  strings the steps of one call together, across the retries of a changed
  schedule.

  The states involved are `Coherent`: the GC round follows the committed round,
  and the DAG holds each certificate at its own round and origin, above the GC
  round. Every state the task builds is coherent.
-/
import Mango.Lib.List
import Mango.Narwhal.Consensus.Bullshark

namespace Mango.Narwhal

open Mango.Lib

namespace ConsensusState

/-! ## Coherent states -/

/-- The invariant of every consensus state. -/
structure Coherent (s : ConsensusState) : Prop where
  lastRound_eq : s.lastRound = ConsensusRound.newWithGcDepth s.lastRound.committedRound s.gcDepth
  keys : s.dag.KeysConsistent
  above_gc : ∀ r a c, s.dag r a = some c → s.lastRound.gcRound < r

theorem coherent_new (gcDepth : Nat) : (new gcDepth).Coherent where
  lastRound_eq := by simp [new, ConsensusRound.newWithGcDepth, gcRound]
  keys := Dag.KeysConsistent.empty
  above_gc r a c h := by simp [new] at h

/-- The GC round of a coherent state. -/
theorem Coherent.gcRound_eq {s : ConsensusState} (hs : s.Coherent) :
    s.lastRound.gcRound = s.lastRound.committedRound - s.gcDepth := by
  rw [hs.lastRound_eq]
  rfl

/-! ## Insertion -/

section Insert

variable {authorities : List Nat} {dag dag' : Dag} {lastCommitted : Nat → Option Nat}
  {g : Nat} {c : Certificate} {inserted : Bool}

/-- What `try_insert_in_dag` can do: ignore a certificate at or below the GC
    round, or store one whose parents check out and whose slot holds nothing
    with another digest. -/
theorem tryInsertInDag_cases
    (h : tryInsertInDag authorities dag lastCommitted g c = .ok (inserted, dag')) :
    (c.round ≤ g ∧ inserted = false ∧ dag' = dag) ∨
    (g < c.round ∧ checkParents authorities c dag g = .ok () ∧
      (∀ e, dag c.round c.origin = some e → e.digest = c.digest) ∧
      inserted = decide ((lastCommitted c.origin).getD 0 < c.round) ∧ dag' = dag.insert c) := by
  unfold tryInsertInDag at h
  split at h
  · rename_i hle
    obtain ⟨rfl, rfl⟩ := Prod.mk.inj (Except.pure_eq_ok.mp h).symm
    exact .inl ⟨hle, rfl, rfl⟩
  rename_i hgt
  obtain ⟨⟨⟩, hcheck, h⟩ := Except.bind_eq_ok.mp h
  -- Past the parent check, only an equivocation can stop the insertion.
  have hins : inserted = decide ((lastCommitted c.origin).getD 0 < c.round) ∧
      dag' = dag.insert c := by
    split at h
    · split at h
      · exact absurd h Except.throw_ne_ok
      · obtain ⟨rfl, rfl⟩ := Prod.mk.inj (Except.pure_eq_ok.mp h).symm
        exact ⟨rfl, rfl⟩
    · obtain ⟨rfl, rfl⟩ := Prod.mk.inj (Except.pure_eq_ok.mp h).symm
      exact ⟨rfl, rfl⟩
  refine .inr ⟨Nat.lt_of_not_le hgt, hcheck, ?_, hins⟩
  intro e he
  rw [he] at h
  split at h
  · rename_i existing hsome
    cases hsome
    split at h
    · exact absurd h Except.throw_ne_ok
    · rename_i hne
      exact not_not.mp hne
  · rename_i hnone
    exact absurd rfl (hnone e)

/-- A successful `try_insert` changed the DAG only, as `try_insert_in_dag` did. -/
theorem tryInsert_ok {s s' : ConsensusState} {authorities : List Nat} {c : Certificate}
    {inserted : Bool} (h : s.tryInsert authorities c = .ok (inserted, s')) :
    ∃ dag', tryInsertInDag authorities s.dag s.lastCommitted s.lastRound.gcRound c =
      .ok (inserted, dag') ∧ s' = { s with dag := dag' } := by
  obtain ⟨⟨inserted', dag'⟩, hins, h⟩ := Except.bind_eq_ok.mp h
  obtain ⟨rfl, rfl⟩ := Prod.mk.inj (Except.pure_eq_ok.mp h)
  exact ⟨dag', hins, rfl⟩

theorem Coherent.tryInsert {s s' : ConsensusState} {authorities : List Nat} {c : Certificate}
    {inserted : Bool} (hs : s.Coherent) (h : s.tryInsert authorities c = .ok (inserted, s')) :
    s'.Coherent := by
  obtain ⟨dag', hins, rfl⟩ := tryInsert_ok h
  rcases tryInsertInDag_cases hins with ⟨-, -, rfl⟩ | ⟨hgt, -, -, -, rfl⟩
  · exact hs
  refine ⟨hs.lastRound_eq, hs.keys.insert c, ?_⟩
  intro r a e he
  simp only [Dag.insert_apply] at he
  split at he
  · rename_i hk
    exact hk.1 ▸ hgt
  · exact hs.above_gc r a e he

/-- `check_parents` passes when the certificate is at most one round above the GC
    round, or when the round below holds certificates among whose digests every
    parent is found. -/
theorem checkParents_eq_ok :
    checkParents authorities c dag g = .ok () ↔ c.round ≤ g + 1 ∨
      (Dag.roundTable authorities dag (c.round - 1) ≠ [] ∧
        ∀ p ∈ c.parents, ∃ e ∈ Dag.roundTable authorities dag (c.round - 1), e.digest = p) := by
  unfold checkParents
  split
  · rename_i hle
    simp [hle]
  rename_i hgt
  simp only [hgt, false_or]
  split
  · rename_i hempty
    simp only [Except.throw_ne_ok, false_iff, not_and]
    exact fun hne => absurd (List.isEmpty_iff.mp hempty) hne
  rename_i hempty
  have hne : Dag.roundTable authorities dag (c.round - 1) ≠ [] := by
    simpa [List.isEmpty_iff] using hempty
  split
  · rename_i hall
    simp only [Except.pure_eq_ok, true_iff]
    refine ⟨hne, fun p hp => ?_⟩
    simpa using List.all_eq_true.mp hall p hp
  · rename_i hall
    simp only [Except.throw_ne_ok, false_iff, not_and]
    intro _ hfound
    apply hall
    refine List.all_eq_true.mpr fun p hp => ?_
    simpa using hfound p hp

/-- A passed `check_parents` still passes against a later GC round and a DAG whose
    round below the certificate keeps, at every slot, a certificate with the same
    digest. -/
theorem checkParents_mono {g' : Nat} (h : checkParents authorities c dag g = .ok ())
    (hg : g ≤ g')
    (hslice : g' + 1 < c.round → ∀ a e, dag (c.round - 1) a = some e →
      ∃ e', dag' (c.round - 1) a = some e' ∧ e'.digest = e.digest) :
    checkParents authorities c dag' g' = .ok () := by
  rw [checkParents_eq_ok] at h ⊢
  by_cases hle : c.round ≤ g' + 1
  · exact .inl hle
  have hslice := hslice (by omega)
  -- Above `g' + 1` the check was made against `dag` too.
  obtain ⟨hne, hfound⟩ := h.resolve_left (by omega)
  have hcover : ∀ e ∈ Dag.roundTable authorities dag (c.round - 1),
      ∃ e' ∈ Dag.roundTable authorities dag' (c.round - 1), e'.digest = e.digest := by
    intro e he
    obtain ⟨a, ha, hea⟩ := Dag.mem_roundTable.mp he
    obtain ⟨e', he', hd⟩ := hslice a e hea
    exact ⟨e', Dag.mem_roundTable.mpr ⟨a, ha, he'⟩, hd⟩
  refine .inr ⟨?_, fun p hp => ?_⟩
  · obtain ⟨e, he⟩ := List.exists_mem_of_ne_nil _ hne
    obtain ⟨e', he', -⟩ := hcover e he
    exact List.ne_nil_of_mem he'
  · obtain ⟨e, he, rfl⟩ := hfound p hp
    exact hcover e he

/-- A certificate above the GC round whose parents check out and whose slot holds
    nothing with another digest is stored. -/
theorem tryInsertInDag_of_checkParents (hgt : g < c.round)
    (hcheck : checkParents authorities c dag g = .ok ())
    (hslot : ∀ e, dag c.round c.origin = some e → e.digest = c.digest) :
    tryInsertInDag authorities dag lastCommitted g c =
      .ok (decide ((lastCommitted c.origin).getD 0 < c.round), dag.insert c) := by
  unfold tryInsertInDag
  rw [if_neg (Nat.not_le.mpr hgt), hcheck]
  cases he : dag c.round c.origin with
  | none => rfl
  | some e =>
    have hdig := hslot e he
    simp [hdig]

end Insert

/-! ## Commit updates -/

section Update

variable {s : ConsensusState}

theorem Coherent.update (hs : s.Coherent) (c : Certificate) : (s.update c).Coherent where
  lastRound_eq := rfl
  keys := hs.keys.retainAbove _
  above_gc r a e he := by
    simp only [update_dag, Dag.retainAbove_apply] at he
    split at he
    · rename_i hlt
      simpa using hlt
    · cases he

@[simp] theorem foldl_update_gcDepth (l : List Certificate) (s : ConsensusState) :
    (l.foldl update s).gcDepth = s.gcDepth := by
  induction l generalizing s with
  | nil => rfl
  | cons c l ih => rw [List.foldl_cons, ih, update_gcDepth]

@[simp] theorem foldl_update_lastCommittedSubDag (l : List Certificate) (s : ConsensusState) :
    (l.foldl update s).lastCommittedSubDag = s.lastCommittedSubDag := by
  induction l generalizing s with
  | nil => rfl
  | cons c l ih => rw [List.foldl_cons, ih, update_lastCommittedSubDag]

theorem Coherent.foldl_update (hs : s.Coherent) (l : List Certificate) :
    (l.foldl ConsensusState.update s).Coherent := by
  induction l generalizing s with
  | nil => exact hs
  | cons c l ih => exact ih (hs.update c)

/-- Committing certificates raises the committed round to the highest of their rounds. -/
theorem foldl_update_committedRound (l : List Certificate) (s : ConsensusState) :
    (l.foldl update s).lastRound.committedRound =
      max s.lastRound.committedRound ((l.map (·.round)).max?.getD 0) := by
  rw [← foldl_max_eq]
  induction l generalizing s with
  | nil => rfl
  | cons c l ih => rw [List.foldl_cons, ih, List.foldl_cons, update_lastRound,
      ConsensusRound.update_committedRound]

/-- After committing certificates, an origin's last committed round is the highest
    of its old one and the rounds of its committed certificates. -/
theorem foldl_update_lastCommitted (l : List Certificate) (s : ConsensusState) (a : Nat) :
    (l.foldl update s).lastCommitted a =
      ((s.lastCommitted a).toList ++ (l.filter (·.origin = a)).map (·.round)).max? := by
  induction l generalizing s with
  | nil => cases h : s.lastCommitted a <;> simp [h]
  | cons c l ih =>
    rw [List.foldl_cons, ih, update_lastCommitted]
    by_cases hca : c.origin = a
    · have hfilter : (c :: l).filter (·.origin = a) = c :: l.filter (·.origin = a) := by
        simp [hca]
      rw [if_pos hca.symm, hfilter, List.map_cons, max?_toList_append_cons]
    · have hfilter : (c :: l).filter (·.origin = a) = l.filter (·.origin = a) := by
        simp [hca]
      rw [if_neg (Ne.symm hca), hfilter]

/-- Committing keeps every origin's last committed round present. -/
theorem foldl_update_lastCommitted_or (l : List Certificate) (s : ConsensusState) (a : Nat) :
    ((l.foldl update s).lastCommitted a).or (s.lastCommitted a) =
      (l.foldl update s).lastCommitted a := by
  rw [foldl_update_lastCommitted]
  cases h : s.lastCommitted a with
  | none => simp
  | some r =>
    obtain ⟨m, hm, -⟩ := le_max?_of_mem (List.mem_append_left
      ((l.filter (·.origin = a)).map (·.round)) (Option.mem_toList.mpr rfl : r ∈ (some r).toList))
    rw [hm]
    rfl

/-- Committing certificates only drops DAG entries, those at or below the new GC
    round. -/
theorem Coherent.foldl_update_dag (hs : s.Coherent) (l : List Certificate) (r a : Nat) :
    (l.foldl ConsensusState.update s).dag r a =
      if (l.foldl ConsensusState.update s).lastRound.gcRound < r then s.dag r a else none := by
  induction l generalizing s with
  | nil =>
    show s.dag r a = if s.lastRound.gcRound < r then s.dag r a else none
    by_cases hlt : s.lastRound.gcRound < r
    · rw [if_pos hlt]
    · rw [if_neg hlt]
      cases he : s.dag r a with
      | none => rfl
      | some e => exact absurd (hs.above_gc r a e he) hlt
  | cons c l ih =>
    rw [List.foldl_cons, ih (hs.update c), update_dag, Dag.retainAbove_apply]
    -- The GC round only grows, so the earlier cut is implied by the later one.
    have hmono : (s.update c).lastRound.gcRound ≤
        (l.foldl ConsensusState.update (s.update c)).lastRound.gcRound := by
      rw [(hs.update c).foldl_update l |>.gcRound_eq, (hs.update c).gcRound_eq,
        foldl_update_committedRound, foldl_update_gcDepth]
      omega
    have hgc : (s.update c).lastRound.gcRound = max s.lastRound.committedRound c.round - s.gcDepth :=
      rfl
    split
    · rename_i hlt
      rw [if_pos (by omega)]
    · rfl

end Update

end ConsensusState

/-! ## One commit -/

namespace Bullshark

variable (cfg : BullsharkConfig)

/-- One turn of `commit_leader`'s loop, from the protocol `b` and the state `s`:
    `subDag.leader`, a certificate of the DAG at an even round above the committed
    round, is flattened into `subDag`; its certificates are committed, the commit
    is persisted, and the schedule may change. -/
structure CommitStep (b : Bullshark) (s : ConsensusState) (subDag : CommittedSubDag)
    (b' : Bullshark) (s' : ConsensusState) : Prop where
  leader_even : subDag.leader.round % 2 = 0
  leader_above : s.lastRound.committedRound < subDag.leader.round
  leader_mem : s.dag subDag.leader.round subDag.leader.origin = some subDag.leader
  order : orderDag cfg.committee.authorities subDag.leader s = .ok subDag.certificates
  score : resolveReputationScore cfg (subDag.certificates.foldl ConsensusState.update s)
    subDag.certificates s.nextSubDagIndex = .ok subDag.reputationScore
  subDag_eq : subDag = CommittedSubDag.new subDag.certificates subDag.leader s.nextSubDagIndex
    subDag.reputationScore s.lastCommittedSubDag
  state_eq : s' = { (subDag.certificates.foldl ConsensusState.update s) with
    lastCommittedSubDag := some subDag }
  schedule : ∃ changed, updateLeaderSchedule cfg
    { b with
      store := b.store.writeConsensusState
                 (subDag.certificates.foldl ConsensusState.update s).lastCommitted subDag }
    subDag.leader.round subDag.reputationScore = .ok (changed, b')

/-- The commit steps of one `process_certificate`, in order. -/
inductive CommitChain : Bullshark → ConsensusState → List CommittedSubDag → Bullshark →
    ConsensusState → Prop
  | nil (b : Bullshark) (s : ConsensusState) : CommitChain b s [] b s
  | cons {b b₁ b₂ : Bullshark} {s s₁ s₂ : ConsensusState} {subDag : CommittedSubDag}
      {rest : List CommittedSubDag} :
      CommitStep cfg b s subDag b₁ s₁ → CommitChain b₁ s₁ rest b₂ s₂ →
      CommitChain b s (subDag :: rest) b₂ s₂

variable {cfg}

/-- What `update_leader_schedule` can do: leave the store alone, and install the
    swap table of final scores or keep the old one. -/
theorem updateLeaderSchedule_ok {b b' : Bullshark} {r : Nat} {scores : ReputationScores}
    {changed : Bool} (h : updateLeaderSchedule cfg b r scores = .ok (changed, b')) :
    b'.store = b.store ∧
      if scores.finalOfSchedule then
        LeaderSwapTable.new cfg.committee r scores cfg.badNodesStakeThreshold = .ok b'.leaderSwapTable
      else b'.leaderSwapTable = b.leaderSwapTable := by
  unfold updateLeaderSchedule at h
  split at h
  · rename_i hfinal
    obtain ⟨table, htable, h⟩ := Except.bind_eq_ok.mp h
    cases (Prod.mk.inj (Except.pure_eq_ok.mp h)).2
    simp [hfinal, htable]
  · rename_i hfinal
    cases (Prod.mk.inj (Except.pure_eq_ok.mp h)).2
    simp [hfinal]

theorem CommitChain.append {b b₁ b₂ : Bullshark} {s s₁ s₂ : ConsensusState}
    {sds sds' : List CommittedSubDag} (h₁ : CommitChain cfg b s sds b₁ s₁)
    (h₂ : CommitChain cfg b₁ s₁ sds' b₂ s₂) : CommitChain cfg b s (sds ++ sds') b₂ s₂ := by
  induction h₁ with
  | nil => exact h₂
  | cons hstep _ ih => exact .cons hstep (ih h₂)

section Step

variable {b b' : Bullshark} {s s' : ConsensusState} {subDag : CommittedSubDag}

theorem CommitStep.subDagIndex (h : CommitStep cfg b s subDag b' s') :
    subDag.subDagIndex = s.nextSubDagIndex := by
  rw [h.subDag_eq]
  rfl

theorem CommitStep.lastCommittedSubDag (h : CommitStep cfg b s subDag b' s') :
    s'.lastCommittedSubDag = some subDag := by
  rw [h.state_eq]

theorem CommitStep.nextSubDagIndex (h : CommitStep cfg b s subDag b' s') :
    s'.nextSubDagIndex = subDag.subDagIndex + 1 := by
  simp [ConsensusState.nextSubDagIndex, h.lastCommittedSubDag]

theorem CommitStep.gcDepth (h : CommitStep cfg b s subDag b' s') : s'.gcDepth = s.gcDepth := by
  rw [h.state_eq, ConsensusState.foldl_update_gcDepth]

theorem CommitStep.coherent (hs : s.Coherent) (h : CommitStep cfg b s subDag b' s') :
    s'.Coherent := by
  have hc := hs.foldl_update subDag.certificates
  rw [h.state_eq]
  exact ⟨hc.lastRound_eq, hc.keys, hc.above_gc⟩

/-- What the sub-dag of a step holds, by `order_dag`. -/
theorem CommitStep.mem (hs : s.Coherent) (h : CommitStep cfg b s subDag b' s') :
    subDag.leader ∈ subDag.certificates ∧ ∀ c ∈ subDag.certificates, c ≠ subDag.leader →
      c.origin ∈ cfg.committee.authorities ∧ s.dag c.round c.origin = some c ∧
        c.round < subDag.leader.round ∧
        ∀ r, s.lastCommitted c.origin = some r → r < c.round :=
  orderDag_mem hs.keys h.order

/-- A step commits up to its leader's round. -/
theorem CommitStep.committedRound (hs : s.Coherent) (h : CommitStep cfg b s subDag b' s') :
    s'.lastRound.committedRound = subDag.leader.round := by
  obtain ⟨hL, hlt⟩ := h.mem hs
  -- The leader is the highest certificate of its sub-dag.
  have hmax : (subDag.certificates.map (·.round)).max? = some subDag.leader.round := by
    refine max?_eq_of_mem (List.mem_map_of_mem hL) ?_
    intro y hy
    obtain ⟨c, hc, rfl⟩ := List.mem_map.mp hy
    by_cases hcL : c = subDag.leader
    · exact hcL ▸ Nat.le_refl _
    · exact Nat.le_of_lt (hlt c hc hcL).2.2.1
  rw [h.state_eq]
  show (subDag.certificates.foldl ConsensusState.update s).lastRound.committedRound = _
  rw [ConsensusState.foldl_update_committedRound, hmax, Option.getD_some]
  have := h.leader_above
  omega

theorem CommitStep.lastCommitted (h : CommitStep cfg b s subDag b' s') (a : Nat) :
    s'.lastCommitted a = ((s.lastCommitted a).toList ++
      (subDag.certificates.filter (·.origin = a)).map (·.round)).max? := by
  rw [h.state_eq]
  exact ConsensusState.foldl_update_lastCommitted _ _ a

theorem CommitStep.dag (hs : s.Coherent) (h : CommitStep cfg b s subDag b' s') (r a : Nat) :
    s'.dag r a = if s'.lastRound.gcRound < r then s.dag r a else none := by
  rw [h.state_eq]
  exact hs.foldl_update_dag _ r a

end Step

/-! ## The leaders of one call -/

/-- The leaders `commit_leader` is about to commit from the state `s`: at even
    rounds, in increasing round order, above the committed round, in the DAG. -/
def LeadersReady (s : ConsensusState) (leaders : List Certificate) : Prop :=
  leaders.Pairwise (fun x y => x.round < y.round) ∧
    ∀ x ∈ leaders, x.round % 2 = 0 ∧ s.lastRound.committedRound < x.round ∧
      s.dag x.round x.origin = some x

/-- After the step of the first leader, the others are still ready. -/
theorem LeadersReady.tail {b b' : Bullshark} {s s' : ConsensusState} {subDag : CommittedSubDag}
    {rest : List Certificate} (hs : s.Coherent) (hready : LeadersReady s (subDag.leader :: rest))
    (h : CommitStep cfg b s subDag b' s') : LeadersReady s' rest := by
  obtain ⟨hpair, hall⟩ := hready
  obtain ⟨hlt, hpair⟩ := List.pairwise_cons.mp hpair
  refine ⟨hpair, fun x hx => ?_⟩
  obtain ⟨heven, -, hmem⟩ := hall x (List.mem_cons_of_mem _ hx)
  have hround : s'.lastRound.committedRound = subDag.leader.round := h.committedRound hs
  have hLx := hlt x hx
  refine ⟨heven, by omega, ?_⟩
  -- `x` is above the new committed round, so above the new GC round too.
  have hgc : s'.lastRound.gcRound < x.round := by
    rw [(h.coherent hs).gcRound_eq, hround]
    omega
  rw [h.dag hs, if_pos hgc, hmem]

theorem CommitChain.coherent {b b' : Bullshark} {s s' : ConsensusState}
    {sds : List CommittedSubDag} (hs : s.Coherent) (h : CommitChain cfg b s sds b' s') :
    s'.Coherent := by
  induction h with
  | nil => exact hs
  | cons hstep _ ih => exact ih (hstep.coherent hs)

/-! ## What the calls of `process_certificate` do -/

section Calls

variable {rng : LeaderRng}

theorem leaderCertificate_ok {committee : Committee} {table : LeaderSwapTable} {r : Nat}
    {dag : Dag} {id : Nat} {leader : Option Certificate}
    (h : LeaderSchedule.leaderCertificate rng committee table r dag = .ok (id, leader)) :
    leader = dag r id := by
  obtain ⟨id', -, h⟩ := Except.bind_eq_ok.mp h
  obtain ⟨rfl, rfl⟩ := Prod.mk.inj (Except.pure_eq_ok.mp h)
  rfl

/-- The rounds `order_leaders` visits lie strictly between the committed round and
    the leader's, two apart, with the leader's parity. -/
theorem orderLeadersRounds_mem {c t r : Nat} (h : r ∈ orderLeadersRounds c t) :
    c + 2 ≤ r ∧ r + 2 ≤ t ∧ r % 2 = t % 2 := by
  unfold orderLeadersRounds at h
  split at h
  · obtain ⟨i, hi, rfl⟩ := List.mem_map.mp h
    have := List.mem_range.mp hi
    omega
  · cases h

/-- ... and are visited downwards. -/
theorem orderLeadersRounds_pairwise (c t : Nat) :
    (orderLeadersRounds c t).Pairwise (· > ·) := by
  unfold orderLeadersRounds
  split
  · refine List.pairwise_map.mpr (List.pairwise_lt_range.imp_of_mem ?_)
    intro i j _ hj hij
    have := List.mem_range.mp hj
    omega
  · exact List.Pairwise.nil

/-- One step of `order_leaders` keeps its leaders, or puts in front the DAG's
    certificate at the visited round. -/
theorem orderLeadersStep_cases {b : Bullshark} {dag : Dag} {acc res : List Certificate × Certificate}
    {r : Nat} (h : orderLeadersStep cfg rng b dag acc r = .ok res) :
    res = acc ∨ ∃ id prev, dag r id = some prev ∧ res = (prev :: acc.1, prev) := by
  unfold orderLeadersStep at h
  obtain ⟨⟨id, prev⟩, hlc, h⟩ := Except.bind_eq_ok.mp h
  have hprev := leaderCertificate_ok hlc
  cases prev with
  | none => exact .inl (Except.pure_eq_ok.mp h).symm
  | some prev =>
    obtain ⟨isLinked, -, h⟩ := Except.bind_eq_ok.mp h
    split at h
    · exact .inr ⟨id, prev, hprev.symm, (Except.pure_eq_ok.mp h).symm⟩
    · exact .inl (Except.pure_eq_ok.mp h).symm

/-- The list `order_leaders` builds from `L` downwards: its head is the current
    leader, its rounds increase, `L` is last, and every other leader is a DAG
    certificate at an even round above `c`. -/
def OrderedLeaders (dag : Dag) (c : Nat) (L : Certificate)
    (acc : List Certificate × Certificate) : Prop :=
  acc.1.head? = some acc.2 ∧ acc.1.Pairwise (fun x y => x.round < y.round) ∧
    acc.1.getLast? = some L ∧
    ∀ x ∈ acc.1, x ≠ L → x.round % 2 = 0 ∧ c < x.round ∧ dag x.round x.origin = some x

/-- Putting a DAG certificate below the current leader in front keeps the list ordered. -/
theorem OrderedLeaders.cons {dag : Dag} {c r : Nat} {L prev : Certificate}
    {acc : List Certificate × Certificate} (hacc : OrderedLeaders dag c L acc)
    (hdag : dag prev.round prev.origin = some prev) (hr : prev.round = r) (heven : r % 2 = 0)
    (hc : c < r) (hlt : r < acc.2.round) : OrderedLeaders dag c L (prev :: acc.1, prev) := by
  obtain ⟨hhead, hpw, hlast, hall⟩ := hacc
  obtain ⟨t, ht⟩ := List.head?_eq_some_iff.mp hhead
  rw [ht] at hpw hlast hall
  refine ⟨rfl, ?_, ?_, ?_⟩
  · refine List.pairwise_cons.mpr ⟨fun y hy => ?_, by rw [ht]; exact hpw⟩
    rw [ht] at hy
    rcases List.mem_cons.mp hy with rfl | hy
    · omega
    · have := (List.pairwise_cons.mp hpw).1 y hy
      omega
  · rw [ht, List.getLast?_cons_cons]
    exact hlast
  · intro x hx hxL
    rw [ht] at hx
    rcases List.mem_cons.mp hx with rfl | hx
    · exact ⟨hr ▸ heven, hr ▸ hc, hdag⟩
    · exact hall x hx hxL

theorem orderLeaders_fold {b : Bullshark} {dag : Dag} (hdag : dag.KeysConsistent) {c : Nat}
    {L : Certificate} :
    ∀ (rs : List Nat) (acc res : List Certificate × Certificate),
      rs.Pairwise (· > ·) → (∀ r ∈ rs, r % 2 = 0 ∧ c < r ∧ r < acc.2.round) →
      OrderedLeaders dag c L acc → rs.foldlM (orderLeadersStep cfg rng b dag) acc = .ok res →
      OrderedLeaders dag c L res
  | [], acc, res, _, _, hacc, h => by
    simp only [List.foldlM_nil, Except.pure_eq_ok] at h
    exact h ▸ hacc
  | r :: rs, acc, res, hpair, hrs, hacc, h => by
    simp only [List.foldlM_cons] at h
    obtain ⟨acc₁, hstep, hrest⟩ := Except.bind_eq_ok.mp h
    obtain ⟨hgt, hpair⟩ := List.pairwise_cons.mp hpair
    obtain ⟨heven, hc, hlt⟩ := hrs r List.mem_cons_self
    -- The rounds still to visit are below `r`, hence below the current leader.
    have hrs' : ∀ r' ∈ rs, r' % 2 = 0 ∧ c < r' ∧ r' < r := fun r' hr' =>
      ⟨(hrs r' (List.mem_cons_of_mem _ hr')).1, (hrs r' (List.mem_cons_of_mem _ hr')).2.1,
        hgt r' hr'⟩
    rcases orderLeadersStep_cases hstep with rfl | ⟨id, prev, hprev, rfl⟩
    · exact orderLeaders_fold hdag rs _ res hpair
        (fun r' hr' => ⟨(hrs' r' hr').1, (hrs' r' hr').2.1, by have := (hrs' r' hr').2.2; omega⟩)
        hacc hrest
    · obtain ⟨hpr, hpo⟩ := hdag _ _ _ hprev
      have hprev' : dag prev.round prev.origin = some prev := by rw [hpr, hpo]; exact hprev
      exact orderLeaders_fold hdag rs _ res hpair
        (fun r' hr' => ⟨(hrs' r' hr').1, (hrs' r' hr').2.1, by have := (hrs' r' hr').2.2; simp; omega⟩)
        (hacc.cons hprev' hpr heven hc hlt) hrest

/-- `order_leaders` returns `L` last, after leaders of the DAG at even rounds
    between the committed round and `L`'s, in increasing round order. -/
theorem orderLeaders_ok {b : Bullshark} {L : Certificate} {s : ConsensusState}
    {leaders : List Certificate} (hs : s.Coherent)
    (h : orderLeaders cfg rng b L s = .ok leaders) :
    L.round % 2 = 0 ∧ leaders.getLast? = some L ∧
      leaders.Pairwise (fun x y => x.round < y.round) ∧
      ∀ x ∈ leaders, x ≠ L → x.round % 2 = 0 ∧ s.lastRound.committedRound < x.round ∧
        s.dag x.round x.origin = some x := by
  unfold orderLeaders at h
  split at h
  · exact absurd h Except.throw_ne_ok
  rename_i heven
  obtain ⟨⟨toCommit, cur⟩, hfold, h⟩ := Except.bind_eq_ok.mp h
  have hres : toCommit = leaders := Except.pure_eq_ok.mp h
  subst hres
  have hinit : OrderedLeaders s.dag s.lastRound.committedRound L ([L], L) :=
    ⟨rfl, List.pairwise_singleton _ _, rfl, fun x hx hxL => absurd (List.mem_singleton.mp hx) hxL⟩
  obtain ⟨-, hpw, hlast, hall⟩ := orderLeaders_fold hs.keys _ _ _
    (orderLeadersRounds_pairwise _ _)
    (fun r hr => by
      have := orderLeadersRounds_mem hr
      exact ⟨by omega, by omega, show r < L.round by omega⟩)
    hinit hfold
  exact ⟨by omega, hlast, hpw, hall⟩

/-- The loop of `commit_leader` commits a prefix of its ready leaders, one step
    each; when it stops for a changed schedule, the last leader is still above the
    committed round. -/
theorem commitLeaders_ok :
    ∀ (leaders : List Certificate) (acc : List CommittedSubDag) (b : Bullshark)
      (s : ConsensusState) {o : Outcome} {acc' : List CommittedSubDag} {b' : Bullshark}
      {s' : ConsensusState}, s.Coherent → LeadersReady s leaders →
      commitLeaders cfg leaders acc b s = .ok (o, acc', b', s') →
      ∃ sds, acc' = acc ++ sds ∧ CommitChain cfg b s sds b' s' ∧
        (o = .scheduleChanged →
          ∃ x, leaders.getLast? = some x ∧ s'.lastRound.committedRound < x.round)
  | [], acc, b, s, o, acc', b', s', _, _, h => by
    simp only [commitLeaders, Except.pure_eq_ok, Prod.mk.injEq] at h
    obtain ⟨rfl, rfl, rfl, rfl⟩ := h
    exact ⟨[], by simp, .nil b s, fun h => by cases h⟩
  | L :: rest, acc, b, s, o, acc', b', s', hs, hready, h => by
    unfold commitLeaders at h
    obtain ⟨sequence, horder, h⟩ := Except.bind_eq_ok.mp h
    obtain ⟨score, hscore, h⟩ := Except.bind_eq_ok.mp h
    obtain ⟨⟨changed, b₁⟩, hsched, h⟩ := Except.bind_eq_ok.mp h
    obtain ⟨heven, habove, hmem⟩ := hready.2 L List.mem_cons_self
    have hstep : CommitStep cfg b s
        (CommittedSubDag.new sequence L s.nextSubDagIndex score
          (sequence.foldl ConsensusState.update s).lastCommittedSubDag) b₁
        { (sequence.foldl ConsensusState.update s) with
          lastCommittedSubDag := some (CommittedSubDag.new sequence L s.nextSubDagIndex score
            (sequence.foldl ConsensusState.update s).lastCommittedSubDag) } :=
      { leader_even := heven, leader_above := habove, leader_mem := hmem, order := horder,
        score := hscore,
        subDag_eq := by rw [ConsensusState.foldl_update_lastCommittedSubDag]; rfl,
        state_eq := rfl, schedule := ⟨changed, hsched⟩ }
    have hs₁ := hstep.coherent hs
    have hready₁ := hready.tail hs hstep
    dsimp only at h
    split at h
    · -- A new schedule with leaders left: stop, and let the caller retry.
      rename_i hchanged
      simp only [Except.pure_eq_ok, Prod.mk.injEq] at h
      obtain ⟨rfl, rfl, rfl, rfl⟩ := h
      refine ⟨[_], rfl, .cons hstep (.nil _ _), fun _ => ?_⟩
      obtain ⟨-, hne⟩ := hchanged
      refine ⟨rest.getLast hne, by rw [List.getLast?_cons, List.getLast?_eq_some_getLast hne]; rfl, ?_⟩
      exact (hready₁.2 _ (List.getLast_mem hne)).2.1
    · obtain ⟨sds, hacc, hchain, hsc⟩ := commitLeaders_ok rest _ _ _ hs₁ hready₁ h
      refine ⟨_ :: sds, ?_, .cons hstep hchain, fun ho => ?_⟩
      · rw [hacc, List.append_assoc, List.singleton_append]
      obtain ⟨x, hx, hlt⟩ := hsc ho
      exact ⟨x, by rw [List.getLast?_cons, hx]; rfl, hlt⟩

/-- `commit_leader` commits the chain of leaders ending at the leader of round
    `r`, or nothing. -/
theorem commitLeader_ok {r : Nat} {b b' : Bullshark} {s s' : ConsensusState} {o : Outcome}
    {sds : List CommittedSubDag} (hs : s.Coherent) (hr : s.lastRound.committedRound < r)
    (h : commitLeader cfg rng r b s = .ok (o, sds, b', s')) :
    CommitChain cfg b s sds b' s' ∧ (o = .scheduleChanged → s'.lastRound.committedRound < r) := by
  unfold commitLeader at h
  obtain ⟨⟨id, leader⟩, hlc, h⟩ := Except.bind_eq_ok.mp h
  have hleader := leaderCertificate_ok hlc
  cases leader with
  | none =>
    simp only [Except.pure_eq_ok, Prod.mk.injEq] at h
    obtain ⟨rfl, rfl, rfl, rfl⟩ := h
    exact ⟨.nil b s, fun h => by cases h⟩
  | some L =>
    obtain ⟨hLr, hLo⟩ := hs.keys _ _ _ hleader.symm
    have hLmem : s.dag L.round L.origin = some L := by rw [hLr, hLo]; exact hleader.symm
    simp only at h
    split at h
    · exact absurd h Except.throw_ne_ok
    split at h
    · simp only [Except.pure_eq_ok, Prod.mk.injEq] at h
      obtain ⟨rfl, rfl, rfl, rfl⟩ := h
      exact ⟨.nil b s, fun h => by cases h⟩
    obtain ⟨leaders, hlead, h⟩ := Except.bind_eq_ok.mp h
    obtain ⟨heven, hlast, hpw, hall⟩ := orderLeaders_ok hs hlead
    -- The leader of round `r` and the earlier leaders linked to it are ready.
    have hready : LeadersReady s leaders := by
      refine ⟨hpw, fun x hx => ?_⟩
      by_cases hxL : x = L
      · subst hxL
        exact ⟨heven, hLr ▸ hr, hLmem⟩
      · exact hall x hx hxL
    obtain ⟨sds', hacc, hchain, hsc⟩ := commitLeaders_ok _ _ _ _ hs hready h
    rw [List.nil_append] at hacc
    subst hacc
    refine ⟨hchain, fun ho => ?_⟩
    obtain ⟨x, hx, hlt⟩ := hsc ho
    rw [hlast, Option.some.injEq] at hx
    subst hx
    exact hLr ▸ hlt

/-- The retry loop of `process_certificate` strings the chains of its tries. -/
theorem commitUntilStable_ok {r : Nat} :
    ∀ (fuel : Nat) (acc : List CommittedSubDag) (b : Bullshark) (s : ConsensusState)
      {o : Outcome} {acc' : List CommittedSubDag} {b' : Bullshark} {s' : ConsensusState},
      s.Coherent → s.lastRound.committedRound < r →
      commitUntilStable cfg rng r fuel acc b s = .ok (o, acc', b', s') →
      ∃ sds, acc' = acc ++ sds ∧ CommitChain cfg b s sds b' s'
  | 0, _, _, _, _, _, _, _, _, _, h => absurd h Except.throw_ne_ok
  | fuel + 1, acc, b, s, o, acc', b', s', hs, hr, h => by
    unfold commitUntilStable at h
    obtain ⟨⟨o₁, sds₁, b₁, s₁⟩, h₁, h⟩ := Except.bind_eq_ok.mp h
    obtain ⟨hchain₁, hsc⟩ := commitLeader_ok hs hr h₁
    dsimp only at h
    split at h
    · rename_i ho
      obtain ⟨sds₂, hacc, hchain₂⟩ :=
        commitUntilStable_ok fuel _ _ _ (hchain₁.coherent hs) (hsc ho) h
      exact ⟨sds₁ ++ sds₂, by simp [hacc], hchain₁.append hchain₂⟩
    · simp only [Except.pure_eq_ok, Prod.mk.injEq] at h
      obtain ⟨rfl, rfl, rfl, rfl⟩ := h
      exact ⟨sds₁, rfl, hchain₁⟩

/-- **What one `process_certificate` does**: `try_insert`, then a chain of commit
    steps whose sub-dags are what the call returns. -/
theorem processCertificate_ok {c c' : Consensus} {x : Certificate} {o : Outcome}
    {sds : List CommittedSubDag} (hs : c.state.Coherent)
    (h : processCertificate cfg rng c x = .ok (o, sds, c')) :
    ∃ inserted s₁, c.state.tryInsert cfg.committee.authorities x = .ok (inserted, s₁) ∧
      CommitChain cfg c.protocol s₁ sds c'.protocol c'.state := by
  unfold processCertificate at h
  obtain ⟨⟨inserted, s₁⟩, hins, h⟩ := Except.bind_eq_ok.mp h
  refine ⟨inserted, s₁, hins, ?_⟩
  have hs₁ := hs.tryInsert hins
  simp only at h
  -- The three ways out before a leader is tried change the state by the insertion only.
  split at h
  · simp only [Except.pure_eq_ok, Prod.mk.injEq] at h
    obtain ⟨-, rfl, rfl⟩ := h
    exact .nil _ _
  split at h
  · simp only [Except.pure_eq_ok, Prod.mk.injEq] at h
    obtain ⟨-, rfl, rfl⟩ := h
    exact .nil _ _
  split at h
  · simp only [Except.pure_eq_ok, Prod.mk.injEq] at h
    obtain ⟨-, rfl, rfl⟩ := h
    exact .nil _ _
  rename_i hlead
  obtain ⟨⟨o₁, committed, b, s₂⟩, hcu, h⟩ := Except.bind_eq_ok.mp h
  obtain ⟨sds', hacc, hchain⟩ := commitUntilStable_ok _ _ _ _ hs₁ (by omega) hcu
  rw [List.nil_append] at hacc
  subst hacc
  simp only at h
  split at h
  · rename_i hempty
    simp only [Except.pure_eq_ok, Prod.mk.injEq] at h
    obtain ⟨-, rfl, rfl⟩ := h
    rw [List.isEmpty_iff] at hempty
    exact hempty ▸ hchain
  · simp only [Except.pure_eq_ok, Prod.mk.injEq] at h
    obtain ⟨-, rfl, rfl⟩ := h
    exact hchain

end Calls

end Bullshark

end Mango.Narwhal
