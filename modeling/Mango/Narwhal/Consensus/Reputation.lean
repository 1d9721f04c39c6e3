/-
  Mango.Narwhal.Consensus.Reputation

  The reputation scores Bullshark stores in its sub-dags, over whole runs of
  the consensus task from `ConsensusState::new`. The score of an authority in
  the sub-dag of index `k` counts its certificates that point at the previous
  sub-dag's leader, in the sub-dags of the schedule window of `k`: from
  `max(1, N * floor(k / N))` to `k`, for `N` sub-dags per schedule. Every member
  of the committee has an entry, zero when never credited, and the scores are
  final exactly when `k + 1` is a multiple of `N`. The swap table in force is
  the one built from the latest final scores.

  `resolve_reputation_score` resets at index 1 and at multiples of `N` and
  carries the previous sub-dag's scores otherwise: the windows are what the
  reset test cuts out of the index line (`windowScore_eq_add_credit`). The
  scores stay tables over the committee because the closing assertion on
  their size rules out a credit to an origin outside it.
-/
import Mango.Narwhal.Consensus.Run

namespace Mango.Narwhal

open Mango.Lib

/-! ## Score tables over the committee -/

namespace ReputationScores

/-- The entries of a score table over `authorities`, in their order. -/
def scoreTable (authorities : List Nat) (f : Nat → Nat) : List (Nat × Nat) :=
  authorities.map fun a => (a, f a)

/-- A credit to a member of the table adds to its entry alone. -/
theorem addScore_scoreTable {authorities : List Nat} {f : Nat → Nat} {final : Bool} {a : Nat}
    (ha : a ∈ authorities) (n : Nat) :
    (⟨scoreTable authorities f, final⟩ : ReputationScores).addScore a n =
      ⟨scoreTable authorities fun b => if b = a then f b + n else f b, final⟩ := by
  have hany : (scoreTable authorities f).any (·.1 == a) = true := by
    simpa [scoreTable, List.any_eq_true] using ha
  unfold addScore
  rw [if_pos hany]
  simp only [scoreTable, List.map_map, ReputationScores.mk.injEq, and_true]
  apply List.map_congr_left
  intro b _
  by_cases hb : b = a <;> simp [hb]

/-- A credit never removes an entry. -/
theorem totalAuthorities_le_addScore (s : ReputationScores) (a n : Nat) :
    s.totalAuthorities ≤ (s.addScore a n).totalAuthorities := by
  unfold addScore totalAuthorities
  split <;> simp

/-- A credit to an authority without an entry adds one. -/
theorem totalAuthorities_addScore_of_not_mem {s : ReputationScores} {a : Nat} (n : Nat)
    (h : a ∉ s.scoresPerAuthority.map (·.1)) :
    (s.addScore a n).totalAuthorities = s.totalAuthorities + 1 := by
  have hany : s.scoresPerAuthority.any (·.1 == a) = false := by
    rw [List.any_eq_false]
    intro e he heq
    exact h (List.mem_map.mpr ⟨e, he, beq_iff_eq.mp heq⟩)
  simp [addScore, hany, totalAuthorities]

/-- The loop of `resolve_reputation_score`: one point to the origin of every
    certificate that has the digest `d` among its parents. -/
def credited (d : Nat) (base : ReputationScores) (sequence : List Certificate) :
    ReputationScores :=
  sequence.foldl (fun (score : ReputationScores) (c : Certificate) =>
    if c.parents.any (· == d) then score.addScore c.origin 1 else score) base

theorem credited_cons (d : Nat) (base : ReputationScores) (c : Certificate)
    (rest : List Certificate) :
    credited d base (c :: rest) =
      credited d (if c.parents.any (· == d) then base.addScore c.origin 1 else base) rest := rfl

theorem totalAuthorities_le_credited (d : Nat) :
    ∀ (base : ReputationScores) (sequence : List Certificate),
      base.totalAuthorities ≤ (credited d base sequence).totalAuthorities
  | _, [] => le_refl _
  | base, c :: rest => by
    rw [credited_cons]
    refine le_trans ?_ (totalAuthorities_le_credited d _ rest)
    split
    · exact totalAuthorities_le_addScore _ _ _
    · exact le_refl _

theorem any_beq_iff_mem {d : Nat} {parents : List Nat} : parents.any (· == d) = true ↔ d ∈ parents := by
  simp [List.any_eq_true]

/-- **Crediting keeps a table over the committee** when the result has as many
    entries as the committee: each member's entry grows by the number of its
    certificates that point at `d`. The induction is on the sequence; a credit to
    an origin outside the committee adds an entry that no later credit removes,
    which the size rules out. -/
theorem credited_scoreTable {authorities : List Nat} (d : Nat) (final : Bool) :
    ∀ (sequence : List Certificate) (f : Nat → Nat),
      (credited d ⟨scoreTable authorities f, final⟩ sequence).totalAuthorities =
          authorities.length →
      credited d ⟨scoreTable authorities f, final⟩ sequence =
        ⟨scoreTable authorities fun a =>
          f a + (sequence.filter fun c => c.origin = a ∧ d ∈ c.parents).length, final⟩
  | [], f, _ => by simp [credited]
  | c :: rest, f, h => by
    rw [credited_cons] at h ⊢
    by_cases hc : c.parents.any (· == d) = true
    · rw [if_pos hc] at h ⊢
      have hd : d ∈ c.parents := any_beq_iff_mem.mp hc
      by_cases ho : c.origin ∈ authorities
      · rw [addScore_scoreTable ho] at h ⊢
        rw [credited_scoreTable d final rest _ h]
        congr 2
        funext a
        by_cases hao : a = c.origin
        · subst hao
          simp [hd]
          omega
        · have hne : c.origin ≠ a := fun h => hao h.symm
          simp [hao, hne]
      · -- The credit to an outsider adds an entry: the size check fails.
        exfalso
        have hgrow := totalAuthorities_addScore_of_not_mem 1
          (s := ⟨scoreTable authorities f, final⟩) (by simpa [scoreTable] using ho)
        have hle := totalAuthorities_le_credited d
          ((⟨scoreTable authorities f, final⟩ : ReputationScores).addScore c.origin 1) rest
        simp only [totalAuthorities, scoreTable, List.length_map] at hgrow h hle
        omega
    · rw [if_neg hc] at h ⊢
      have hd : d ∉ c.parents := fun hd => hc (any_beq_iff_mem.mpr hd)
      rw [credited_scoreTable d final rest f h]
      congr 2
      funext a
      simp [hd]

/-- The scores after the loop of `resolve_reputation_score`: credited for the
    leader of the last sub-dag, when there is one. -/
def creditLast (last : Option CommittedSubDag) (base : ReputationScores)
    (sequence : List Certificate) : ReputationScores :=
  match last with
  | some last => credited last.leader.digest base sequence
  | none => base

end ReputationScores

/-! ## Schedule windows -/

/-- `max(1, N * floor(k / N))`: the first index of the schedule window of the
    sub-dag index `k`. -/
def windowStart (N k : Nat) : Nat := max 1 (N * (k / N))

/-- What the sub-dag at position `i` of a run (index `i + 1`) credits `a` with:
    its certificates of origin `a` that have the leader of the sub-dag before
    among their parents. The first sub-dag has none before it. -/
def credit (outs : List CommittedSubDag) : Nat → Nat → Nat
  | 0, _ => 0
  | i + 1, a =>
    match outs[i]?, outs[i + 1]? with
    | some previous, some subDag =>
      (subDag.certificates.filter fun c =>
        c.origin = a ∧ previous.leader.digest ∈ c.parents).length
    | _, _ => 0

/-- The score of `a` in the sub-dag at position `j` of a run: the credits of the
    sub-dags with index from `windowStart N (j + 1)` to `j + 1`. -/
def windowScore (N : Nat) (outs : List CommittedSubDag) (j a : Nat) : Nat :=
  ((List.range' (windowStart N (j + 1) - 1) (j + 2 - windowStart N (j + 1))).map
    fun i => credit outs i a).sum

/-- The scores the sub-dag at position `j` should carry: the window scores of
    every member of the committee, final when the next index ends a schedule. -/
def windowScores (cfg : BullsharkConfig) (outs : List CommittedSubDag) (j : Nat) :
    ReputationScores :=
  ⟨ReputationScores.scoreTable cfg.committee.authorities
      (windowScore cfg.numSubDagsPerSchedule outs j),
    decide ((j + 2) % cfg.numSubDagsPerSchedule = 0)⟩

theorem one_le_windowStart (N k : Nat) : 1 ≤ windowStart N k := le_max_left _ _

theorem windowStart_le {N k : Nat} (hk : 1 ≤ k) : windowStart N k ≤ k := by
  unfold windowStart
  have := Nat.mul_div_le k N
  omega

/-- A reset index starts its own window. -/
theorem windowStart_of_reset {N k : Nat} (hk : 1 ≤ k) (h : k = 1 ∨ k % N = 0) :
    windowStart N k = k := by
  unfold windowStart
  rcases h with rfl | h
  · rcases Nat.lt_or_ge 1 N with hN | hN
    · rw [Nat.div_eq_of_lt hN]
      rfl
    · obtain rfl | rfl : N = 0 ∨ N = 1 := by omega
      all_goals rfl
  · rw [Nat.mul_div_cancel' (Nat.dvd_of_mod_eq_zero h)]
    omega

/-- Any other index stays in the window of the index before it. -/
theorem windowStart_of_carry {N k : Nat} (hk : k ≠ 1) (h : k % N ≠ 0) :
    windowStart N k = windowStart N (k - 1) := by
  have hk0 : k ≠ 0 := by
    rintro rfl
    simp at h
  obtain ⟨m, rfl⟩ : ∃ m, k = m + 1 := ⟨k - 1, by omega⟩
  -- `m + 1` is not a multiple of `N`, so `m` has the same quotient.
  have hdiv : (m + 1) / N = m / N :=
    Nat.succ_div_of_not_dvd fun hdvd => h (Nat.mod_eq_zero_of_dvd hdvd)
  rw [Nat.add_sub_cancel]
  unfold windowStart
  rw [hdiv]

/-! ## The window scores, one sub-dag at a time -/

/-- A credit only reads the sub-dags up to its own position. -/
theorem credit_append {outs : List CommittedSubDag} (more : List CommittedSubDag) {i : Nat}
    (hi : i < outs.length) (a : Nat) : credit (outs ++ more) i a = credit outs i a := by
  cases i with
  | zero => rfl
  | succ i =>
    simp only [credit, List.getElem?_append_left hi, List.getElem?_append_left (Nat.lt_of_succ_lt hi)]

theorem windowScore_append {N : Nat} {outs : List CommittedSubDag} (more : List CommittedSubDag)
    {j : Nat} (hj : j < outs.length) (a : Nat) :
    windowScore N (outs ++ more) j a = windowScore N outs j a := by
  unfold windowScore
  congr 1
  apply List.map_congr_left
  intro i hi
  have := one_le_windowStart N (j + 1)
  rw [List.mem_range'_1] at hi
  exact credit_append more (by omega) a

theorem windowScores_append {cfg : BullsharkConfig} {outs : List CommittedSubDag}
    (more : List CommittedSubDag) {j : Nat} (hj : j < outs.length) :
    windowScores cfg (outs ++ more) j = windowScores cfg outs j := by
  unfold windowScores
  congr 2
  funext a
  exact windowScore_append more hj a

/-- **The window scores follow `resolve_reputation_score`'s recursion**: a reset
    index scores its own credits, any other the previous index's scores plus its
    own credits. -/
theorem windowScore_eq_add_credit (N : Nat) (outs : List CommittedSubDag) (j a : Nat) :
    windowScore N outs j a =
      (if j + 1 = 1 ∨ (j + 1) % N = 0 then 0 else windowScore N outs (j - 1) a) +
        credit outs j a := by
  split
  · -- The window of a reset index is the index alone.
    rename_i hreset
    unfold windowScore
    rw [windowStart_of_reset (Nat.le_add_left 1 j) hreset]
    simp
  · rename_i hcarry
    rw [not_or] at hcarry
    have hj : 1 ≤ j := by omega
    have hstart : windowStart N (j + 1) = windowStart N (j - 1 + 1) := by
      rw [windowStart_of_carry hcarry.1 hcarry.2, Nat.add_sub_cancel, Nat.sub_add_cancel hj]
    have hle := windowStart_le (N := N) (k := j - 1 + 1) (Nat.le_add_left 1 _)
    have h1 := one_le_windowStart N (j - 1 + 1)
    -- The window of `j` is the window of `j - 1` with `j` at its end.
    have hrange : List.range' (windowStart N (j - 1 + 1) - 1) (j + 2 - windowStart N (j - 1 + 1)) =
        List.range' (windowStart N (j - 1 + 1) - 1) (j - 1 + 2 - windowStart N (j - 1 + 1)) ++
          [j] := by
      have hn : j + 2 - windowStart N (j - 1 + 1) = (j - 1 + 2 - windowStart N (j - 1 + 1)) + 1 := by
        omega
      rw [hn, List.range'_concat]
      congr 2
      omega
    unfold windowScore
    rw [hstart, hrange, List.map_append, List.sum_append]
    simp

/-! ## `resolve_reputation_score` -/

namespace Bullshark

variable {cfg : BullsharkConfig}

/-- **What `resolve_reputation_score` computes**: the base of the window (fresh
    scores at a reset, the last sub-dag's otherwise), credited for the last
    leader when there is one, marked final by the next index, of the size of the
    committee. -/
theorem resolveReputationScore_ok {state : ConsensusState} {sequence : List Certificate}
    {k : Nat} {score : ReputationScores}
    (h : resolveReputationScore cfg state sequence k = .ok score) :
    ∃ base : ReputationScores,
      (if k = 1 ∨ k % cfg.numSubDagsPerSchedule = 0 then base = ReputationScores.new cfg.committee
        else ∃ last, state.lastCommittedSubDag = some last ∧ base = last.reputationScore) ∧
      score = ⟨(ReputationScores.creditLast state.lastCommittedSubDag base sequence).scoresPerAuthority,
        decide ((k + 1) % cfg.numSubDagsPerSchedule = 0)⟩ ∧
      score.totalAuthorities = cfg.committee.size := by
  unfold resolveReputationScore at h
  by_cases hN : cfg.numSubDagsPerSchedule = 0
  · simp [hN] at h
  by_cases hreset : k = 1 ∨ k % cfg.numSubDagsPerSchedule = 0
  · -- A reset starts from `ReputationScores::new`.
    simp only [hN, hreset, if_true, if_false, pure_bind] at h
    obtain ⟨hsize, rfl⟩ := Except.ite_throw_pure_eq_ok.mp h
    exact ⟨_, by rw [if_pos hreset], rfl, not_not.mp hsize⟩
  · -- Otherwise the last sub-dag's scores are carried, and must exist.
    simp only [hN, hreset, if_false] at h
    cases hlast : state.lastCommittedSubDag with
    | none =>
      simp only [hlast] at h
      exact absurd h Except.throw_bind_ne_ok
    | some last =>
      simp only [hlast, pure_bind] at h
      obtain ⟨hsize, rfl⟩ := Except.ite_throw_pure_eq_ok.mp h
      exact ⟨last.reputationScore, by rw [if_neg hreset]; exact ⟨last, rfl, rfl⟩, rfl,
        not_not.mp hsize⟩

end Bullshark

/-! ## The invariant of a run -/

/-- The swap table in force after the sub-dags `outs`, from a start whose table
    was `table₀`: the one `LeaderSwapTable::new` builds from the latest final
    scores, at their leader's round, or `table₀` while no scores were final. -/
def SwapTableInForce (cfg : BullsharkConfig) (table₀ : LeaderSwapTable)
    (outs : List CommittedSubDag) (table : LeaderSwapTable) : Prop :=
  match (outs.filter (·.reputationScore.finalOfSchedule)).getLast? with
  | some sd =>
    LeaderSwapTable.new cfg.committee sd.leader.round sd.reputationScore
      cfg.badNodesStakeThreshold = .ok table
  | none => table = table₀

/-- What `update_leader_schedule` does with one more sub-dag keeps the table in
    force. -/
theorem SwapTableInForce.append {cfg : BullsharkConfig} {table₀ table table' : LeaderSwapTable}
    {outs : List CommittedSubDag} {sd : CommittedSubDag}
    (h : SwapTableInForce cfg table₀ outs table)
    (hnext : if sd.reputationScore.finalOfSchedule then
        LeaderSwapTable.new cfg.committee sd.leader.round sd.reputationScore
          cfg.badNodesStakeThreshold = .ok table'
      else table' = table) :
    SwapTableInForce cfg table₀ (outs ++ [sd]) table' := by
  unfold SwapTableInForce
  by_cases hf : sd.reputationScore.finalOfSchedule = true
  · rw [if_pos hf] at hnext
    simp [List.filter_append, hf, hnext]
  · rw [if_neg hf] at hnext
    subst hnext
    have hnil : [sd].filter (·.reputationScore.finalOfSchedule) = [] := by simp [hf]
    rw [List.filter_append, hnil, List.append_nil]
    exact h

namespace Bullshark

/-- The invariant of a run that has sent `outs` and reached the protocol `b` and
    the state `s`, from a fresh state and the swap table `table₀`: the last sub-dag
    is the last one sent, indices count the sub-dags from one, every sub-dag
    carries its window scores, and the table is the one in force. -/
structure ScoresInv (cfg : BullsharkConfig) (table₀ : LeaderSwapTable)
    (outs : List CommittedSubDag) (b : Bullshark) (s : ConsensusState) : Prop where
  last : s.lastCommittedSubDag = outs.getLast?
  index : ∀ j sd, outs[j]? = some sd → sd.subDagIndex = j + 1
  scores : ∀ j sd, outs[j]? = some sd → sd.reputationScore = windowScores cfg outs j
  table : SwapTableInForce cfg table₀ outs b.leaderSwapTable

namespace ScoresInv

variable {cfg : BullsharkConfig} {table₀ : LeaderSwapTable} {outs : List CommittedSubDag}
  {b b' : Bullshark} {s s' : ConsensusState}

/-- A fresh state has sent nothing. -/
theorem init (b : Bullshark) (gcDepth : Nat) :
    ScoresInv cfg b.leaderSwapTable [] b (ConsensusState.new gcDepth) where
  last := rfl
  index _ _ h := by simp at h
  scores _ _ h := by simp at h
  table := rfl

theorem nextSubDagIndex (hI : ScoresInv cfg table₀ outs b s) :
    s.nextSubDagIndex = outs.length + 1 := by
  unfold ConsensusState.nextSubDagIndex
  rw [hI.last, List.getLast?_eq_getElem?]
  cases hlast : outs[outs.length - 1]? with
  | none =>
    have hlen : outs.length = 0 := by
      have := List.getElem?_eq_none_iff.mp hlast
      omega
    simp [hlen]
  | some sd =>
    have hlen : 0 < outs.length := by
      by_contra hzero
      rw [List.getElem?_eq_none_iff.mpr (by omega)] at hlast
      cases hlast
    simp only [Option.map_some, Option.getD_some, hI.index _ _ hlast]
    omega

theorem tryInsert {authorities : List Nat} {x : Certificate} {inserted : Bool}
    (hI : ScoresInv cfg table₀ outs b s) (h : s.tryInsert authorities x = .ok (inserted, s')) :
    ScoresInv cfg table₀ outs b s' := by
  obtain ⟨dag', -, rfl⟩ := ConsensusState.tryInsert_ok h
  exact { hI with last := hI.last }

/-- The base `resolve_reputation_score` starts from at the next index: fresh
    scores at a reset, the window scores of the last sub-dag otherwise. -/
theorem base_eq (hI : ScoresInv cfg table₀ outs b s) {base : ReputationScores}
    (hbase : if outs.length + 1 = 1 ∨ (outs.length + 1) % cfg.numSubDagsPerSchedule = 0 then
        base = ReputationScores.new cfg.committee
      else ∃ last, outs.getLast? = some last ∧ base = last.reputationScore)
    (more : List CommittedSubDag) :
    ∃ g final, base = ⟨ReputationScores.scoreTable cfg.committee.authorities g, final⟩ ∧
      ∀ a, g a = if outs.length + 1 = 1 ∨ (outs.length + 1) % cfg.numSubDagsPerSchedule = 0 then 0
        else windowScore cfg.numSubDagsPerSchedule (outs ++ more) (outs.length - 1) a := by
  split at hbase
  · rename_i hreset
    refine ⟨fun _ => 0, false, hbase, fun a => ?_⟩
    rw [if_pos hreset]
  · rename_i hcarry
    obtain ⟨last, hlast, rfl⟩ := hbase
    rw [List.getLast?_eq_getElem?] at hlast
    have hlen : outs.length - 1 < outs.length := by
      by_contra hge
      rw [List.getElem?_eq_none_iff.mpr (by omega)] at hlast
      cases hlast
    refine ⟨windowScore cfg.numSubDagsPerSchedule outs (outs.length - 1),
      last.reputationScore.finalOfSchedule, ?_, fun a => ?_⟩
    · rw [hI.scores _ _ hlast]
      rfl
    · rw [if_neg hcarry, windowScore_append more hlen]

/-- The credits of the next sub-dag are those of the loop over its certificates
    for the last leader. -/
theorem scored_eq (hI : ScoresInv cfg table₀ outs b s) {sd : CommittedSubDag} {g : Nat → Nat}
    {final : Bool}
    (hsize : (ReputationScores.creditLast outs.getLast?
        ⟨ReputationScores.scoreTable cfg.committee.authorities g, final⟩
        sd.certificates).totalAuthorities = cfg.committee.authorities.length) :
    (ReputationScores.creditLast outs.getLast?
        ⟨ReputationScores.scoreTable cfg.committee.authorities g, final⟩
        sd.certificates).scoresPerAuthority =
      ReputationScores.scoreTable cfg.committee.authorities
        fun a => g a + credit (outs ++ [sd]) outs.length a := by
  unfold ReputationScores.creditLast at hsize ⊢
  cases hlast : outs.getLast? with
  | none =>
    -- Nothing was sent before: the first sub-dag credits no one.
    rw [List.getLast?_eq_none_iff.mp hlast]
    rfl
  | some last =>
    rw [hlast] at hsize
    dsimp only at hsize ⊢
    rw [ReputationScores.credited_scoreTable _ _ _ _ hsize]
    obtain ⟨m, hm⟩ : ∃ m, outs.length = m + 1 := by
      cases outs with
      | nil => cases hlast
      | cons x rest => exact ⟨rest.length, rfl⟩
    have hprev : (outs ++ [sd])[m]? = some last := by
      rw [List.getElem?_append_left (by omega), ← hlast, List.getLast?_eq_getElem?, hm]
      rfl
    have hnext : (outs ++ [sd])[m + 1]? = some sd := by
      rw [List.getElem?_append_right (by omega), hm, Nat.sub_self]
      rfl
    simp only [hm, credit, hprev, hnext]

/-- **One commit gives the sub-dag its window scores.** -/
theorem reputationScore_of_step (hI : ScoresInv cfg table₀ outs b s) {sd : CommittedSubDag}
    (h : CommitStep cfg b s sd b' s') :
    sd.reputationScore = windowScores cfg (outs ++ [sd]) outs.length := by
  have hscore := h.score
  rw [hI.nextSubDagIndex] at hscore
  obtain ⟨base, hbase, heq, hsize⟩ := resolveReputationScore_ok hscore
  rw [ConsensusState.foldl_update_lastCommittedSubDag, hI.last] at hbase heq
  obtain ⟨g, final, rfl, hg⟩ := hI.base_eq hbase [sd]
  have hlen : cfg.committee.authorities.length = cfg.committee.size := List.length_range
  have hsize' : (ReputationScores.creditLast outs.getLast?
      ⟨ReputationScores.scoreTable cfg.committee.authorities g, final⟩
      sd.certificates).totalAuthorities = cfg.committee.authorities.length := by
    rw [hlen, ← hsize, heq]
    rfl
  rw [heq, windowScores, ReputationScores.mk.injEq]
  refine ⟨?_, rfl⟩
  -- The scores: the base's plus the new sub-dag's credits, the window's recursion.
  rw [scored_eq hI hsize']
  congr 1
  funext a
  rw [windowScore_eq_add_credit, hg]

/-- **One commit step keeps the invariant.** -/
theorem step (hI : ScoresInv cfg table₀ outs b s) {sd : CommittedSubDag}
    (h : CommitStep cfg b s sd b' s') : ScoresInv cfg table₀ (outs ++ [sd]) b' s' where
  last := by simp [h.lastCommittedSubDag]
  index j sd' hj := by
    rcases Mango.Lib.getElem?_append_singleton hj with ⟨-, hj⟩ | ⟨rfl, rfl⟩
    · exact hI.index j sd' hj
    · rw [h.subDagIndex, hI.nextSubDagIndex]
  scores j sd' hj := by
    rcases Mango.Lib.getElem?_append_singleton hj with ⟨hlt, hj⟩ | ⟨rfl, rfl⟩
    · rw [windowScores_append _ hlt]
      exact hI.scores j sd' hj
    · exact hI.reputationScore_of_step h
  table := by
    obtain ⟨changed, hsched⟩ := h.schedule
    exact hI.table.append (updateLeaderSchedule_ok hsched).2

theorem chain {sds : List CommittedSubDag} (hI : ScoresInv cfg table₀ outs b s)
    (h : CommitChain cfg b s sds b' s') : ScoresInv cfg table₀ (outs ++ sds) b' s' := by
  induction h generalizing outs with
  | nil => simpa using hI
  | cons hstep _ ih =>
    rw [← List.singleton_append, ← List.append_assoc]
    exact ih (hI.step hstep)

theorem processCertificate {rng : LeaderRng} {c c' : Consensus} {x : Certificate}
    {o : Outcome} {sds : List CommittedSubDag} (hs : c.state.Coherent)
    (hI : ScoresInv cfg table₀ outs c.protocol c.state)
    (h : Bullshark.processCertificate cfg rng c x = .ok (o, sds, c')) :
    c'.state.Coherent ∧ ScoresInv cfg table₀ (outs ++ sds) c'.protocol c'.state := by
  obtain ⟨inserted, s₁, hins, hchain⟩ := processCertificate_ok hs h
  exact ⟨hchain.coherent (hs.tryInsert hins), (hI.tryInsert hins).chain hchain⟩

end ScoresInv

end Bullshark

/-- **Reputation scores over a run.** Feed any certificates to the consensus task
    from a fresh state: the sub-dag at position `j` of what it sends has index
    `j + 1`, an entry for every member of the committee, in identifier order,
    holding the credits of the window of its index, and is final exactly when
    `j + 2` is a multiple of `N`; where the task ends, the swap table in force is
    the one built from the latest final scores. -/
theorem reputation_scores_follow_windows (cfg : BullsharkConfig) (rng : LeaderRng)
    (b₀ : Bullshark) (gcDepth : Nat) (certs : List Certificate) :
    let run := Consensus.runInner cfg rng ⟨b₀, ConsensusState.new gcDepth⟩ certs
    (∀ j sd, run.1[j]? = some sd → sd.subDagIndex = j + 1 ∧
      sd.reputationScore.scoresPerAuthority = ReputationScores.scoreTable
        cfg.committee.authorities (windowScore cfg.numSubDagsPerSchedule run.1 j) ∧
      sd.reputationScore.finalOfSchedule = decide ((j + 2) % cfg.numSubDagsPerSchedule = 0)) ∧
    ∀ c, run.2 = .ok c → SwapTableInForce cfg b₀.leaderSwapTable run.1 c.protocol.leaderSwapTable := by
  intro run
  obtain ⟨_, c', ⟨-, hI⟩, hc'⟩ := @Consensus.runInner_induct cfg rng
    (fun _ outs c => c.state.Coherent ∧
      Bullshark.ScoresInv cfg b₀.leaderSwapTable outs c.protocol c.state) certs
    (fun _ _ _ _ _ _ hP => hP)
    (fun _ _ _ _ _ _ _ _ _ hP h => hP.2.processCertificate hP.1 h)
    [] [] ⟨b₀, ConsensusState.new gcDepth⟩
    ⟨ConsensusState.coherent_new gcDepth, Bullshark.ScoresInv.init b₀ gcDepth⟩
  rw [List.nil_append] at hI
  refine ⟨fun j sd hj => ?_, fun c hc => ?_⟩
  · have hscores := hI.scores j sd hj
    exact ⟨hI.index j sd hj, by rw [hscores]; rfl, by rw [hscores]; rfl⟩
  · rw [(hc' c hc).1]
    exact hI.table

end Mango.Narwhal
