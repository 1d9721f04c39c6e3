/-
  Mango.Framework.PendingRemovals

  `process_pending_removals` after the requests of an epoch. A removal request
  records the position of its validator in `active_validators`; the joining
  validators are appended after the active ones before the removals run, and
  the removals pop the positions, sorted by `sort_removal_list`, from the
  largest down, each taking out the validator at its position.

  `RemovalInv` is what the requests keep: distinct addresses, and pending
  positions that are the positions of the validators that asked to leave, in
  the order they asked. `processPendingRemovals_active`: popping the largest
  position first leaves every position still to pop pointing at its
  validator, so the removals filter out the validators at the pending
  positions. `pending_removals_remove_requesters` puts the two together.
-/
import Mango.Framework.ValidatorSetState

namespace Mango.Framework

namespace ValidatorSet

open Mango.Lib

/-- The addresses of validators, in order. -/
def addresses (validators : List SetValidator) : List Nat := validators.map (·.mgoAddress)

theorem findValidator_toActive (validators : List SetValidator) (a : Nat) :
    findValidator (toActive validators) a = (addresses validators).findIdx? (· = a) := by
  simp [findValidator, toActive, addresses, List.findIdx?_map, Function.comp_def]

theorem isActive_toActive {validators : List SetValidator} {a : Nat} (h : a ∈ addresses validators) :
    isActiveValidatorByMgoAddress (toActive validators) a = true := by
  unfold isActiveValidatorByMgoAddress
  rw [findValidator_toActive, List.findIdx?_isSome, List.any_eq_true]
  exact ⟨a, h, by simp⟩

/-- Validators with the same addresses have the same positions. -/
theorem indexOf_toActive_congr {vs ws : List SetValidator} (h : addresses vs = addresses ws) :
    indexOf (toActive vs) = indexOf (toActive ws) := by
  funext a
  simp only [indexOf, findValidator_toActive, h]

/-- An address among the validators is the address of the validator at its position. -/
theorem getElem?_indexOf_toActive {validators : List SetValidator} {a : Nat} (h : a ∈ addresses validators) :
    ∃ v, validators[indexOf (toActive validators) a]? = some v ∧ v.mgoAddress = a := by
  obtain ⟨v, hv, hva⟩ := getElem?_indexOf (isActive_toActive h)
  rw [toActive, List.getElem?_map] at hv
  obtain ⟨w, hw, rfl⟩ := Option.map_eq_some_iff.mp hv
  exact ⟨w, hw, hva⟩

theorem addresses_set {validators : List SetValidator} {i : Nat} {v w : SetValidator}
    (hv : validators[i]? = some v) (hw : w.mgoAddress = v.mgoAddress) :
    addresses (validators.set i w) = addresses validators :=
  map_set_of_getElem? _ hv hw


@[simp] theorem Request.removals_append (l m : List Request) :
    Request.removals (l ++ m) = Request.removals l ++ Request.removals m := by
  induction l with
  | nil => rfl
  | cons r l ih => cases r <;> simp [Request.removals, ih]

/-- What the requests of an epoch keep, with `removed` the senders of its
    removal requests so far: distinct active addresses, distinct pending
    addresses apart from them, and for the pending removals the positions of
    the validators of `removed`, each active and asking once. -/
structure RemovalInv (validators : ValidatorSet) (removed : List Nat) : Prop where
  active_nodup : (addresses validators.activeValidators).Nodup
  pending_nodup : (addresses validators.pendingActiveValidators).Nodup
  pending_fresh : ∀ a ∈ addresses validators.pendingActiveValidators, a ∉ addresses validators.activeValidators
  removed_active : ∀ a ∈ removed, a ∈ addresses validators.activeValidators
  removed_nodup : removed.Nodup
  removals_eq : validators.pendingRemovals = removed.map (indexOf (toActive validators.activeValidators))

namespace RemovalInv

variable {self self' : ValidatorSet} {removed : List Nat}

/-- At the start of an epoch nothing is pending. -/
theorem start (hremovals : self.pendingRemovals = []) (hpending : self.pendingActiveValidators = [])
    (hnodup : (addresses self.activeValidators).Nodup) : RemovalInv self [] where
  active_nodup := hnodup
  pending_nodup := by simp [hpending, addresses]
  pending_fresh := by simp [hpending, addresses]
  removed_active := by simp
  removed_nodup := List.nodup_nil
  removals_eq := hremovals

/-- A request that keeps the addresses and the pending lists keeps the invariant. -/
theorem of_roster (h : RemovalInv self removed)
    (hactive : addresses self'.activeValidators = addresses self.activeValidators)
    (hpending : self'.pendingActiveValidators = self.pendingActiveValidators)
    (hremovals : self'.pendingRemovals = self.pendingRemovals) : RemovalInv self' removed where
  active_nodup := hactive ▸ h.active_nodup
  pending_nodup := hpending ▸ h.pending_nodup
  pending_fresh := hactive ▸ hpending ▸ h.pending_fresh
  removed_active := hactive ▸ h.removed_active
  removed_nodup := h.removed_nodup
  removals_eq := by rw [hremovals, h.removals_eq, indexOf_toActive_congr hactive]

/-- The pending removals are distinct positions of active validators. -/
theorem removals_nodup (h : RemovalInv self removed) : self.pendingRemovals.Nodup := by
  rw [h.removals_eq]
  exact h.removed_nodup.map_on fun a ha b hb hab =>
    indexOf_injOn (isActive_toActive (h.removed_active a ha)) (isActive_toActive (h.removed_active b hb)) hab

theorem removals_lt (h : RemovalInv self removed) :
    ∀ i ∈ self.pendingRemovals, i < self.activeValidators.length := by
  intro i hi
  rw [h.removals_eq] at hi
  obtain ⟨a, ha, rfl⟩ := List.mem_map.mp hi
  have hlt := indexOf_lt (isActive_toActive (h.removed_active a ha))
  simpa [toActive] using hlt

/-- A request of a new validator adds a validator of new addresses to the pending ones. -/
theorem addValidator (h : RemovalInv self removed) {validator : SetValidator}
    (hactive : isDuplicateValidator self.activeValidators validator = false)
    (hpending : isDuplicateValidator self.pendingActiveValidators validator = false) :
    RemovalInv { self with
      validatorCandidates := verase self.validatorCandidates sender
      pendingActiveValidators := self.pendingActiveValidators ++ [validator] } removed := by
  have hfresh : validator.mgoAddress ∉ addresses self.activeValidators := fun hmem =>
    absurd (isDuplicateValidator_of_mem hmem) (by simp [hactive])
  have hnew : validator.mgoAddress ∉ addresses self.pendingActiveValidators := fun hmem =>
    absurd (isDuplicateValidator_of_mem hmem) (by simp [hpending])
  refine ⟨h.active_nodup, ?_, ?_, h.removed_active, h.removed_nodup, h.removals_eq⟩
  · simp only [addresses, List.map_append, List.map_cons, List.map_nil] at hnew ⊢
    exact List.nodup_append.mpr ⟨h.pending_nodup, List.nodup_singleton _,
      fun a ha b hb hab => hnew (by simp at hb; exact hb ▸ hab ▸ ha)⟩
  · intro a ha
    simp only [addresses, List.map_append, List.map_cons, List.map_nil, List.mem_append,
      List.mem_singleton] at ha
    rcases ha with ha | rfl
    · exact h.pending_fresh a ha
    · exact hfresh

/-- A removal request adds the position of its sender. -/
theorem removeValidator (h : RemovalInv self removed) {sender i : Nat}
    (hi : findValidator (toActive self.activeValidators) sender = some i) (hnew : i ∉ self.pendingRemovals) :
    RemovalInv { self with pendingRemovals := self.pendingRemovals ++ [i] } (removed ++ [sender]) := by
  have hfind := hi
  rw [findValidator_toActive] at hfind
  obtain ⟨hlt, hp, -⟩ := List.findIdx?_eq_some_iff_getElem.mp hfind
  have hsender : sender ∈ addresses self.activeValidators := by
    have hmem := List.getElem_mem hlt
    rwa [of_decide_eq_true hp] at hmem
  have hidx : indexOf (toActive self.activeValidators) sender = i := by simp [indexOf, hi]
  refine ⟨h.active_nodup, h.pending_nodup, h.pending_fresh, ?_, ?_, ?_⟩
  · intro a ha
    rcases List.mem_append.mp ha with ha | ha
    · exact h.removed_active a ha
    · rw [List.mem_singleton.mp ha]
      exact hsender
  · -- a second request of the sender would have found its position pending
    refine List.nodup_append.mpr ⟨h.removed_nodup, List.nodup_singleton _, ?_⟩
    intro a ha b hb hab
    rw [List.mem_singleton] at hb
    subst hb hab
    apply hnew
    rw [h.removals_eq, ← hidx]
    exact List.mem_map_of_mem ha
  · simp [h.removals_eq, hidx]

/-- One request keeps the invariant, its sender joining the removed ones if
    it asks to leave. -/
theorem apply (h : RemovalInv self removed) {epoch : Nat} {r : Request}
    (hr : Request.apply epoch self r = .ok self') : RemovalInv self' (removed ++ Request.removals [r]) := by
  cases r with
  | addValidatorCandidate validator =>
    obtain ⟨-, -, -, -, -, rfl⟩ := requestAddValidatorCandidate_eq_ok self hr
    simp only [Request.removals, List.append_nil]
    exact h.of_roster rfl rfl rfl
  | removeValidatorCandidate sender =>
    obtain ⟨_, _, -, -, -, -, -, rfl⟩ := requestRemoveValidatorCandidate_eq_ok self hr
    simp only [Request.removals, List.append_nil]
    exact h.of_roster rfl rfl rfl
  | addValidator minJoiningStakeAmount sender =>
    obtain ⟨validator, -, hactive, hpending, -, -, rfl⟩ := requestAddValidator_eq_ok self hr
    simpa [Request.removals] using h.addValidator hactive hpending
  | removeValidator sender =>
    obtain ⟨i, hi, hnew, rfl⟩ := requestRemoveValidator_eq_ok self hr
    exact h.removeValidator hi hnew
  | addStake validatorAddress stake =>
    obtain ⟨result, hresult, rfl⟩ := Except.map_eq_ok.mp hr
    obtain ⟨-, ⟨v, added, -, -, rfl⟩ | ⟨-, i, v, added, -, hv, hadded, rfl⟩⟩ :=
      requestAddStake_eq_ok self hresult
    · simp only [Request.removals, List.append_nil]
      exact h.of_roster rfl rfl rfl
    · simp only [Request.removals, List.append_nil]
      exact h.of_roster (addresses_set hv (SetValidator.mgoAddress_of_requestAddStake hadded)) rfl rfl
  | setCommissionRate newCommissionRate sender =>
    obtain ⟨i, v, w, -, hv, hw, rfl⟩ := requestSetCommissionRate_eq_ok self hr
    simp only [Request.removals, List.append_nil]
    exact h.of_roster (addresses_set hv (SetValidator.mgoAddress_of_requestSetCommissionRate hw)) rfl rfl

/-- The invariant over a run of requests. -/
theorem requests (h : RemovalInv self removed) {epoch : Nat} {requests : List Request}
    (hrun : requests.foldlM (Request.apply epoch) self = .ok self') :
    RemovalInv self' (removed ++ Request.removals requests) := by
  refine foldlM_ok_prefix_inv (fun done acc => RemovalInv acc (removed ++ Request.removals done)) _ _
    ?_ (by simpa [Request.removals] using h) hrun
  intro done r rest acc acc' _ hacc hr
  simpa using hacc.apply hr

end RemovalInv

/-- The addresses of the validators at some positions. -/
def addressesAt (validators : List SetValidator) (positions : List Nat) : List Nat :=
  positions.filterMap fun i => validators[i]?.map (·.mgoAddress)

/-- Filtering keeps the addresses distinct. -/
theorem nodup_addresses_filter {validators : List SetValidator} (p : SetValidator → Bool)
    (h : (addresses validators).Nodup) : (addresses (validators.filter p)).Nodup :=
  h.sublist ((List.filter_sublist).map _)

/-- With distinct addresses, the validators up to a position below all of
    `positions` have addresses apart from theirs. -/
theorem not_mem_addressesAt_of_take {validators : List SetValidator} {positions : List Nat} {x : Nat}
    (hnodup : (addresses validators).Nodup) (hbelow : ∀ d ∈ positions, x < d) :
    ∀ y ∈ validators.take (x + 1), y.mgoAddress ∉ addressesAt validators positions := by
  intro y hy hmem
  obtain ⟨j, hj, rfl⟩ := List.getElem_of_mem hy
  obtain ⟨d, hd, hdy⟩ := List.mem_filterMap.mp hmem
  obtain ⟨w, hw, hwy⟩ := Option.map_eq_some_iff.mp hdy
  obtain ⟨hdlt, rfl⟩ := List.getElem?_eq_some_iff.mp hw
  have hjlen : j < x + 1 := by simp at hj; omega
  rw [List.getElem_take] at hwy
  -- equal addresses at `d` and `j` put them at one position
  have hdj : d = j := by
    have hlen : j < validators.length := by simp at hj; omega
    apply (@List.Nodup.getElem_inj_iff _ _ hnodup d (by simpa [addresses] using hdlt) j
      (by simpa [addresses] using hlen)).mp
    simpa [addresses] using hwy
  have := hbelow d hd
  omega

/-- **The removals take out the validators at the pending positions**, the
    others keeping their order, for distinct addresses and distinct positions
    in range. The loop pops the positions largest first, so that every
    position still to pop points at the validator it pointed at. -/
theorem processPendingRemovals_active {self : ValidatorSet} {records : VecMap Nat (List Nat)} {epoch : Nat}
    {result : ValidatorSet × VecMap Nat (List Nat)} (h : self.processPendingRemovals records epoch = .ok result)
    (hnodup : (addresses self.activeValidators).Nodup) (hrem : self.pendingRemovals.Nodup)
    (hlt : ∀ i ∈ self.pendingRemovals, i < self.activeValidators.length) :
    result.1.activeValidators = self.activeValidators.filter
        (fun v => v.mgoAddress ∉ addressesAt self.activeValidators self.pendingRemovals) ∧
      result.1.pendingRemovals = [] := by
  obtain ⟨hsorted, hperm⟩ := sortRemovalList_spec self.pendingRemovals
  have hmem : ∀ i, i ∈ (sortRemovalList self.pendingRemovals).reverse ↔ i ∈ self.pendingRemovals := by
    intro i
    rw [List.mem_reverse]
    exact hperm.mem_iff
  have hdesc : (sortRemovalList self.pendingRemovals).reverse.Pairwise (fun a b => b < a) := by
    rw [List.pairwise_reverse]
    exact (hsorted.and (hperm.nodup_iff.mpr hrem)).imp fun h => lt_of_le_of_ne h.1 h.2
  -- the validators popped so far are those at the positions popped
  have hfold := foldlM_ok_prefix_inv (fun done (acc : ValidatorSet × VecMap Nat (List Nat)) =>
      acc.1.activeValidators = self.activeValidators.filter
          (fun v => v.mgoAddress ∉ addressesAt self.activeValidators done) ∧
        acc.1.pendingRemovals = []) _ _ ?_ (by simp [addressesAt]) h
  · obtain ⟨hactive, hremovals⟩ := hfold
    refine ⟨hactive.trans (List.filter_congr fun v _ => ?_), hremovals⟩
    simp only [addressesAt, List.mem_filterMap, hmem]
  · intro done x rest acc acc' hl ⟨hacc, hremovals⟩ hstep
    have hx : x < self.activeValidators.length :=
      hlt x ((hmem x).mp (hl ▸ List.mem_append_right _ List.mem_cons_self))
    have hbelow : ∀ d ∈ done, x < d := by
      rw [hl] at hdesc
      exact fun d hd => (List.pairwise_append.mp hdesc).2.2 d hd x List.mem_cons_self
    have hget : acc.1.activeValidators[x]? = self.activeValidators[x]? := by
      rw [hacc]
      exact getElem?_filter_of_forall_take hx fun y hy =>
        decide_eq_true (not_mem_addressesAt_of_take hnodup hbelow y hy)
    obtain ⟨validator, hv, hdep⟩ := departAt_eq_ok _ hstep
    rw [hget] at hv
    obtain ⟨-, -, _, _, -, -, -, hacc'⟩ := processValidatorDeparture_eq_ok _ hdep
    refine ⟨?_, by rw [hacc']; exact hremovals⟩
    rw [hacc']
    show acc.1.activeValidators.eraseIdx x = _
    have hx' : x < acc.1.activeValidators.length := (List.getElem?_eq_some_iff.mp (hget.trans hv)).1
    have hvx : acc.1.activeValidators[x] = validator := by
      rw [← Option.some_inj, ← List.getElem?_eq_getElem hx', hget, hv]
    rw [eraseIdx_eq_filter_key (·.mgoAddress) hx' (by rw [hacc]; exact nodup_addresses_filter _ hnodup), hvx,
      hacc, List.filter_filter]
    apply List.filter_congr
    intro v _
    simp only [addressesAt, List.filterMap_append, List.filterMap_cons, List.filterMap_nil, hv,
      Option.map_some]
    by_cases hva : v.mgoAddress = validator.mgoAddress <;> simp [hva]

/-- The pending positions point, in the active validators and whatever
    follows them, at the validators that asked to leave. -/
theorem RemovalInv.mem_addressesAt {self : ValidatorSet} {removed : List Nat} (h : RemovalInv self removed)
    (extra : List SetValidator) {a : Nat} :
    a ∈ addressesAt (self.activeValidators ++ extra) self.pendingRemovals ↔ a ∈ removed := by
  have hat : ∀ b ∈ removed, (self.activeValidators ++ extra)[indexOf (toActive self.activeValidators) b]?.map
      (·.mgoAddress) = some b := by
    intro b hb
    obtain ⟨v, hv, rfl⟩ := getElem?_indexOf_toActive (h.removed_active b hb)
    rw [List.getElem?_append_left (List.getElem?_eq_some_iff.mp hv).1, hv]
    rfl
  simp only [addressesAt, h.removals_eq, List.filterMap_map, List.mem_filterMap, Function.comp_def]
  constructor
  · rintro ⟨b, hb, hab⟩
    rw [hat b hb, Option.some_inj] at hab
    exact hab ▸ hb
  · intro ha
    exact ⟨a, ha, hat a ha⟩

/-- Validators activated one by one keep their addresses. -/
theorem addresses_of_activate {vs ws : List SetValidator} {e : Nat}
    (h : List.Forall₂ (fun v w => v.activate e = some w) vs ws) : addresses ws = addresses vs := by
  induction h with
  | nil => rfl
  | cons hvw _ ih =>
    simp only [addresses, List.map_cons] at ih ⊢
    rw [SetValidator.mgoAddress_of_activate hvw, ih]

/-- **Pending removals remove exactly the requesters.** From the start of an
    epoch, with nothing pending and distinct active addresses, any run of
    requests followed by `process_pending_validators` and
    `process_pending_removals` takes out of `active_validators` the validators
    whose addresses asked to leave, all of them active; the others keep their
    order, and the joining validators, activated, follow them. -/
theorem pending_removals_remove_requesters {epoch : Nat} {requests : List Request}
    {self self₁ self₂ : ValidatorSet} {records : VecMap Nat (List Nat)}
    {result : ValidatorSet × VecMap Nat (List Nat)}
    (hremovals : self.pendingRemovals = []) (hpending : self.pendingActiveValidators = [])
    (hnodup : (addresses self.activeValidators).Nodup)
    (hrequests : requests.foldlM (Request.apply epoch) self = .ok self₁)
    (hjoin : self₁.processPendingValidators (epoch + 1) = .ok self₂)
    (hleave : self₂.processPendingRemovals records epoch = .ok result) :
    (∀ a ∈ Request.removals requests, a ∈ addresses self₁.activeValidators) ∧
      ∃ activated, List.Forall₂ (fun v w => v.activate (epoch + 1) = some w)
          self₁.pendingActiveValidators.reverse activated ∧
        self₂.activeValidators = self₁.activeValidators ++ activated ∧
        result.1.activeValidators =
          self₁.activeValidators.filter (fun v => v.mgoAddress ∉ Request.removals requests) ++ activated ∧
        result.1.pendingRemovals = [] := by
  have hinv : RemovalInv self₁ (Request.removals requests) := by
    simpa using (RemovalInv.start hremovals hpending hnodup).requests hrequests
  obtain ⟨activated, hact, rfl⟩ := processPendingValidators_eq_ok self₁ hjoin
  have haddr : addresses activated = (addresses self₁.pendingActiveValidators).reverse := by
    rw [addresses_of_activate hact, addresses, addresses, List.map_reverse]
  -- the joining validators have addresses of their own
  have hfresh : ∀ a ∈ addresses activated, a ∉ addresses self₁.activeValidators := by
    intro a ha
    rw [haddr, List.mem_reverse] at ha
    exact hinv.pending_fresh a ha
  have hnodupL : (addresses (self₁.activeValidators ++ activated)).Nodup := by
    rw [addresses, List.map_append]
    refine List.nodup_append.mpr ⟨hinv.active_nodup, ?_, ?_⟩
    · show (addresses activated).Nodup
      rw [haddr]
      exact List.nodup_reverse.mpr hinv.pending_nodup
    · intro a ha b hb hab
      exact hfresh b hb (hab ▸ ha)
  have hlt : ∀ i ∈ self₁.pendingRemovals, i < (self₁.activeValidators ++ activated).length := by
    intro i hi
    have := hinv.removals_lt i hi
    simp only [List.length_append]
    omega
  obtain ⟨hactive, hremoved⟩ := processPendingRemovals_active hleave hnodupL hinv.removals_nodup hlt
  refine ⟨hinv.removed_active, activated, hact, rfl, ?_, hremoved⟩
  rw [hactive, List.filter_append]
  congr 1
  · apply List.filter_congr
    intro v _
    simp only [hinv.mem_addressesAt activated]
  · -- no joining validator asked to leave: the requesters are active
    apply List.filter_eq_self.mpr
    intro w hw
    have hw' : w.mgoAddress ∉ addresses self₁.activeValidators := hfresh _ (List.mem_map_of_mem hw)
    simp only [hinv.mem_addressesAt activated, decide_eq_true_eq]
    exact fun hmem => hw' (hinv.removed_active _ hmem)

/-- Three active validators of one MGO each, and a candidate. -/
def threeValidatorSet : ValidatorSet where
  totalStake := 3000000000
  activeValidators := [1, 2, 3].map fun a => namedValidator a (genesisPool 1000000000)
  pendingActiveValidators := []
  pendingRemovals := []
  stakingPoolMappings := [(1, 1), (2, 2), (3, 3), (4, 4)]
  inactiveValidators := []
  validatorCandidates := [(4, namedValidator 4 (candidatePool 1000000000))]
  atRiskValidators := VecMap.empty

/-- The third and the first validator leave, the candidate joins in between. -/
def leavingRequests : List Request := [.removeValidator 3, .addValidator 0 4, .removeValidator 1]

/-- The set after the requests, after the joining and after the removals. -/
def afterLeavingRequests : ValidatorSet :=
  ((leavingRequests.foldlM (Request.apply 0) threeValidatorSet).toOption).getD threeValidatorSet

def afterJoining : ValidatorSet :=
  ((afterLeavingRequests.processPendingValidators 1).toOption).getD afterLeavingRequests

def afterLeaving : ValidatorSet × VecMap Nat (List Nat) :=
  ((afterJoining.processPendingRemovals VecMap.empty 0).toOption).getD (afterJoining, VecMap.empty)

theorem pending_removals_remove_requesters_three :
    threeValidatorSet.pendingRemovals = [] ∧ threeValidatorSet.pendingActiveValidators = [] ∧
      (addresses threeValidatorSet.activeValidators).Nodup ∧
      leavingRequests.foldlM (Request.apply 0) threeValidatorSet = .ok afterLeavingRequests ∧
      afterLeavingRequests.processPendingValidators (0 + 1) = .ok afterJoining ∧
      afterJoining.processPendingRemovals VecMap.empty 0 = .ok afterLeaving ∧
      ((∀ a ∈ Request.removals leavingRequests, a ∈ addresses afterLeavingRequests.activeValidators) ∧
        ∃ activated, List.Forall₂ (fun v w => v.activate (0 + 1) = some w)
            afterLeavingRequests.pendingActiveValidators.reverse activated ∧
          afterJoining.activeValidators = afterLeavingRequests.activeValidators ++ activated ∧
          afterLeaving.1.activeValidators = afterLeavingRequests.activeValidators.filter
            (fun v => v.mgoAddress ∉ Request.removals leavingRequests) ++ activated ∧
          afterLeaving.1.pendingRemovals = []) :=
  ⟨rfl, rfl, by decide, rfl, rfl, rfl,
    pending_removals_remove_requesters rfl rfl
      (by decide : (addresses threeValidatorSet.activeValidators).Nodup) rfl rfl
      (rfl : afterJoining.processPendingRemovals VecMap.empty 0 = .ok afterLeaving)⟩

/-- The second validator stays, and the candidate follows it. -/
example : addresses afterLeaving.1.activeValidators = [2, 4] := rfl

end ValidatorSet

end Mango.Framework
