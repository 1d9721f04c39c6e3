/-
  Mango.Framework.ValidatorSetRuns

  The validator set through the epochs. Genesis activates the initial
  validators at epoch 0 and `validator_set::new` makes the set of them; the
  transactions of an epoch make their requests of it, and
  `validator_set::advance_epoch` ends the epoch. `Reachable epoch self`: the
  sets reached so, whatever the requests, rewards, reports, slashing rate and
  low-stake thresholds.

  `ActiveInv` is what every reachable set keeps of its active validators:
  voting powers that `check_invariants` accepted, each positive and adding up
  to `TOTAL_VOTING_POWER`, and pools activated and not deactivated. A request
  leaves the powers and the pools' epochs of the active validators as they are
  (`ActiveInv.apply`); the epoch change pays rewards into the pools, processes
  them, activates the joining validators, takes out the leaving ones, and ends
  with `set_voting_power` (`ActiveInv.advanceEpoch`). So the reward steps of
  every epoch change find what they need
  (`advance_epoch_rewards_within_balances`): no division by zero, and no split
  larger than its balance.
-/
import Mango.Framework.EpochChange

namespace Mango.Framework

namespace ValidatorSet

open Mango.Lib VotingPower

/-! ## The active validators -/

/-- The pools of the validators are activated and not deactivated. -/
def PoolsActive (validators : List SetValidator) : Prop :=
  ∀ v ∈ validators, v.stakingPool.isPreactive = false ∧ v.stakingPool.isInactive = false

/-- What every reachable validator set keeps of its active validators. -/
structure ActiveInv (validators : List SetValidator) : Prop where
  power_pos : ∀ v ∈ validators, 0 < v.votingPower
  power_sum : (validators.map (·.votingPower)).sum = totalVotingPower
  pools : PoolsActive validators

namespace PoolsActive

variable {validators : List SetValidator}

theorem of_subset (h : PoolsActive validators) {ws : List SetValidator} (hsub : ws ⊆ validators) :
    PoolsActive ws :=
  fun w hw => h w (hsub hw)

/-- The rewards go into pools whose epochs they keep, and the gas price and
    commission rate of the new epoch leave the pools alone. -/
theorem rewarded (h : PoolsActive validators) {rewarded : List ActiveValidator}
    (hrewarded : ∀ a ∈ rewarded, ∃ v ∈ toActive validators, a.stakingPool.rateFields = v.stakingPool.rateFields) :
    PoolsActive ((withActive validators rewarded).map SetValidator.adjustStakeAndGasPrice) := by
  intro w hw
  obtain ⟨u, hu, rfl⟩ := List.mem_map.mp hw
  obtain ⟨-, -, a, ha, rfl⟩ := exists_of_mem_zipWith hu
  obtain ⟨v', hv', hfields⟩ := hrewarded a ha
  obtain ⟨v, hv, rfl⟩ := List.mem_map.mp hv'
  obtain ⟨hpre, hinactive⟩ := StakingPool.isPreactive_isInactive_of_rateFields _ hfields
  exact ⟨hpre.trans (h v hv).1, hinactive.trans (h v hv).2⟩

/-- Processing the pools keeps their epochs. -/
theorem processPendingStakesAndWithdraws (h : PoolsActive validators) {epoch : Nat} {out : List SetValidator}
    (hp : ValidatorSet.processPendingStakesAndWithdraws validators epoch = .ok out) : PoolsActive out := by
  intro w hw
  obtain ⟨v, hv, ha, hd⟩ := processPendingStakesAndWithdraws_epochs hp w hw
  simpa [StakingPool.isPreactive, StakingPool.isInactive, ha, hd] using h v hv

/-- The joining validators are activated. -/
theorem processPendingValidators {self self' : ValidatorSet} (h : PoolsActive self.activeValidators)
    {newEpoch : Nat} (hp : self.processPendingValidators newEpoch = .ok self') :
    PoolsActive self'.activeValidators := by
  obtain ⟨activated, hforall, rfl⟩ := self.processPendingValidators_eq_ok hp
  intro w hw
  rcases List.mem_append.mp hw with hw | hw
  · exact h w hw
  · obtain ⟨v, -, hvw⟩ := forall₂_exists_of_mem_right hforall hw
    exact SetValidator.pool_of_activate hvw

end PoolsActive

namespace ActiveInv

variable {validators : List SetValidator}

/-- `set_voting_power` on validators whose pools are active. -/
theorem of_applyVotingPower {out : List SetValidator} (h : applyVotingPower validators = .ok out)
    (hpools : PoolsActive validators) : ActiveInv out := by
  obtain ⟨hfrom, hpos, hsum⟩ := applyVotingPower_eq_ok h
  refine ⟨hpos, hsum, fun w hw => ?_⟩
  obtain ⟨v, hv, hvw⟩ := hfrom w hw
  rw [hvw]
  exact hpools v hv

/-- The staged metadata put in force leaves powers and pools as they are. -/
theorem effectuateStagedMetadata (h : ActiveInv validators) :
    ActiveInv (validators.map SetValidator.effectuateStagedMetadata) where
  power_pos w hw := by
    obtain ⟨v, hv, rfl⟩ := List.mem_map.mp hw
    exact h.power_pos v hv
  power_sum := by
    rw [List.map_map]
    exact h.power_sum
  pools w hw := by
    obtain ⟨v, hv, rfl⟩ := List.mem_map.mp hw
    exact h.pools v hv

/-- A validator replaced by one of the same power whose pool is as active. -/
theorem set (h : ActiveInv validators) {i : Nat} {v w : SetValidator} (hv : validators[i]? = some v)
    (hpower : w.votingPower = v.votingPower)
    (hpool : w.stakingPool.isPreactive = v.stakingPool.isPreactive ∧
      w.stakingPool.isInactive = v.stakingPool.isInactive) :
    ActiveInv (validators.set i w) := by
  have hvmem : v ∈ validators := List.mem_of_getElem? hv
  refine ⟨fun u hu => ?_, ?_, fun u hu => ?_⟩
  · rcases List.mem_or_eq_of_mem_set hu with hu | rfl
    · exact h.power_pos u hu
    · exact hpower ▸ h.power_pos v hvmem
  · rw [map_set_of_getElem? (·.votingPower) hv hpower]
    exact h.power_sum
  · rcases List.mem_or_eq_of_mem_set hu with hu | rfl
    · exact h.pools u hu
    · rw [hpool.1, hpool.2]
      exact h.pools v hvmem

/-! ## One step of a run -/

/-- The set genesis makes: its validators activated, their powers set. -/
theorem new {initValidators activated : List SetValidator} {self : ValidatorSet}
    (hactivated : List.Forall₂ (fun v w => v.activate 0 = some w) initValidators activated)
    (hnew : ValidatorSet.new activated = .ok self) : ActiveInv self.activeValidators := by
  unfold ValidatorSet.new at hnew
  obtain ⟨_, -, hnew⟩ := Except.bind_eq_ok.mp hnew
  obtain ⟨active, hactive, hnew⟩ := Except.bind_eq_ok.mp hnew
  cases Except.pure_eq_ok.mp hnew
  refine of_applyVotingPower hactive fun w hw => ?_
  obtain ⟨v, -, hvw⟩ := forall₂_exists_of_mem_right hactivated hw
  exact SetValidator.pool_of_activate hvw

/-- **A request leaves the powers and the pools of the active validators as
    they are**: of an active validator, a request changes only the stake of its
    pool or its commission rate for the next epoch. -/
theorem apply {self self' : ValidatorSet} (h : ActiveInv self.activeValidators) {epoch : Nat} {r : Request}
    (hr : Request.apply epoch self r = .ok self') : ActiveInv self'.activeValidators := by
  cases r with
  | addValidatorCandidate validator =>
    obtain ⟨-, -, -, -, -, rfl⟩ := self.requestAddValidatorCandidate_eq_ok hr
    exact h
  | removeValidatorCandidate sender =>
    obtain ⟨_, _, -, -, -, -, -, rfl⟩ := self.requestRemoveValidatorCandidate_eq_ok hr
    exact h
  | addValidator minJoiningStakeAmount sender =>
    obtain ⟨_, -, -, -, -, -, rfl⟩ := self.requestAddValidator_eq_ok hr
    exact h
  | removeValidator sender =>
    obtain ⟨_, -, -, rfl⟩ := self.requestRemoveValidator_eq_ok hr
    exact h
  | addStake validatorAddress stake =>
    obtain ⟨result, hresult, rfl⟩ := Except.map_eq_ok.mp hr
    -- stake goes to a candidate, or to the pool of an active validator
    obtain ⟨-, ⟨_, _, -, -, rfl⟩ | ⟨-, i, v, added, -, hv, hadded, rfl⟩⟩ := self.requestAddStake_eq_ok hresult
    · exact h
    · obtain ⟨hpower, hfields⟩ := SetValidator.of_requestAddStake hadded
      exact h.set hv hpower (StakingPool.isPreactive_isInactive_of_rateFields _ hfields)
  | setCommissionRate newCommissionRate sender =>
    obtain ⟨i, v, w, -, hv, hw, rfl⟩ := self.requestSetCommissionRate_eq_ok hr
    obtain rfl := SetValidator.of_requestSetCommissionRate hw
    exact h.set hv rfl ⟨rfl, rfl⟩

/-- **The epoch change keeps the active validators in shape**: the pools stay
    active through the rewards and their processing, the joining validators
    are activated, the leaving ones taken out, and `set_voting_power` gives
    the powers anew. -/
theorem advanceEpoch {self self' : ValidatorSet} (h : ActiveInv self.activeValidators)
    {lowStakeThreshold veryLowStakeThreshold lowStakeGracePeriod epoch : Nat}
    {computationReward storageFundReward rewardSlashingRate computationReward' storageFundReward' : Nat}
    {validatorReportRecords validatorReportRecords' : VecMap Nat (List Nat)}
    (hs : self.advanceEpoch lowStakeThreshold veryLowStakeThreshold lowStakeGracePeriod epoch computationReward
      storageFundReward validatorReportRecords rewardSlashingRate =
      .ok (self', computationReward', storageFundReward', validatorReportRecords')) :
    ActiveInv self'.activeValidators := by
  unfold ValidatorSet.advanceEpoch at hs
  obtain ⟨⟨rewarded, _, _⟩, hrewarded, hs⟩ := Except.bind_eq_ok.mp hs
  dsimp only at hs
  obtain ⟨processed, hprocessed, hs⟩ := Except.bind_eq_ok.mp hs
  obtain ⟨joined, hjoined, hs⟩ := Except.bind_eq_ok.mp hs
  obtain ⟨⟨removed, _⟩, hremoved, hs⟩ := Except.bind_eq_ok.mp hs
  dsimp only at hs
  obtain ⟨⟨departed, _⟩, hdeparted, hs⟩ := Except.bind_eq_ok.mp hs
  dsimp only at hs
  obtain ⟨powered, hpowered, hs⟩ := Except.bind_eq_ok.mp hs
  cases Except.pure_eq_ok.mp hs
  -- the pools of the validators active at the end, step by step
  have hpaid := h.pools.rewarded (advanceEpochRewards_rateFields (Except.mapError_eq_ok.mp hrewarded))
  have hprocessedPools := hpaid.processPendingStakesAndWithdraws hprocessed
  have hjoinedPools : PoolsActive joined.activeValidators := hprocessedPools.processPendingValidators hjoined
  have hremovedPools := hjoinedPools.of_subset (processPendingRemovals_active_subset _ hremoved)
  have hdepartedPools := hremovedPools.of_subset (lowStakeDepartures_active_subset _ _ _ _ hdeparted)
  exact (of_applyVotingPower hpowered hdepartedPools).effectuateStagedMetadata

end ActiveInv

/-! ## The runs -/

/-- The validator sets of `epoch`, from genesis through the requests of each
    epoch and the epoch changes, whatever their rewards, reports, slashing rate
    and low-stake thresholds. -/
inductive Reachable : Nat → ValidatorSet → Prop
  /-- Genesis activates the initial validators at epoch 0, and
      `validator_set::new` makes the set of them. -/
  | genesis {initValidators activated : List SetValidator} {self : ValidatorSet} :
      List.Forall₂ (fun v w => v.activate 0 = some w) initValidators activated → new activated = .ok self →
      Reachable 0 self
  /-- A request of a transaction of the epoch. -/
  | request {epoch : Nat} {self self' : ValidatorSet} (r : Request) :
      Reachable epoch self → Request.apply epoch self r = .ok self' → Reachable epoch self'
  /-- `advance_epoch` at the end of the epoch. -/
  | advanceEpoch {epoch : Nat} {self self' : ValidatorSet}
      (lowStakeThreshold veryLowStakeThreshold lowStakeGracePeriod computationReward storageFundReward
        rewardSlashingRate : Nat) (validatorReportRecords : VecMap Nat (List Nat))
      {computationReward' storageFundReward' : Nat} {validatorReportRecords' : VecMap Nat (List Nat)} :
      Reachable epoch self →
      self.advanceEpoch lowStakeThreshold veryLowStakeThreshold lowStakeGracePeriod epoch computationReward
        storageFundReward validatorReportRecords rewardSlashingRate =
        .ok (self', computationReward', storageFundReward', validatorReportRecords') →
      Reachable (epoch + 1) self'

/-- Every reachable validator set keeps its active validators in shape. -/
theorem Reachable.activeInv {epoch : Nat} {self : ValidatorSet} (h : Reachable epoch self) :
    ActiveInv self.activeValidators := by
  induction h with
  | genesis hactivated hnew => exact ActiveInv.new hactivated hnew
  | request r _ hr ih => exact ih.apply hr
  | advanceEpoch _ _ _ _ _ _ _ _ hs ih => exact ih.advanceEpoch hs

/-- **The active validators of every reachable validator set** hold voting
    power, all of it together, and pools activated and not deactivated. -/
theorem reachable_active_validators {epoch : Nat} {self : ValidatorSet} (h : Reachable epoch self) :
    (∀ v ∈ self.activeValidators, 0 < v.votingPower) ∧
      (self.activeValidators.map (·.votingPower)).sum = totalVotingPower ∧
      ∀ v ∈ self.activeValidators, v.stakingPool.isPreactive = false ∧ v.stakingPool.isInactive = false :=
  ⟨h.activeInv.power_pos, h.activeInv.power_sum, h.activeInv.pools⟩

/-- **The rewards of every epoch change stay within the two balances.** The
    active validators of a reachable set hold voting power and pools that take
    stake, so with commission rates within `MAX_COMMISSION_RATE`, report
    records among the active validators and a slashing rate of at most 100%,
    the adjusted amounts sum to at most the computation reward and the storage
    fund reward, no step aborts (no division by zero, no adjustment larger than
    what it adjusts, no split larger than its balance), and the balances are
    left with what was not paid out. -/
theorem advance_epoch_rewards_within_balances {epoch : Nat} {self : ValidatorSet} (hreach : Reachable epoch self)
    (computationReward storageFundReward : Nat) (validatorReportRecords : VecMap Nat (List Nat))
    (rewardSlashingRate : Nat)
    (hcomm : ∀ v ∈ self.activeValidators, v.commissionRate ≤ 2000)
    (hrecords : RecordsActive (toActive self.activeValidators) validatorReportRecords)
    (hrate : rewardSlashingRate ≤ basisPointDenominator) :
    ∃ adjustedStaking adjustedStorageFund validators',
      computeAdjustedRewards (toActive self.activeValidators) computationReward storageFundReward
          validatorReportRecords rewardSlashingRate = .ok (adjustedStaking, adjustedStorageFund) ∧
      adjustedStaking.sum ≤ computationReward ∧ adjustedStorageFund.sum ≤ storageFundReward ∧
      advanceEpochRewards (toActive self.activeValidators) computationReward storageFundReward
          validatorReportRecords rewardSlashingRate epoch =
        .ok (validators', computationReward - adjustedStaking.sum,
          storageFundReward - adjustedStorageFund.sum) := by
  have hinv := hreach.activeInv
  have hsum : ((toActive self.activeValidators).map ActiveValidator.votingPower).sum = totalVotingPower := by
    rw [toActive, List.map_map]
    exact hinv.power_sum
  -- all the voting power is held, so some validator is active
  have hne : toActive self.activeValidators ≠ [] := by
    intro hnil
    rw [hnil] at hsum
    exact absurd hsum (by decide)
  refine advanceEpochRewards_within_balances _ _ _ _ _ _ hne hsum ?_ ?_ ?_ hrecords hrate
  · intro v hv
    obtain ⟨u, hu, rfl⟩ := List.mem_map.mp hv
    exact hinv.power_pos u hu
  · intro v hv
    obtain ⟨u, hu, rfl⟩ := List.mem_map.mp hv
    exact hcomm u hu
  · intro v hv
    obtain ⟨u, hu, rfl⟩ := List.mem_map.mp hv
    exact (hinv.pools u hu).2

/-! ## A genesis set -/

/-- Three candidates of one MGO each, their pools not yet activated. -/
def threeCandidates : List SetValidator := [1, 2, 3].map fun a => namedValidator a (candidatePool 1000000000)

/-- The three, as genesis activates them. -/
def threeGenesisValidators : List SetValidator := [1, 2, 3].map fun a => namedValidator a (genesisPool 1000000000)

/-- The set `new` makes of them. -/
def genesisValidatorSet : ValidatorSet :=
  ((new threeGenesisValidators).toOption).getD ⟨0, [], [], [], [], [], [], VecMap.empty⟩

-- `set_voting_power` splits the power as evenly as it can.
example : genesisValidatorSet.activeValidators.map (·.votingPower) = [3333, 3333, 3334] := by decide

theorem genesisValidatorSet_reachable : Reachable 0 genesisValidatorSet :=
  @Reachable.genesis threeCandidates threeGenesisValidators genesisValidatorSet (.cons rfl (.cons rfl (.cons rfl .nil)))
    rfl

theorem reachable_active_validators_three :
    Reachable 0 genesisValidatorSet ∧
      (∀ v ∈ genesisValidatorSet.activeValidators, 0 < v.votingPower) ∧
      (genesisValidatorSet.activeValidators.map (·.votingPower)).sum = totalVotingPower ∧
      ∀ v ∈ genesisValidatorSet.activeValidators, v.stakingPool.isPreactive = false ∧
        v.stakingPool.isInactive = false :=
  ⟨genesisValidatorSet_reachable, reachable_active_validators genesisValidatorSet_reachable⟩

/-- The first of the three, reported by the other two, who hold a quorum. -/
def reportOnFirst : VecMap Nat (List Nat) := ⟨[(1, [2, 3])], by decide⟩

theorem advance_epoch_rewards_within_balances_reported :
    Reachable 0 genesisValidatorSet ∧ (∀ v ∈ genesisValidatorSet.activeValidators, v.commissionRate ≤ 2000) ∧
    RecordsActive (toActive genesisValidatorSet.activeValidators) reportOnFirst ∧ 5000 ≤ basisPointDenominator ∧
    ∃ adjustedStaking adjustedStorageFund validators',
      computeAdjustedRewards (toActive genesisValidatorSet.activeValidators) 1000 300 reportOnFirst 5000 =
        .ok (adjustedStaking, adjustedStorageFund) ∧
      adjustedStaking.sum ≤ 1000 ∧ adjustedStorageFund.sum ≤ 300 ∧
      advanceEpochRewards (toActive genesisValidatorSet.activeValidators) 1000 300 reportOnFirst 5000 0 =
        .ok (validators', 1000 - adjustedStaking.sum, 300 - adjustedStorageFund.sum) :=
  have hcomm : ∀ v ∈ genesisValidatorSet.activeValidators, v.commissionRate ≤ 2000 := by decide
  have hrecords : RecordsActive (toActive genesisValidatorSet.activeValidators) reportOnFirst := by decide
  have hrate : 5000 ≤ basisPointDenominator := by decide
  ⟨genesisValidatorSet_reachable, hcomm, hrecords, hrate,
    advance_epoch_rewards_within_balances genesisValidatorSet_reachable 1000 300 reportOnFirst 5000 hcomm hrecords
      hrate⟩

end ValidatorSet

end Mango.Framework
