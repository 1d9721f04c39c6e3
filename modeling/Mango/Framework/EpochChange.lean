/-
  Mango.Framework.EpochChange

  `validator_set::advance_epoch` whole, and `validator_set::new`. The epoch
  change pays the rewards (`advanceEpochRewards` of
  `Mango.Framework.RewardDistribution`, on the part of each validator it
  reads), moves every validator to the gas price and commission rate it asked
  for, processes the stakes and withdrawals of every pool, lets the pending
  validators join and the validators that asked to leave depart, kicks out the
  validators of low stake, and then recomputes `total_stake` and the voting
  power and puts the staged metadata in force.

  `total_stake` is recomputed only at the end, while a departure subtracts the
  departing validator's stake after this epoch's pending stake has been added
  to it. `advance_epoch_total_stake_underflows`: a validator that receives more
  stake than the others hold and asks to leave in the same epoch makes the
  subtraction go below zero, so the epoch change aborts.
-/
import Mango.Framework.ValidatorSetState

namespace Mango.Framework

open Mango.Lib

/-- `effectuate_staged_metadata` of `validator` on the identifiers modelled:
    each staged value takes effect and its stage is cleared. -/
def ValidatorMetadata.effectuateStaged (m : ValidatorMetadata) : ValidatorMetadata where
  name := m.name
  netAddress := m.nextEpochNetAddress.getD m.netAddress
  p2pAddress := m.nextEpochP2pAddress.getD m.p2pAddress
  protocolPubkeyBytes := m.nextEpochProtocolPubkeyBytes.getD m.protocolPubkeyBytes
  networkPubkeyBytes := m.nextEpochNetworkPubkeyBytes.getD m.networkPubkeyBytes
  workerPubkeyBytes := m.nextEpochWorkerPubkeyBytes.getD m.workerPubkeyBytes
  nextEpochNetAddress := none
  nextEpochP2pAddress := none
  nextEpochProtocolPubkeyBytes := none
  nextEpochNetworkPubkeyBytes := none
  nextEpochWorkerPubkeyBytes := none

namespace SetValidator

/-- `validator::effectuate_staged_metadata`. -/
def effectuateStagedMetadata (v : SetValidator) : SetValidator :=
  { v with metadata := v.metadata.effectuateStaged }

/-- `validator::adjust_stake_and_gas_price`. -/
def adjustStakeAndGasPrice (v : SetValidator) : SetValidator :=
  { v with gasPrice := v.nextEpochGasPrice, commissionRate := v.nextEpochCommissionRate }

end SetValidator

namespace ValidatorSet

/-- `calculate_total_stakes`. -/
def calculateTotalStakes (validators : List SetValidator) : Nat :=
  (validators.map SetValidator.totalStakeAmount).sum

/-- The validators with the part the reward steps read replaced by what they
    returned. -/
def withActive (validators : List SetValidator) (rewarded : List ActiveValidator) : List SetValidator :=
  List.zipWith (fun v a => { v with toActiveValidator := a }) validators rewarded

/-- `process_pending_stakes_and_withdraws` of `validator_set`, in `epoch`. -/
def processPendingStakesAndWithdraws (validators : List SetValidator) (epoch : Nat) :
    Except SetAbort (List SetValidator) :=
  validators.mapM fun v =>
    v.setValidator <$> orThrow .validator (v.toValidator.processPendingStakesAndWithdraws epoch)

/-- `voting_power::set_voting_power(&mut validators)`: the voting power each
    validator is given from its `total_stake`. -/
def applyVotingPower (validators : List SetValidator) : Except SetAbort (List SetValidator) := do
  let powered ← (VotingPower.setVotingPower
    (validators.map fun v => ⟨v.totalStakeAmount, v.votingPower⟩)).mapError .votingPower
  pure (List.zipWith (fun v p => { v with votingPower := p.votingPower }) validators powered)

/-- `validator_set::new`: the pools of the validators are mapped to their
    addresses, and their voting power set. -/
def new (initActiveValidators : List SetValidator) : Except SetAbort ValidatorSet := do
  let totalStake := calculateTotalStakes initActiveValidators
  let stakingPoolMappings ← initActiveValidators.foldlM (fun table v =>
    orThrow .fieldAlreadyExists (tableAdd table v.stakingPoolId v.mgoAddress)) []
  let activeValidators ← applyVotingPower initActiveValidators
  pure ⟨totalStake, activeValidators, [], [], stakingPoolMappings, [], [], VecMap.empty⟩

/-- The at-risk count of a validator a bit below the threshold, one more:
    through `vec_map::get_mut` if it is at risk, else a `vec_map::insert` of 1. -/
def incrementLowStakePeriod (atRiskValidators : VecMap Nat Nat) (validatorAddress : Nat) :
    Except SetAbort (Nat × VecMap Nat Nat) :=
  if atRiskValidators.contains validatorAddress then do
    let numEpochs ← orThrow .keyDoesNotExist (atRiskValidators.get validatorAddress)
    let atRiskValidators ← orThrow .keyDoesNotExist (atRiskValidators.modify validatorAddress (· + 1))
    pure (numEpochs + 1, atRiskValidators)
  else do
    let atRiskValidators ← orThrow .keyAlreadyExists (atRiskValidators.insert validatorAddress 1)
    pure (1, atRiskValidators)

variable (lowStakeThreshold veryLowStakeThreshold lowStakeGracePeriod epoch : Nat)

/-- One round of `update_and_process_low_stake_departures`, at position `i`:
    a validator at the threshold is safe, one a bit below is counted at risk
    and leaves after the grace period, one below the very low threshold leaves
    at once. -/
def lowStakeStep (i : Nat) (acc : ValidatorSet × VecMap Nat (List Nat)) :
    Except SetAbort (ValidatorSet × VecMap Nat (List Nat)) := do
  let (self, validatorReportRecords) := acc
  let validatorRef ← orThrow .indexOutOfBounds self.activeValidators[i]?
  let validatorAddress := validatorRef.mgoAddress
  let stake := validatorRef.totalStakeAmount
  if stake ≥ lowStakeThreshold then
    let atRiskValidators ← removeIfPresent self.atRiskValidators validatorAddress
    pure ({ self with atRiskValidators }, validatorReportRecords)
  else if stake ≥ veryLowStakeThreshold then
    let (newLowStakePeriod, atRiskValidators) ← incrementLowStakePeriod self.atRiskValidators validatorAddress
    let self := { self with atRiskValidators }
    if newLowStakePeriod > lowStakeGracePeriod then self.departAt i validatorReportRecords epoch
    else pure (self, validatorReportRecords)
  else self.departAt i validatorReportRecords epoch

/-- `update_and_process_low_stake_departures`, from position `i - 1` down to
    `0`. -/
def lowStakeDepartures : Nat → ValidatorSet × VecMap Nat (List Nat) →
    Except SetAbort (ValidatorSet × VecMap Nat (List Nat))
  | 0, acc => pure acc
  | i + 1, acc => do
    let acc ← lowStakeStep lowStakeThreshold veryLowStakeThreshold lowStakeGracePeriod epoch i acc
    lowStakeDepartures i acc

variable (self : ValidatorSet)

/-- `validator_set::advance_epoch` in `epoch`: the validator set of the next
    epoch, what is left of the two reward balances, and the report records. -/
def advanceEpoch (computationReward storageFundReward : Nat) (validatorReportRecords : VecMap Nat (List Nat))
    (rewardSlashingRate : Nat) :
    Except SetAbort (ValidatorSet × Nat × Nat × VecMap Nat (List Nat)) := do
  let newEpoch := epoch + 1
  let (rewarded, computationReward, storageFundReward) ← (advanceEpochRewards
    (toActive self.activeValidators) computationReward storageFundReward validatorReportRecords
    rewardSlashingRate epoch).mapError .rewards
  let activeValidators := (withActive self.activeValidators rewarded).map SetValidator.adjustStakeAndGasPrice
  let activeValidators ← processPendingStakesAndWithdraws activeValidators epoch
  let self ← { self with activeValidators }.processPendingValidators newEpoch
  let (self, validatorReportRecords) ← self.processPendingRemovals validatorReportRecords epoch
  let (self, validatorReportRecords) ← lowStakeDepartures lowStakeThreshold veryLowStakeThreshold
    lowStakeGracePeriod epoch self.activeValidators.length (self, validatorReportRecords)
  let self := { self with totalStake := calculateTotalStakes self.activeValidators }
  let activeValidators ← applyVotingPower self.activeValidators
  pure ({ self with activeValidators := activeValidators.map SetValidator.effectuateStagedMetadata },
    computationReward, storageFundReward, validatorReportRecords)

/-! ## What each step of the epoch change does to the active validators -/

/-- `set_voting_power` in place: each validator keeps all but its power, and
    the powers are those that `check_invariants` accepted. -/
theorem applyVotingPower_eq_ok {validators out : List SetValidator} (h : applyVotingPower validators = .ok out) :
    (∀ w ∈ out, ∃ v ∈ validators, w = { v with votingPower := w.votingPower }) ∧
      (∀ w ∈ out, 0 < w.votingPower) ∧ (out.map (·.votingPower)).sum = VotingPower.totalVotingPower := by
  unfold applyVotingPower at h
  obtain ⟨powered, hpowered, h⟩ := Except.bind_eq_ok.mp h
  cases Except.pure_eq_ok.mp h
  obtain ⟨hlen, hcheck⟩ := VotingPower.setVotingPower_eq_ok (Except.mapError_eq_ok.mp hpowered)
  obtain ⟨hpos, hsum, -⟩ := VotingPower.checkInvariants_eq_ok hcheck
  rw [List.length_map] at hlen
  refine ⟨fun w hw => ?_, fun w hw => ?_, ?_⟩
  · obtain ⟨v, hv, p, -, rfl⟩ := exists_of_mem_zipWith hw
    exact ⟨v, hv, rfl⟩
  · obtain ⟨v, -, p, hp, rfl⟩ := exists_of_mem_zipWith hw
    exact hpos p hp
  · -- the powers written are the powers `set_voting_power` returned, one for each validator
    have hpowers : (List.zipWith (fun v p => { v with votingPower := p.votingPower }) validators powered).map
        (·.votingPower) = powered.map (·.votingPower) := by
      rw [List.map_zipWith]
      exact zipWith_eq_map_right _ hlen.le
    rw [hpowers]
    exact hsum

/-- Processing the pools keeps their activation and deactivation epochs. -/
theorem processPendingStakesAndWithdraws_epochs {validators out : List SetValidator} {epoch : Nat}
    (h : processPendingStakesAndWithdraws validators epoch = .ok out) :
    ∀ w ∈ out, ∃ v ∈ validators, w.stakingPool.activationEpoch = v.stakingPool.activationEpoch ∧
      w.stakingPool.deactivationEpoch = v.stakingPool.deactivationEpoch := by
  intro w hw
  obtain ⟨v, hv, hw'⟩ := mapM_ok_mem h w hw
  obtain ⟨x, hx, rfl⟩ := Except.map_eq_ok.mp hw'
  obtain ⟨ha, hd, -⟩ := v.stakingPool.processPendingStakesAndWithdraws_eq_some
    (v.toValidator.processPendingStakesAndWithdraws_eq_some (orThrow_eq_ok.mp hx))
  exact ⟨v, hv, ha, hd⟩

/-- A round of the low-stake departures keeps the validator or takes it out. -/
theorem lowStakeStep_active_subset {i : Nat} {acc acc' : ValidatorSet × VecMap Nat (List Nat)}
    (h : lowStakeStep lowStakeThreshold veryLowStakeThreshold lowStakeGracePeriod epoch i acc = .ok acc') :
    acc'.1.activeValidators ⊆ acc.1.activeValidators := by
  obtain ⟨self, records⟩ := acc
  unfold lowStakeStep at h
  obtain ⟨validatorRef, -, h⟩ := Except.bind_eq_ok.mp h
  dsimp only at h
  -- at the threshold: safe; a bit below: at risk, leaving after the grace period; far below: leaving
  split at h
  · obtain ⟨_, -, h⟩ := Except.bind_eq_ok.mp h
    rw [← Except.pure_eq_ok.mp h]
    exact List.Subset.refl _
  · split at h
    · obtain ⟨⟨_, atRiskValidators⟩, -, h⟩ := Except.bind_eq_ok.mp h
      dsimp only at h
      split at h
      · rw [departAt_active _ h]
        exact (List.eraseIdx_sublist _ _).subset
      · rw [← Except.pure_eq_ok.mp h]
        exact List.Subset.refl _
    · rw [departAt_active _ h]
      exact (List.eraseIdx_sublist _ _).subset

/-- The low-stake departures only take validators out of the active ones. -/
theorem lowStakeDepartures_active_subset :
    ∀ {i : Nat} {acc acc' : ValidatorSet × VecMap Nat (List Nat)},
      lowStakeDepartures lowStakeThreshold veryLowStakeThreshold lowStakeGracePeriod epoch i acc = .ok acc' →
      acc'.1.activeValidators ⊆ acc.1.activeValidators
  | 0, _, _, h => by
    rw [lowStakeDepartures, Except.pure_eq_ok] at h
    rw [h]
    exact List.Subset.refl _
  | i + 1, _, _, h => by
    rw [lowStakeDepartures] at h
    obtain ⟨mid, hmid, h⟩ := Except.bind_eq_ok.mp h
    exact List.Subset.trans (lowStakeDepartures_active_subset h) (lowStakeStep_active_subset _ _ _ _ hmid)

/-! ## A departure of more stake than the total -/

/-- Two validators of one MGO each, as genesis activates them. -/
def twoGenesisValidators : List SetValidator :=
  [1, 2].map fun a => namedValidator a (genesisPool 1000000000)

/-- The set `new` makes of them. -/
def twoValidatorSet : ValidatorSet :=
  ((new twoGenesisValidators).toOption).getD ⟨0, [], [], [], [], [], [], VecMap.empty⟩

/-- In epoch 0, two MGO more are staked with the first validator, which then
    asks to leave. -/
def stakeThenLeave : List Request := [.addStake 1 2000000000, .removeValidator 1]

def stakedAndLeaving : ValidatorSet :=
  ((stakeThenLeave.foldlM (Request.apply 0) twoValidatorSet).toOption).getD twoValidatorSet

/-- **The epoch change aborts on `total_stake`.** The set starts from `new`
    with two validators of one MGO each, so `total_stake` is two MGO. In epoch
    0 two MGO are staked with the first validator, which asks to leave. At the
    epoch change, with no rewards, no slashing and no low-stake thresholds, its
    pending stake is processed first, so it departs with three MGO, and
    `total_stake - total_stake_amount` in `process_validator_departure` goes
    below zero: the only subtraction that aborts with an arithmetic error. -/
theorem advance_epoch_total_stake_underflows :
    new twoGenesisValidators = .ok twoValidatorSet ∧
      stakeThenLeave.foldlM (Request.apply 0) twoValidatorSet = .ok stakedAndLeaving ∧
      stakedAndLeaving.totalStake = 2000000000 ∧
      advanceEpoch 0 0 0 0 stakedAndLeaving 0 0 VecMap.empty 0 = .error .arithmeticError := by
  refine ⟨rfl, rfl, rfl, ?_⟩
  rfl

end ValidatorSet

end Mango.Framework
