/-
  Mango.Framework.RewardDistribution

  `mgo-system/sources/validator_set.move`, the rewards of an epoch change:
  the first steps of `advance_epoch`, from
  `compute_unadjusted_reward_distribution` through the tallying-rule
  slashing (`compute_slashed_validators`, `compute_reward_adjustments`,
  `compute_adjusted_reward_distribution`) to `distribute_reward`, which
  splits the amounts off the two reward balances.

  Move's `/` aborts on a zero divisor and its `-` below zero; both are
  modelled as aborts (`divChecked`, `subChecked`), as are the asserts and the
  aborts of `vector`, `vec_map` and `balance`. The amounts are `Nat`: they are
  bounded by the two balances, so the `u64` casts of the source never fail.

  The distribution pays out no more than the balances hold once every active
  validator has voting power and a pool not deactivated
  (`advanceEpochRewards_within_balances`): the floors of the
  stake-proportional split, of the equal split and of the redistribution of
  the slashed shares each sum to at most their total
  (`Mango.Lib.sum_redistribute_le`). A validator without voting power, next
  to slashed validators that hold all of it, would make the redistribution
  divide by zero; `Mango.Framework.ValidatorSetRuns` shows that no reachable
  validator set has one.
-/
import Mango.Framework.ValidatorSet
import Mango.Lib.VecMap
import Mango.Lib.Rounding

namespace Mango.Framework

namespace ValidatorSet

open Mango.Lib VotingPower

/-- `BASIS_POINT_DENOMINATOR`. -/
def basisPointDenominator : Nat := 10000

/-- Why the rewards of an epoch change abort. -/
inductive Abort where
  /-- `ENonValidatorInReportRecords`. -/
  | nonValidatorInReportRecords
  /-- `ENotAValidator`. -/
  | notAValidator
  /-- `EValidatorSetEmpty`. -/
  | validatorSetEmpty
  /-- `vec_map::EKeyAlreadyExists`. -/
  | keyAlreadyExists
  /-- `vec_map::EKeyDoesNotExist`. -/
  | keyDoesNotExist
  /-- `balance::ENotEnough`. -/
  | notEnough
  /-- A stake that `validator::request_add_stake` rejects. -/
  | invalidStakeAmount
  /-- A vector index out of bounds. -/
  | indexOutOfBounds
  /-- A division by zero, or a subtraction below zero. -/
  | arithmeticError
  deriving DecidableEq, Repr

/-- A call of the model that returns `none` where Move aborts with `e`. -/
def orAbort {α : Type} (e : Abort) : Option α → Except Abort α
  | some a => pure a
  | none => throw e

/-- `vector::borrow` of an amount. -/
def borrowAmount (v : List Nat) (i : Nat) : Except Abort Nat := orAbort .indexOutOfBounds v[i]?

/-- Move's `/`. -/
def divChecked (a b : Nat) : Except Abort Nat := if b = 0 then throw .arithmeticError else pure (a / b)

/-- Move's `-`. -/
def subChecked (a b : Nat) : Except Abort Nat := if a < b then throw .arithmeticError else pure (a - b)

/-- `balance::split` of `amount` off `balance`: what is left of the balance. -/
def split (balance amount : Nat) : Except Abort Nat :=
  if balance < amount then throw .notEnough else pure (balance - amount)

/-! ## Looking validators up by address -/

/-- `find_validator`. -/
def findValidator (validators : List ActiveValidator) (validatorAddress : Nat) : Option Nat :=
  validators.findIdx? fun v => v.mgoAddress = validatorAddress

/-- `get_validator_ref`. -/
def getValidatorRef (validators : List ActiveValidator) (validatorAddress : Nat) :
    Except Abort ActiveValidator := do
  let i ← orAbort .notAValidator (findValidator validators validatorAddress)
  orAbort .indexOutOfBounds validators[i]?

/-- `is_active_validator_by_mgo_address`, on `self.active_validators`. -/
def isActiveValidatorByMgoAddress (activeValidators : List ActiveValidator) (validatorAddress : Nat) :
    Bool :=
  (findValidator activeValidators validatorAddress).isSome

/-- `get_validator_indices`. -/
def getValidatorIndices (validators : List ActiveValidator) (validatorAddresses : List Nat) :
    Except Abort (List Nat) :=
  validatorAddresses.mapM fun a => orAbort .notAValidator (findValidator validators a)

/-- `sum_voting_power_by_addresses`. -/
def sumVotingPowerByAddresses (vs : List ActiveValidator) (addresses : List Nat) : Except Abort Nat :=
  addresses.foldlM (fun sum a => do
    let validator ← getValidatorRef vs a
    pure (sum + validator.votingPower)) 0

/-! ## The reward computations -/

/-- `compute_slashed_validators`: the report records are popped from the back;
    a validator is slashed when its reporters hold a quorum. -/
def computeSlashedValidators (activeValidators : List ActiveValidator)
    (validatorReportRecords : VecMap Nat (List Nat)) : Except Abort (List Nat) :=
  validatorReportRecords.contents.reverse.foldlM (fun slashedValidators record => do
    if ¬isActiveValidatorByMgoAddress activeValidators record.1 then
      throw .nonValidatorInReportRecords
    let reporterVotes ← sumVotingPowerByAddresses activeValidators record.2
    pure (if quorumThreshold ≤ reporterVotes then slashedValidators ++ [record.1]
      else slashedValidators)) []

/-- `compute_unadjusted_reward_distribution`. -/
def computeUnadjustedRewardDistribution (validators : List ActiveValidator)
    (totalVotingPower totalStakingReward totalStorageFundReward : Nat) :
    Except Abort (List Nat × List Nat) := do
  let storageFundRewardPerValidator ← divChecked totalStorageFundReward validators.length
  let stakingRewardAmounts ← validators.mapM fun v =>
    divChecked (v.votingPower * totalStakingReward) totalVotingPower
  pure (stakingRewardAmounts, validators.map fun _ => storageFundRewardPerValidator)

/-- `compute_reward_adjustments`: the slashed indices are popped from the back;
    each slashed validator loses `reward_slashing_rate` of its two rewards. -/
def computeRewardAdjustments (slashedValidatorIndices : List Nat) (rewardSlashingRate : Nat)
    (unadjustedStakingRewardAmounts unadjustedStorageFundRewardAmounts : List Nat) :
    Except Abort (Nat × VecMap Nat Nat × Nat × VecMap Nat Nat) :=
  slashedValidatorIndices.reverse.foldlM (fun acc validatorIndex => do
    let unadjustedStakingReward ← borrowAmount unadjustedStakingRewardAmounts validatorIndex
    let stakingRewardAdjustment := unadjustedStakingReward * rewardSlashingRate / basisPointDenominator
    let individualStaking ← orAbort .keyAlreadyExists
      (acc.2.1.insert validatorIndex stakingRewardAdjustment)
    let unadjustedStorageFundReward ← borrowAmount unadjustedStorageFundRewardAmounts validatorIndex
    let storageFundRewardAdjustment :=
      unadjustedStorageFundReward * rewardSlashingRate / basisPointDenominator
    let individualStorageFund ← orAbort .keyAlreadyExists
      (acc.2.2.2.insert validatorIndex storageFundRewardAdjustment)
    pure (acc.1 + stakingRewardAdjustment, individualStaking,
      acc.2.2.1 + storageFundRewardAdjustment, individualStorageFund))
    (0, VecMap.empty, 0, VecMap.empty)

/-- The two branches of each adjusted amount in
    `compute_adjusted_reward_distribution`: a slashed validator's amount less
    its adjustment, an unslashed one's plus its `share` of the slashed
    amounts. -/
def adjustAmount (individualAdjustments : VecMap Nat Nat) (i unadjusted : Nat)
    (share : Except Abort Nat) : Except Abort Nat :=
  if individualAdjustments.contains i then do
    let adjustment ← orAbort .keyDoesNotExist (individualAdjustments.get i)
    subChecked unadjusted adjustment
  else do
    let adjustment ← share
    pure (unadjusted + adjustment)

/-- `compute_adjusted_reward_distribution`: the slashed staking rewards go to
    the unslashed validators by voting power, the slashed storage fund rewards
    in equal parts. -/
def computeAdjustedRewardDistribution (validators : List ActiveValidator)
    (totalVotingPower totalSlashedValidatorVotingPower : Nat)
    (unadjustedStakingRewardAmounts unadjustedStorageFundRewardAmounts : List Nat)
    (totalStakingRewardAdjustment : Nat) (individualStakingRewardAdjustments : VecMap Nat Nat)
    (totalStorageFundRewardAdjustment : Nat)
    (individualStorageFundRewardAdjustments : VecMap Nat Nat) :
    Except Abort (List Nat × List Nat) := do
  let totalUnslashedValidatorVotingPower ← subChecked totalVotingPower totalSlashedValidatorVotingPower
  let numUnslashedValidators ← subChecked validators.length individualStakingRewardAdjustments.size
  let amounts ← validators.zipIdx.mapM fun (v, i) => do
    let unadjustedStaking ← borrowAmount unadjustedStakingRewardAmounts i
    let adjustedStaking ← adjustAmount individualStakingRewardAdjustments i unadjustedStaking
      (divChecked (totalStakingRewardAdjustment * v.votingPower) totalUnslashedValidatorVotingPower)
    let unadjustedStorageFund ← borrowAmount unadjustedStorageFundRewardAmounts i
    let adjustedStorageFund ← adjustAmount individualStorageFundRewardAdjustments i
      unadjustedStorageFund (divChecked totalStorageFundRewardAdjustment numUnslashedValidators)
    pure (adjustedStaking, adjustedStorageFund)
  pure amounts.unzip

/-- `distribute_reward`: each validator's staking reward is split off
    `staking_rewards`, its commission off that, and its storage fund reward
    off `storage_fund_reward`; the commission and the storage fund reward are
    staked for the validator, the rest goes to its pool. The validators after
    it, and what is left of the two balances. -/
def distributeReward (validators : List ActiveValidator)
    (adjustedStakingRewardAmounts adjustedStorageFundRewardAmounts : List Nat)
    (stakingRewards storageFundReward epoch : Nat) :
    Except Abort (List ActiveValidator × Nat × Nat) := do
  if ¬0 < validators.length then throw .validatorSetEmpty
  validators.zipIdx.foldlM (fun acc (v, i) => do
    let stakingRewardAmount ← borrowAmount adjustedStakingRewardAmounts i
    let stakingRewards ← split acc.2.1 stakingRewardAmount
    let validatorCommissionAmount := stakingRewardAmount * v.commissionRate / basisPointDenominator
    let stakerReward ← split stakingRewardAmount validatorCommissionAmount
    let storageFundRewardAmount ← borrowAmount adjustedStorageFundRewardAmounts i
    let storageFundReward ← split acc.2.2 storageFundRewardAmount
    let validatorReward := validatorCommissionAmount + storageFundRewardAmount
    let v ← if 0 < validatorReward then do
        let added ← orAbort .invalidStakeAmount (v.toValidator.requestAddStake validatorReward epoch)
        pure { v with toValidator := added.1 }
      else pure v
    pure (acc.1 ++ [{ v with toValidator := v.toValidator.depositStakeRewards stakerReward }],
      stakingRewards, storageFundReward))
    ([], stakingRewards, storageFundReward)

/-- `advance_epoch` up to `distribute_reward`: the adjusted rewards of the
    active validators. -/
def computeAdjustedRewards (activeValidators : List ActiveValidator)
    (computationReward storageFundReward : Nat) (validatorReportRecords : VecMap Nat (List Nat))
    (rewardSlashingRate : Nat) : Except Abort (List Nat × List Nat) := do
  let (unadjustedStaking, unadjustedStorageFund) ← computeUnadjustedRewardDistribution
    activeValidators totalVotingPower computationReward storageFundReward
  let slashedValidators ← computeSlashedValidators activeValidators validatorReportRecords
  let totalSlashedValidatorVotingPower ← sumVotingPowerByAddresses activeValidators slashedValidators
  let slashedIndices ← getValidatorIndices activeValidators slashedValidators
  let (totalStaking, individualStaking, totalStorageFund, individualStorageFund) ←
    computeRewardAdjustments slashedIndices rewardSlashingRate unadjustedStaking unadjustedStorageFund
  computeAdjustedRewardDistribution activeValidators totalVotingPower totalSlashedValidatorVotingPower
    unadjustedStaking unadjustedStorageFund totalStaking individualStaking totalStorageFund
    individualStorageFund

/-- `advance_epoch` through `distribute_reward`: the active validators with
    their rewards, and what is left of `computation_reward` and
    `storage_fund_reward`. -/
def advanceEpochRewards (activeValidators : List ActiveValidator)
    (computationReward storageFundReward : Nat) (validatorReportRecords : VecMap Nat (List Nat))
    (rewardSlashingRate epoch : Nat) : Except Abort (List ActiveValidator × Nat × Nat) := do
  let (adjustedStaking, adjustedStorageFund) ← computeAdjustedRewards activeValidators
    computationReward storageFundReward validatorReportRecords rewardSlashingRate
  distributeReward activeValidators adjustedStaking adjustedStorageFund computationReward
    storageFundReward epoch

/-! ## The steps that cannot abort -/

theorem divChecked_of_pos {a b : Nat} (h : 0 < b) : divChecked a b = pure (a / b) := by
  rw [divChecked, if_neg (Nat.pos_iff_ne_zero.mp h)]

theorem subChecked_of_le {a b : Nat} (h : b ≤ a) : subChecked a b = pure (a - b) := by
  rw [subChecked, if_neg (Nat.not_lt.mpr h)]

theorem split_of_le {balance amount : Nat} (h : amount ≤ balance) :
    split balance amount = pure (balance - amount) := by
  rw [split, if_neg (Nat.not_lt.mpr h)]

@[simp] theorem orAbort_some {α : Type} (e : Abort) (a : α) : orAbort e (some a) = pure a := rfl

theorem orAbort_eq_ok {α : Type} {e : Abort} {o : Option α} {a : α} : orAbort e o = .ok a ↔ o = some a := by
  cases o <;> simp [orAbort]

theorem borrowAmount_of_getElem? {v : List Nat} {i a : Nat} (h : v[i]? = some a) :
    borrowAmount v i = pure a := by
  rw [borrowAmount, h]
  rfl

/-- A commission at a rate of at most the whole is at most the amount. -/
theorem commission_le {amount rate : Nat} (h : rate ≤ basisPointDenominator) :
    amount * rate / basisPointDenominator ≤ amount :=
  Nat.div_le_of_le_mul (by rw [Nat.mul_comm basisPointDenominator]; exact Nat.mul_le_mul_left _ h)

/-! ## Looking up active addresses -/

section Lookup

variable {validators : List ActiveValidator} {a : Nat}

/-- The position of an address among the validators, `0` for an unknown one. -/
def indexOf (validators : List ActiveValidator) (a : Nat) : Nat := (findValidator validators a).getD 0

/-- The voting power at a position, `0` past the end. -/
def votingPowerAt (validators : List ActiveValidator) (i : Nat) : Nat :=
  (validators[i]?.map ActiveValidator.votingPower).getD 0

/-- The voting power `sum_voting_power_by_addresses` adds up. -/
def addressesVotingPower (validators : List ActiveValidator) (addresses : List Nat) : Nat :=
  (addresses.map fun a => votingPowerAt validators (indexOf validators a)).sum

theorem findValidator_indexOf (h : isActiveValidatorByMgoAddress validators a = true) :
    findValidator validators a = some (indexOf validators a) := by
  unfold isActiveValidatorByMgoAddress at h
  unfold indexOf
  cases hf : findValidator validators a with
  | none => rw [hf] at h; cases h
  | some i => rfl

/-- An active address is the address of the validator at its position. -/
theorem getElem?_indexOf (h : isActiveValidatorByMgoAddress validators a = true) :
    ∃ v, validators[indexOf validators a]? = some v ∧ v.mgoAddress = a := by
  obtain ⟨hi, hp, -⟩ := List.findIdx?_eq_some_iff_getElem.mp (findValidator_indexOf h)
  exact ⟨_, List.getElem?_eq_getElem hi, of_decide_eq_true hp⟩

theorem indexOf_lt (h : isActiveValidatorByMgoAddress validators a = true) :
    indexOf validators a < validators.length := by
  obtain ⟨v, hv, -⟩ := getElem?_indexOf h
  exact (List.getElem?_eq_some_iff.mp hv).1

/-- Distinct active addresses are at distinct positions. -/
theorem indexOf_injOn {b : Nat} (ha : isActiveValidatorByMgoAddress validators a = true)
    (hb : isActiveValidatorByMgoAddress validators b = true)
    (h : indexOf validators a = indexOf validators b) : a = b := by
  obtain ⟨v, hv, rfl⟩ := getElem?_indexOf ha
  obtain ⟨w, hw, rfl⟩ := getElem?_indexOf hb
  rw [h, hw, Option.some.injEq] at hv
  rw [hv]

theorem getValidatorRef_of_active (h : isActiveValidatorByMgoAddress validators a = true) :
    ∃ v, validators[indexOf validators a]? = some v ∧ getValidatorRef validators a = pure v := by
  obtain ⟨v, hv, -⟩ := getElem?_indexOf h
  refine ⟨v, hv, ?_⟩
  rw [getValidatorRef, findValidator_indexOf h]
  show orAbort .indexOutOfBounds validators[indexOf validators a]? = pure v
  rw [hv]
  rfl

theorem sumVotingPowerByAddresses_eq {addresses : List Nat}
    (h : ∀ a ∈ addresses, isActiveValidatorByMgoAddress validators a = true) :
    sumVotingPowerByAddresses validators addresses = .ok (addressesVotingPower validators addresses) := by
  unfold sumVotingPowerByAddresses addressesVotingPower
  rw [foldlM_eq_ok_foldl 0 fun s a ha => ?_, foldl_add_eq_add_sum, Nat.zero_add]
  obtain ⟨v, hv, hget⟩ := getValidatorRef_of_active (h a ha)
  rw [hget, pure_bind, votingPowerAt, hv]
  rfl

theorem getValidatorIndices_eq {addresses : List Nat}
    (h : ∀ a ∈ addresses, isActiveValidatorByMgoAddress validators a = true) :
    getValidatorIndices validators addresses = .ok (addresses.map (indexOf validators)) := by
  refine mapM_eq_ok_map fun a ha => ?_
  rw [findValidator_indexOf (h a ha)]
  rfl

end Lookup

/-! ## The slashed validators and their adjustments -/

/-- Report records keyed by active validators and filed by them. -/
def RecordsActive (activeValidators : List ActiveValidator) (records : VecMap Nat (List Nat)) : Prop :=
  ∀ e ∈ records.contents, isActiveValidatorByMgoAddress activeValidators e.1 = true ∧
    ∀ r ∈ e.2, isActiveValidatorByMgoAddress activeValidators r = true

instance (activeValidators : List ActiveValidator) (records : VecMap Nat (List Nat)) :
    Decidable (RecordsActive activeValidators records) := by
  unfold RecordsActive
  infer_instance

/-- The validators `compute_slashed_validators` returns: the keys of the
    records, from the back, whose reporters hold a quorum. -/
def slashedAddresses (activeValidators : List ActiveValidator) (records : VecMap Nat (List Nat)) :
    List Nat :=
  (records.contents.reverse.filter fun e =>
    quorumThreshold ≤ addressesVotingPower activeValidators e.2).map Prod.fst

theorem computeSlashedValidators_eq {activeValidators : List ActiveValidator}
    {records : VecMap Nat (List Nat)} (h : RecordsActive activeValidators records) :
    computeSlashedValidators activeValidators records = .ok (slashedAddresses activeValidators records) := by
  unfold computeSlashedValidators slashedAddresses
  rw [@foldlM_eq_ok_foldl Abort (Nat × List Nat) (List Nat) _
    (fun acc e => if quorumThreshold ≤ addressesVotingPower activeValidators e.2 then acc ++ [e.1]
      else acc) _ [] fun acc e he => ?_, foldl_append_filter, List.nil_append]
  obtain ⟨hkey, hrep⟩ := h e (List.mem_reverse.mp he)
  simp only [hkey, not_true_eq_false, if_false, sumVotingPowerByAddresses_eq hrep]
  rfl

theorem slashedAddresses_nodup (activeValidators : List ActiveValidator)
    (records : VecMap Nat (List Nat)) : (slashedAddresses activeValidators records).Nodup := by
  have hkeys : (records.contents.reverse.map Prod.fst).Nodup := by
    rw [List.map_reverse, List.nodup_reverse]
    exact records.nodup
  exact hkeys.sublist ((List.filter_sublist).map _)

theorem slashedAddresses_active {activeValidators : List ActiveValidator}
    {records : VecMap Nat (List Nat)} (h : RecordsActive activeValidators records) :
    ∀ a ∈ slashedAddresses activeValidators records,
      isActiveValidatorByMgoAddress activeValidators a = true := by
  intro a ha
  obtain ⟨e, he, rfl⟩ := List.mem_map.mp ha
  exact (h e (List.mem_reverse.mp (List.mem_filter.mp he).1)).1

/-- The positions of the slashed validators, which `get_validator_indices`
    returns. -/
def slashedIndices (activeValidators : List ActiveValidator) (records : VecMap Nat (List Nat)) :
    List Nat :=
  (slashedAddresses activeValidators records).map (indexOf activeValidators)

section Slashed

variable {activeValidators : List ActiveValidator} {records : VecMap Nat (List Nat)}

theorem slashedIndices_nodup (h : RecordsActive activeValidators records) :
    (slashedIndices activeValidators records).Nodup :=
  (slashedAddresses_nodup activeValidators records).map_on fun a ha b hb hab =>
    indexOf_injOn (slashedAddresses_active h a ha) (slashedAddresses_active h b hb) hab

theorem slashedIndices_lt (h : RecordsActive activeValidators records) :
    ∀ i ∈ slashedIndices activeValidators records, i < activeValidators.length := by
  intro i hi
  obtain ⟨a, ha, rfl⟩ := List.mem_map.mp hi
  exact indexOf_lt (slashedAddresses_active h a ha)

/-- The voting power of the slashed validators, over their positions. -/
theorem addressesVotingPower_slashed (h : RecordsActive activeValidators records) :
    addressesVotingPower activeValidators (slashedAddresses activeValidators records) =
      ((activeValidators.zipIdx.filter fun x => x.2 ∈ slashedIndices activeValidators records).map
        fun x => x.1.votingPower).sum := by
  have hmap : addressesVotingPower activeValidators (slashedAddresses activeValidators records) =
      ((slashedIndices activeValidators records).map (votingPowerAt activeValidators)).sum := by
    unfold addressesVotingPower slashedIndices
    rw [List.map_map]
    rfl
  rw [hmap, sum_map_eq_sum_filter_zipIdx activeValidators (slashedIndices_nodup h) (slashedIndices_lt h)]
  refine congrArg List.sum (List.map_congr_left fun x hx => ?_)
  rw [votingPowerAt, List.mem_zipIdx_iff_getElem?.mp (List.mem_filter.mp hx).1]
  rfl

end Slashed

/-- What `compute_reward_adjustments` leaves: the totals of the adjustments of
    the slashed indices, and maps that hold each of them. -/
theorem computeRewardAdjustments_eq {idx : List Nat} (hnd : idx.Nodup) (r : Nat) {us ws : List Nat}
    (hlt : ∀ i ∈ idx, i < us.length ∧ i < ws.length) :
    ∃ m₁ m₂, computeRewardAdjustments idx r us ws =
        .ok ((idx.map fun i => us[i]?.getD 0 * r / basisPointDenominator).sum, m₁,
          (idx.map fun i => ws[i]?.getD 0 * r / basisPointDenominator).sum, m₂) ∧
      m₁.contents = idx.reverse.map (fun i => (i, us[i]?.getD 0 * r / basisPointDenominator)) ∧
      m₂.contents = idx.reverse.map (fun i => (i, ws[i]?.getD 0 * r / basisPointDenominator)) := by
  let a := fun i : Nat => us[i]?.getD 0 * r / basisPointDenominator
  let b := fun i : Nat => ws[i]?.getD 0 * r / basisPointDenominator
  -- the loop over the popped indices keeps the totals and maps of those done
  let P : List Nat → Nat × VecMap Nat Nat × Nat × VecMap Nat Nat → Prop := fun done acc =>
    acc.1 = (done.map a).sum ∧ acc.2.1.contents = done.map (fun i => (i, a i)) ∧
      acc.2.2.1 = (done.map b).sum ∧ acc.2.2.2.contents = done.map (fun i => (i, b i))
  obtain ⟨acc, hacc, h₁, hm₁, h₂, hm₂⟩ :
      ∃ acc, computeRewardAdjustments idx r us ws = .ok acc ∧ P idx.reverse acc := by
    refine foldlM_ok_of_step P _ _ ?_ _ ⟨rfl, rfl, rfl, rfl⟩
    intro done x rest acc hl ⟨h₁, hm₁, h₂, hm₂⟩
    have hx : x ∈ idx := List.mem_reverse.mp (hl ▸ List.mem_append_right _ List.mem_cons_self)
    -- a popped index is not among those done
    have hfresh : x ∉ done := by
      have hnd' : (done ++ x :: rest).Nodup := hl ▸ List.nodup_reverse.mpr hnd
      exact fun hd => (List.nodup_append.mp hnd').2.2 x hd x List.mem_cons_self rfl
    have hkeys : ∀ f : Nat → Nat, (done.map fun i => (i, f i)).map Prod.fst = done := fun f => by
      rw [List.map_map]
      exact List.map_id _
    obtain ⟨m₁, hins₁, hc₁⟩ := VecMap.insert_eq_some (a x) (by rw [hm₁, hkeys]; exact hfresh)
    obtain ⟨m₂, hins₂, hc₂⟩ := VecMap.insert_eq_some (b x) (by rw [hm₂, hkeys]; exact hfresh)
    refine ⟨(acc.1 + a x, m₁, acc.2.2.1 + b x, m₂), ?_, ?_, ?_, ?_, ?_⟩
    · have hu : us[x]? = some (us[x]?.getD 0) := by
        rw [List.getElem?_eq_getElem (hlt x hx).1]
        rfl
      have hw : ws[x]? = some (ws[x]?.getD 0) := by
        rw [List.getElem?_eq_getElem (hlt x hx).2]
        rfl
      have hins₁' : acc.2.1.insert x (us[x]?.getD 0 * r / basisPointDenominator) = some m₁ := hins₁
      have hins₂' : acc.2.2.2.insert x (ws[x]?.getD 0 * r / basisPointDenominator) = some m₂ := hins₂
      rw [borrowAmount_of_getElem? hu, pure_bind]
      dsimp only
      rw [hins₁', orAbort_some, pure_bind, borrowAmount_of_getElem? hw, pure_bind, hins₂',
        orAbort_some, pure_bind]
      rfl
    · simp [h₁, a]
    · simp [hc₁, hm₁]
    · simp [h₂, b]
    · simp [hc₂, hm₂]
  obtain ⟨t₁, m₁, t₂, m₂⟩ := acc
  refine ⟨m₁, m₂, ?_, hm₁, hm₂⟩
  simp only [List.map_reverse, List.sum_reverse] at h₁ h₂
  rw [hacc, h₁, h₂]

section Maps

variable {m : VecMap Nat Nat} {idx : List Nat} {f : Nat → Nat}

/-- A map of the adjustments holds exactly the slashed indices. -/
theorem contains_of_contents (h : m.contents = idx.reverse.map fun i => (i, f i)) (i : Nat) :
    m.contains i = decide (i ∈ idx) := by
  rw [Bool.eq_iff_iff, VecMap.contains_iff, h, List.map_map]
  simp

theorem get_of_contents (h : m.contents = idx.reverse.map fun i => (i, f i)) {i : Nat} (hi : i ∈ idx) :
    m.get i = some (f i) :=
  VecMap.get_eq_some (by rw [h]; exact List.mem_map.mpr ⟨i, List.mem_reverse.mpr hi, rfl⟩)

theorem size_of_contents (h : m.contents = idx.reverse.map fun i => (i, f i)) : m.size = idx.length := by
  rw [VecMap.size, h, List.length_map, List.length_reverse]

end Maps

/-! ## The unadjusted and adjusted amounts -/

theorem computeUnadjustedRewardDistribution_eq {validators : List ActiveValidator}
    {totalVotingPower totalStakingReward totalStorageFundReward : Nat} (hne : 0 < validators.length)
    (htotal : 0 < totalVotingPower) :
    computeUnadjustedRewardDistribution validators totalVotingPower totalStakingReward
        totalStorageFundReward =
      .ok (validators.map fun v => v.votingPower * totalStakingReward / totalVotingPower,
        validators.map fun _ => totalStorageFundReward / validators.length) := by
  unfold computeUnadjustedRewardDistribution
  rw [divChecked_of_pos hne, pure_bind, mapM_eq_ok_map fun v _ => divChecked_of_pos htotal]
  rfl

theorem adjustAmount_of_mem {m : VecMap Nat Nat} {i unadjusted adjustment : Nat}
    {share : Except Abort Nat} (hc : m.contains i = true) (hget : m.get i = some adjustment)
    (hle : adjustment ≤ unadjusted) : adjustAmount m i unadjusted share = pure (unadjusted - adjustment) := by
  rw [adjustAmount, if_pos hc, hget, orAbort_some, pure_bind, subChecked_of_le hle]

theorem adjustAmount_of_not_mem {m : VecMap Nat Nat} {i unadjusted s : Nat} {share : Except Abort Nat}
    (hc : m.contains i = false) (hs : share = pure s) :
    adjustAmount m i unadjusted share = pure (unadjusted + s) := by
  rw [adjustAmount, if_neg (by rw [hc]; exact Bool.false_ne_true), hs, pure_bind]

/-- **What `compute_adjusted_reward_distribution` computes** from maps that
    hold the adjustments of the slashed indices, no larger than the amounts
    they adjust, and divisors that are positive where an unslashed validator
    needs them. -/
theorem computeAdjustedRewardDistribution_eq {validators : List ActiveValidator}
    {totalVotingPower totalSlashed totalStaking totalStorageFund : Nat} {us ws : List Nat}
    {m₁ m₂ : VecMap Nat Nat} {idx : List Nat} {u w : ActiveValidator × Nat → Nat} {a₁ a₂ : Nat → Nat}
    (hslashed : totalSlashed ≤ totalVotingPower) (hsize : m₁.size ≤ validators.length)
    (hus : ∀ x ∈ validators.zipIdx, us[x.2]? = some (u x))
    (hws : ∀ x ∈ validators.zipIdx, ws[x.2]? = some (w x))
    (hc₁ : ∀ i, m₁.contains i = decide (i ∈ idx)) (hg₁ : ∀ i ∈ idx, m₁.get i = some (a₁ i))
    (hc₂ : ∀ i, m₂.contains i = decide (i ∈ idx)) (hg₂ : ∀ i ∈ idx, m₂.get i = some (a₂ i))
    (hle₁ : ∀ x ∈ validators.zipIdx, x.2 ∈ idx → a₁ x.2 ≤ u x)
    (hle₂ : ∀ x ∈ validators.zipIdx, x.2 ∈ idx → a₂ x.2 ≤ w x)
    (hpos : ∀ x ∈ validators.zipIdx, x.2 ∉ idx →
      0 < totalVotingPower - totalSlashed ∧ 0 < validators.length - m₁.size) :
    computeAdjustedRewardDistribution validators totalVotingPower totalSlashed us ws totalStaking m₁
        totalStorageFund m₂ =
      .ok (validators.zipIdx.map fun x => if x.2 ∈ idx then u x - a₁ x.2
          else u x + totalStaking * x.1.votingPower / (totalVotingPower - totalSlashed),
        validators.zipIdx.map fun x => if x.2 ∈ idx then w x - a₂ x.2
          else w x + totalStorageFund / (validators.length - m₁.size)) := by
  unfold computeAdjustedRewardDistribution
  rw [subChecked_of_le hslashed, pure_bind, subChecked_of_le hsize, pure_bind,
    @mapM_eq_ok_map _ _ _ _ (fun x => (if x.2 ∈ idx then u x - a₁ x.2
        else u x + totalStaking * x.1.votingPower / (totalVotingPower - totalSlashed),
      if x.2 ∈ idx then w x - a₂ x.2 else w x + totalStorageFund / (validators.length - m₁.size)))
      _ fun x hx => ?_]
  · have hunzip : ∀ {β γ : Type} (l : List (ActiveValidator × Nat)) (g : ActiveValidator × Nat → β × γ),
        (l.map g).unzip = (l.map fun x => (g x).1, l.map fun x => (g x).2) := fun l g =>
      Prod.ext (by rw [List.unzip_fst, List.map_map]; rfl) (by rw [List.unzip_snd, List.map_map]; rfl)
    exact congrArg Except.ok (hunzip _ _)
  · obtain ⟨v, i⟩ := x
    have hu : us[i]? = some (u (v, i)) := hus _ hx
    have hw : ws[i]? = some (w (v, i)) := hws _ hx
    dsimp only
    -- each amount is its own branch of `adjustAmount`, by whether `i` was slashed
    by_cases hi : i ∈ idx
    · rw [borrowAmount_of_getElem? hu, pure_bind,
        adjustAmount_of_mem (by rw [hc₁]; simpa using hi) (hg₁ i hi) (hle₁ _ hx hi), pure_bind,
        borrowAmount_of_getElem? hw, pure_bind,
        adjustAmount_of_mem (by rw [hc₂]; simpa using hi) (hg₂ i hi) (hle₂ _ hx hi), pure_bind,
        if_pos hi, if_pos hi]
      rfl
    · obtain ⟨hU, hk⟩ := hpos _ hx hi
      rw [borrowAmount_of_getElem? hu, pure_bind,
        adjustAmount_of_not_mem (by rw [hc₁]; simpa using hi) (divChecked_of_pos hU), pure_bind,
        borrowAmount_of_getElem? hw, pure_bind,
        adjustAmount_of_not_mem (by rw [hc₂]; simpa using hi) (divChecked_of_pos hk), pure_bind,
        if_neg hi, if_neg hi]
      rfl

/-! ## What the adjusted amounts add up to -/

section Bounds

variable {validators : List ActiveValidator} {idx : List Nat}

/-- What the unslashed validators hold is the total less what the slashed ones
    hold. -/
theorem unslashed_votingPower {total : Nat}
    (htotal : (validators.map ActiveValidator.votingPower).sum = total) :
    total - ((validators.zipIdx.filter fun x => x.2 ∈ idx).map fun x => x.1.votingPower).sum =
      ((validators.zipIdx.filter fun x => ¬x.2 ∈ idx).map fun x => x.1.votingPower).sum := by
  have hsplit := List.sum_map_filter_add_sum_map_filter_not (fun x : ActiveValidator × Nat => x.2 ∈ idx)
    (fun x => x.1.votingPower) validators.zipIdx
  rw [map_zipIdx_fst, htotal] at hsplit
  omega

/-- The unslashed validators are those left once the slashed ones are counted. -/
theorem unslashed_count (hnd : idx.Nodup) (hlt : ∀ i ∈ idx, i < validators.length) :
    validators.length - idx.length =
      ((validators.zipIdx.filter fun x => ¬x.2 ∈ idx).map fun _ => 1).sum := by
  have hlen := @List.length_eq_length_filter_add _ validators.zipIdx fun x => decide (x.2 ∈ idx)
  have hsel := (perm_map_snd_filter_zipIdx validators hnd hlt).length_eq
  rw [List.length_map] at hsel
  simp only [List.length_zipIdx, List.map_const', List.sum_const_nat, Nat.mul_one, decide_not]
    at hlen ⊢
  omega

/-- The staking rewards, with the slashed shares handed on by voting power,
    add up to at most the computation reward. -/
theorem sum_adjusted_staking_le (hnd : idx.Nodup) (hlt : ∀ i ∈ idx, i < validators.length)
    {reward total totalSlashed : Nat} (a : Nat → Nat)
    (htotal : (validators.map ActiveValidator.votingPower).sum = total)
    (hslashed : totalSlashed =
      ((validators.zipIdx.filter fun x => x.2 ∈ idx).map fun x => x.1.votingPower).sum)
    (hle : ∀ x ∈ validators.zipIdx, x.2 ∈ idx → a x.2 ≤ x.1.votingPower * reward / total) :
    (validators.zipIdx.map fun x => if x.2 ∈ idx then x.1.votingPower * reward / total - a x.2
      else x.1.votingPower * reward / total +
        (idx.map a).sum * x.1.votingPower / (total - totalSlashed)).sum ≤ reward := by
  rw [sum_map_eq_sum_filter_zipIdx validators hnd hlt a, hslashed, unslashed_votingPower htotal]
  calc _ ≤ (validators.zipIdx.map fun x => x.1.votingPower * reward / total).sum :=
        sum_redistribute_le _ _ _ _ _ hle
    _ = ((validators.map ActiveValidator.votingPower).map fun p => reward * p / total).sum := by
        rw [map_zipIdx_fst validators fun v => v.votingPower * reward / total, List.map_map]
        simp only [Function.comp_def, Nat.mul_comm]
    _ ≤ reward * (validators.map ActiveValidator.votingPower).sum / total := sum_map_mul_div_le _ _ _
    _ ≤ reward := by
        rw [htotal]
        rcases Nat.eq_zero_or_pos total with rfl | hpos
        · simp
        · rw [Nat.mul_div_cancel _ hpos]

/-- The storage fund rewards, with the slashed shares handed on in equal parts,
    add up to at most the storage fund reward. -/
theorem sum_adjusted_storage_le (hnd : idx.Nodup) (hlt : ∀ i ∈ idx, i < validators.length)
    {reward : Nat} (a : Nat → Nat)
    (hle : ∀ x ∈ validators.zipIdx, x.2 ∈ idx → a x.2 ≤ reward / validators.length) :
    (validators.zipIdx.map fun x => if x.2 ∈ idx then reward / validators.length - a x.2
      else reward / validators.length +
        (idx.map a).sum / (validators.length - idx.length)).sum ≤ reward := by
  have hbound := sum_redistribute_le validators.zipIdx (fun x => x.2 ∈ idx)
    (fun _ => reward / validators.length) (fun x => a x.2) (fun _ => 1) hle
  simp only [Nat.mul_one] at hbound
  rw [sum_map_eq_sum_filter_zipIdx validators hnd hlt a, unslashed_count hnd hlt]
  refine Nat.le_trans hbound ?_
  simp only [List.map_const', List.sum_const_nat, List.length_zipIdx]
  exact Nat.mul_div_le reward validators.length

end Bounds

/-! ## Paying the rewards out -/

/-- **`distribute_reward` never splits more than a balance holds** when the
    amounts it is given sum to at most the balances: it returns, and leaves
    the balances less the amounts. By the loop over the validators, with what
    is left of each balance and what was split off so far adding up to it. -/
theorem distributeReward_ok {validators : List ActiveValidator} (g₁ g₂ : ActiveValidator × Nat → Nat)
    {stakingRewards storageFundReward : Nat} (epoch : Nat) (hne : 0 < validators.length)
    (hstaking : (validators.zipIdx.map g₁).sum ≤ stakingRewards)
    (hstorage : (validators.zipIdx.map g₂).sum ≤ storageFundReward)
    (hcomm : ∀ v ∈ validators, v.commissionRate ≤ basisPointDenominator)
    (hpool : ∀ v ∈ validators, v.stakingPool.isInactive = false) :
    ∃ validators', distributeReward validators (validators.zipIdx.map g₁) (validators.zipIdx.map g₂)
        stakingRewards storageFundReward epoch =
      .ok (validators', stakingRewards - (validators.zipIdx.map g₁).sum,
        storageFundReward - (validators.zipIdx.map g₂).sum) := by
  let P : List (ActiveValidator × Nat) → List ActiveValidator × Nat × Nat → Prop := fun done acc =>
    acc.2.1 + (done.map g₁).sum = stakingRewards ∧ acc.2.2 + (done.map g₂).sum = storageFundReward
  obtain ⟨⟨validators', left₁, left₂⟩, hacc, h₁, h₂⟩ :
      ∃ acc, distributeReward validators (validators.zipIdx.map g₁) (validators.zipIdx.map g₂)
        stakingRewards storageFundReward epoch = .ok acc ∧ P validators.zipIdx acc := by
    simp only [distributeReward, hne, not_true_eq_false, if_false]
    refine foldlM_ok_of_step P _ _ ?_ _ ⟨by simp, by simp⟩
    intro done x rest acc hl ⟨h₁, h₂⟩
    obtain ⟨v, i⟩ := x
    have hx : (v, i) ∈ validators.zipIdx := hl ▸ List.mem_append_right _ List.mem_cons_self
    have hv : v ∈ validators := List.mem_of_getElem? (List.mem_zipIdx_iff_getElem?.mp hx)
    -- what is split off here fits in what the validators before left
    have hsum : ∀ g : ActiveValidator × Nat → Nat,
        (validators.zipIdx.map g).sum = (done.map g).sum + g (v, i) + (rest.map g).sum := fun g => by
      rw [hl, List.map_append, List.map_cons, List.sum_append, List.sum_cons, Nat.add_assoc]
    have hle₁ : g₁ (v, i) ≤ acc.2.1 := by have := hsum g₁; omega
    have hle₂ : g₂ (v, i) ≤ acc.2.2 := by have := hsum g₂; omega
    have hcomm' : g₁ (v, i) * v.commissionRate / basisPointDenominator ≤ g₁ (v, i) :=
      commission_le (hcomm v hv)
    have hP : ∀ acc' : List ActiveValidator × Nat × Nat, acc'.2.1 = acc.2.1 - g₁ (v, i) →
        acc'.2.2 = acc.2.2 - g₂ (v, i) → P (done ++ [(v, i)]) acc' := by
      intro acc' e₁ e₂
      refine ⟨?_, ?_⟩ <;>
        simp only [e₁, e₂, List.map_append, List.sum_append, List.map_singleton, List.sum_singleton] <;>
        omega
    -- the validator's reward is staked when there is one
    by_cases hr : 0 < g₁ (v, i) * v.commissionRate / basisPointDenominator + g₂ (v, i)
    · obtain ⟨added, hadd⟩ : ∃ added, v.toValidator.requestAddStake
          (g₁ (v, i) * v.commissionRate / basisPointDenominator + g₂ (v, i)) epoch = some added :=
        Validator.requestAddStake_isSome _ (hpool v hv) hr
      refine ⟨?staked, ?stakedEq, ?stakedPost⟩
      case stakedEq =>
        rw [borrowAmount_of_getElem? (getElem?_map_zipIdx_of_mem g₁ hx), pure_bind, split_of_le hle₁,
          pure_bind, split_of_le hcomm', pure_bind,
          borrowAmount_of_getElem? (getElem?_map_zipIdx_of_mem g₂ hx), pure_bind, split_of_le hle₂,
          pure_bind, if_pos hr, hadd, orAbort_some, pure_bind, pure_bind]
        rfl
      case stakedPost => exact hP _ rfl rfl
    · refine ⟨?kept, ?keptEq, ?keptPost⟩
      case keptEq =>
        rw [borrowAmount_of_getElem? (getElem?_map_zipIdx_of_mem g₁ hx), pure_bind, split_of_le hle₁,
          pure_bind, split_of_le hcomm', pure_bind,
          borrowAmount_of_getElem? (getElem?_map_zipIdx_of_mem g₂ hx), pure_bind, split_of_le hle₂,
          pure_bind, if_neg hr, pure_bind]
        rfl
      case keptPost => exact hP _ rfl rfl
  refine ⟨validators', ?_⟩
  rw [hacc]
  dsimp only at h₁ h₂
  rw [← h₁, ← h₂, Nat.add_sub_cancel, Nat.add_sub_cancel]

/-- **The rewards leave the epochs and the rates of every pool as they
    were**: they are staked and deposited into the pools. -/
theorem distributeReward_rateFields {validators out : List ActiveValidator} {a₁ a₂ : List Nat}
    {stakingRewards storageFundReward epoch left₁ left₂ : Nat}
    (h : distributeReward validators a₁ a₂ stakingRewards storageFundReward epoch = .ok (out, left₁, left₂)) :
    ∀ w ∈ out, ∃ v ∈ validators, w.stakingPool.rateFields = v.stakingPool.rateFields := by
  unfold distributeReward at h
  obtain ⟨-, h⟩ := Except.ite_throw_bind_eq_ok.mp h
  refine foldlM_ok_inv (fun acc : List ActiveValidator × Nat × Nat =>
    ∀ w ∈ acc.1, ∃ v ∈ validators, w.stakingPool.rateFields = v.stakingPool.rateFields) _ _ _ _ (by simp) ?_ h
  rintro ⟨v, i⟩ hx acc acc' hacc hstep
  have hv : v ∈ validators := List.mem_of_getElem? (List.mem_zipIdx_iff_getElem?.mp hx)
  -- the amounts and the splits leave the validator as it is
  obtain ⟨_, -, hstep⟩ := Except.bind_eq_ok.mp hstep
  obtain ⟨left, -, hstep⟩ := Except.bind_eq_ok.mp hstep
  obtain ⟨stakerReward, -, hstep⟩ := Except.bind_eq_ok.mp hstep
  obtain ⟨_, -, hstep⟩ := Except.bind_eq_ok.mp hstep
  obtain ⟨left', -, hstep⟩ := Except.bind_eq_ok.mp hstep
  dsimp only at hstep
  -- the validator's reward, if any, is staked into its pool first
  obtain ⟨staked, hstaked, rfl⟩ : ∃ staked : ActiveValidator,
      staked.stakingPool.rateFields = v.stakingPool.rateFields ∧
      acc' = (acc.1 ++ [{ staked with toValidator := staked.depositStakeRewards stakerReward }], left, left') := by
    split at hstep
    · obtain ⟨added, hadded, hstep⟩ := Except.bind_eq_ok.mp hstep
      exact ⟨{ v with toValidator := added.1 }, v.toValidator.rateFields_of_requestAddStake (orAbort_eq_ok.mp hadded),
        (Except.pure_eq_ok.mp hstep).symm⟩
    · exact ⟨v, rfl, (Except.pure_eq_ok.mp hstep).symm⟩
  intro w hw
  rcases List.mem_append.mp hw with hw | hw
  · exact hacc w hw
  · rw [List.mem_singleton.mp hw]
    exact ⟨v, hv, (staked.toValidator.rateFields_depositStakeRewards _).trans hstaked⟩

/-! ## The rewards of an epoch change -/

/-- The computation of the adjusted rewards comes down to its last step once
    the steps before it have returned what their specs say. -/
theorem computeAdjustedRewards_eq {activeValidators : List ActiveValidator}
    {computationReward storageFundReward rewardSlashingRate T₁ T₂ : Nat}
    {records : VecMap Nat (List Nat)} {m₁ m₂ : VecMap Nat Nat} (hn : 0 < activeValidators.length)
    (hrecords : RecordsActive activeValidators records)
    (hadj : computeRewardAdjustments (slashedIndices activeValidators records) rewardSlashingRate
      (activeValidators.map fun v => v.votingPower * computationReward / totalVotingPower)
      (activeValidators.map fun _ => storageFundReward / activeValidators.length) = .ok (T₁, m₁, T₂, m₂)) :
    computeAdjustedRewards activeValidators computationReward storageFundReward records
        rewardSlashingRate =
      computeAdjustedRewardDistribution activeValidators totalVotingPower
        (addressesVotingPower activeValidators (slashedAddresses activeValidators records))
        (activeValidators.map fun v => v.votingPower * computationReward / totalVotingPower)
        (activeValidators.map fun _ => storageFundReward / activeValidators.length) T₁ m₁ T₂ m₂ := by
  unfold computeAdjustedRewards
  rw [computeUnadjustedRewardDistribution_eq hn (by decide : 0 < totalVotingPower), Except.ok_bind]
  dsimp only
  rw [computeSlashedValidators_eq hrecords, Except.ok_bind,
    sumVotingPowerByAddresses_eq (slashedAddresses_active hrecords), Except.ok_bind,
    getValidatorIndices_eq (slashedAddresses_active hrecords), Except.ok_bind]
  rw [show (slashedAddresses activeValidators records).map (indexOf activeValidators) =
    slashedIndices activeValidators records from rfl, hadj, Except.ok_bind]

/-- **The rewards of an epoch change stay within the two balances** when every
    active validator holds voting power: the adjusted amounts sum to at most
    the computation reward and the storage fund reward, no step aborts (no
    division by zero, no adjustment larger than what it adjusts, no split
    larger than its balance), and the balances are left with what was not
    paid out. -/
theorem advanceEpochRewards_within_balances (activeValidators : List ActiveValidator)
    (computationReward storageFundReward : Nat) (validatorReportRecords : VecMap Nat (List Nat))
    (rewardSlashingRate epoch : Nat) (hne : activeValidators ≠ [])
    (hsum : (activeValidators.map ActiveValidator.votingPower).sum = totalVotingPower)
    (hpos : ∀ v ∈ activeValidators, 0 < v.votingPower)
    (hcomm : ∀ v ∈ activeValidators, v.commissionRate ≤ 2000)
    (hpool : ∀ v ∈ activeValidators, v.stakingPool.isInactive = false)
    (hrecords : RecordsActive activeValidators validatorReportRecords)
    (hrate : rewardSlashingRate ≤ basisPointDenominator) :
    ∃ adjustedStaking adjustedStorageFund validators',
      computeAdjustedRewards activeValidators computationReward storageFundReward
          validatorReportRecords rewardSlashingRate = .ok (adjustedStaking, adjustedStorageFund) ∧
      adjustedStaking.sum ≤ computationReward ∧ adjustedStorageFund.sum ≤ storageFundReward ∧
      advanceEpochRewards activeValidators computationReward storageFundReward validatorReportRecords
          rewardSlashingRate epoch =
        .ok (validators', computationReward - adjustedStaking.sum,
          storageFundReward - adjustedStorageFund.sum) := by
  have hn : 0 < activeValidators.length := List.length_pos_iff.mpr hne
  have hnd := slashedIndices_nodup hrecords
  have hlt := slashedIndices_lt hrecords
  let us := activeValidators.map fun v => v.votingPower * computationReward / totalVotingPower
  let ws := activeValidators.map fun _ => storageFundReward / activeValidators.length
  obtain ⟨m₁, m₂, hadj, hm₁, hm₂⟩ := computeRewardAdjustments_eq hnd rewardSlashingRate
    (fun i hi => ⟨by simp [us]; exact hlt i hi, by simp [ws]; exact hlt i hi⟩ :
      ∀ i ∈ slashedIndices activeValidators validatorReportRecords, i < us.length ∧ i < ws.length)
  -- the unadjusted amounts, read at each position
  have hus : ∀ x ∈ activeValidators.zipIdx,
      us[x.2]? = some (x.1.votingPower * computationReward / totalVotingPower) := fun x hx => by
    rw [List.getElem?_map, List.mem_zipIdx_iff_getElem?.mp hx]
    rfl
  have hws : ∀ x ∈ activeValidators.zipIdx,
      ws[x.2]? = some (storageFundReward / activeValidators.length) := fun x hx => by
    rw [List.getElem?_map, List.mem_zipIdx_iff_getElem?.mp hx]
    rfl
  have ha₁ : ∀ x ∈ activeValidators.zipIdx, x.2 ∈ slashedIndices activeValidators validatorReportRecords →
      us[x.2]?.getD 0 * rewardSlashingRate / basisPointDenominator ≤
        x.1.votingPower * computationReward / totalVotingPower := fun x hx _ => by
    rw [hus x hx, Option.getD_some]
    exact commission_le hrate
  have ha₂ : ∀ x ∈ activeValidators.zipIdx, x.2 ∈ slashedIndices activeValidators validatorReportRecords →
      ws[x.2]?.getD 0 * rewardSlashingRate / basisPointDenominator ≤
        storageFundReward / activeValidators.length := fun x hx _ => by
    rw [hws x hx, Option.getD_some]
    exact commission_le hrate
  have hslashed := addressesVotingPower_slashed hrecords
  have hsize := size_of_contents hm₁
  -- an unslashed validator holds voting power, so the divisors it needs are positive
  have hdiv : ∀ x ∈ activeValidators.zipIdx, x.2 ∉ slashedIndices activeValidators validatorReportRecords →
      0 < totalVotingPower - addressesVotingPower activeValidators
          (slashedAddresses activeValidators validatorReportRecords) ∧
        0 < activeValidators.length - m₁.size := by
    intro x hx hxi
    have hmem : x ∈ activeValidators.zipIdx.filter fun y =>
        ¬y.2 ∈ slashedIndices activeValidators validatorReportRecords :=
      List.mem_filter.mpr ⟨hx, by simpa using hxi⟩
    have hv : x.1 ∈ activeValidators := List.mem_of_getElem? (List.mem_zipIdx_iff_getElem?.mp hx)
    rw [hslashed, unslashed_votingPower hsum, hsize, unslashed_count hnd hlt]
    exact ⟨Nat.lt_of_lt_of_le (hpos x.1 hv) (List.le_sum_of_mem (List.mem_map_of_mem hmem)),
      Nat.lt_of_lt_of_le Nat.zero_lt_one (List.le_sum_of_mem (List.mem_map_of_mem hmem))⟩
  have hslashedLe : addressesVotingPower activeValidators
      (slashedAddresses activeValidators validatorReportRecords) ≤ totalVotingPower := by
    have hsplit := List.sum_map_filter_add_sum_map_filter_not
      (fun x : ActiveValidator × Nat => x.2 ∈ slashedIndices activeValidators validatorReportRecords)
      (fun x => x.1.votingPower) activeValidators.zipIdx
    rw [map_zipIdx_fst, hsum] at hsplit
    rw [hslashed]
    omega
  have hsizeLe : m₁.size ≤ activeValidators.length := by
    rw [hsize, ← List.length_range (n := activeValidators.length)]
    exact (List.subperm_of_subset hnd fun i hi => List.mem_range.mpr (hlt i hi)).length_le
  have hadjusted := @computeAdjustedRewardDistribution_eq activeValidators totalVotingPower _
    ((slashedIndices activeValidators validatorReportRecords).map
      fun i => us[i]?.getD 0 * rewardSlashingRate / basisPointDenominator).sum
    ((slashedIndices activeValidators validatorReportRecords).map
      fun i => ws[i]?.getD 0 * rewardSlashingRate / basisPointDenominator).sum
    _ _ _ _ _ _ _ _ _ hslashedLe hsizeLe hus hws (contains_of_contents hm₁)
    (fun i hi => get_of_contents hm₁ hi) (contains_of_contents hm₂) (fun i hi => get_of_contents hm₂ hi)
    ha₁ ha₂ hdiv
  rw [hsize] at hadjusted
  have hstaking := sum_adjusted_staking_le hnd hlt
    (fun i => us[i]?.getD 0 * rewardSlashingRate / basisPointDenominator) hsum hslashed ha₁
  have hstorage := sum_adjusted_storage_le hnd hlt
    (fun i => ws[i]?.getD 0 * rewardSlashingRate / basisPointDenominator) ha₂
  have hcomputed := (computeAdjustedRewards_eq hn hrecords hadj).trans hadjusted
  obtain ⟨validators', hdistributed⟩ := distributeReward_ok _ _ epoch hn hstaking hstorage
    (fun v hv => Nat.le_trans (hcomm v hv) (by decide)) hpool
  refine ⟨_, _, validators', hcomputed, hstaking, hstorage, ?_⟩
  rw [advanceEpochRewards, hcomputed, Except.ok_bind]
  exact hdistributed

/-- The active validators after the rewards have the epochs and the rates of
    their pools as before. -/
theorem advanceEpochRewards_rateFields {activeValidators out : List ActiveValidator}
    {computationReward storageFundReward rewardSlashingRate epoch left₁ left₂ : Nat}
    {validatorReportRecords : VecMap Nat (List Nat)}
    (h : advanceEpochRewards activeValidators computationReward storageFundReward validatorReportRecords
      rewardSlashingRate epoch = .ok (out, left₁, left₂)) :
    ∀ w ∈ out, ∃ v ∈ activeValidators, w.stakingPool.rateFields = v.stakingPool.rateFields := by
  obtain ⟨_, -, h⟩ := Except.bind_eq_ok.mp h
  exact distributeReward_rateFields h

/-- Four validators that hold all the voting power, each reported by the
    others, and a fifth without voting power. -/
def zeroPowerValidators : List ActiveValidator :=
  [⟨⟨StakingPool.new, 0⟩, 1, 3333, 0, 0⟩, ⟨⟨StakingPool.new, 0⟩, 2, 3333, 0, 0⟩,
    ⟨⟨StakingPool.new, 0⟩, 3, 3333, 0, 0⟩, ⟨⟨StakingPool.new, 0⟩, 4, 1, 0, 0⟩,
    ⟨⟨StakingPool.new, 0⟩, 5, 0, 0, 0⟩]

/-- Each of the first four of `zeroPowerValidators` reported by the other three. -/
def crossReports : VecMap Nat (List Nat) :=
  ⟨[(1, [2, 3, 4]), (2, [1, 3, 4]), (3, [1, 2, 4]), (4, [1, 2, 3])], by decide⟩

-- Without voting power the redistribution divides by zero: the four validators
-- with voting power are all slashed, so the unslashed voting power is zero, and
-- the share of the fifth validator divides by it. `check_invariants` never lets
-- a validator without power into the active set.
example :
    (zeroPowerValidators.map ActiveValidator.votingPower).sum = totalVotingPower ∧
    (∀ v ∈ zeroPowerValidators, v.commissionRate ≤ 2000) ∧
    RecordsActive zeroPowerValidators crossReports ∧
    addressesVotingPower zeroPowerValidators (slashedAddresses zeroPowerValidators crossReports) =
      totalVotingPower ∧
    advanceEpochRewards zeroPowerValidators 100 100 crossReports 0 0 = .error .arithmeticError :=
  ⟨by decide, by decide, by decide, by decide, by decide⟩

end ValidatorSet

end Mango.Framework
