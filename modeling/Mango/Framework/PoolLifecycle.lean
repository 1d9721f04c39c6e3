/-
  Mango.Framework.PoolLifecycle

  A validator's staking pool through the epochs, driven the way
  `validator_set.move` drives it. Stake is added and withdrawn during an
  epoch; at its end (`advance_epoch`) an active validator gets its rewards,
  has its pool processed and may leave the set, and a candidate may join it;
  a candidate may also be removed before it joins, and the validators of
  the initial set are activated by genesis in epoch 0. The history keeps the
  stakes the pool issued and has not seen withdrawn, and what has been
  staked, deposited as rewards and returned to stakers, so that the pool's
  balances can be compared with them.
-/
import Mango.Framework.StakingPool

namespace Mango.Framework

open Mango.Lib

/-- A validator's pool at `epoch`, with the stakes it issued and not seen
    withdrawn, and the totals staked, deposited as rewards and returned. -/
structure PoolHistory where
  validator : Validator
  epoch : Nat
  stakes : List StakedMgo
  staked : Nat
  deposited : Nat
  returned : Nat
  deriving DecidableEq, Repr

/-- What the validator set does with one validator's pool. -/
inductive PoolOp where
  /-- `request_add_stake` -/
  | requestAddStake (stake : Nat)
  /-- `request_withdraw_stake` of the stake at `index` -/
  | requestWithdrawStake (index : Nat)
  /-- `advance_epoch`: the validator's rewards, and whether a candidate joins
      the set or an active validator leaves it -/
  | advanceEpoch (reward : Nat) (activate deactivate : Bool)
  /-- `request_remove_validator_candidate` -/
  | removeCandidate
  /-- `genesis::activate_validators`: a validator of the initial set is
      activated at epoch 0 -/
  | activateAtGenesis
  deriving DecidableEq, Repr

namespace PoolHistory

/-- A candidate validator at `epoch`: `new_from_metadata`, with a new pool. -/
def new (epoch : Nat) : PoolHistory := ⟨⟨StakingPool.new, 0⟩, epoch, [], 0, 0, 0⟩

variable (h : PoolHistory)

/-- The pool of the validator. -/
def pool : StakingPool := h.validator.stakingPool

/-- A validator in the active set: its pool is neither preactive nor
    inactive. -/
def isActive : Bool := !h.pool.isPreactive && !h.pool.isInactive

/-- What `validator_set::advance_epoch` does with the validator at the end of
    `epoch`: an active one gets its rewards (`deposit_stake_rewards`), has its
    pool processed and may leave the set (`deactivate` at the new epoch); a
    candidate may join it (`activate` at the new epoch). -/
def advanceValidator (reward : Nat) (activate deactivate : Bool) : Option Validator :=
  if h.isActive then do
    let validator ← (h.validator.depositStakeRewards reward).processPendingStakesAndWithdraws h.epoch
    if deactivate then validator.deactivate (h.epoch + 1) else pure validator
  else if h.pool.isPreactive && !h.pool.isInactive && activate then h.validator.activate (h.epoch + 1)
  else some h.validator

/-- One operation. -/
def step : PoolOp → Option PoolHistory
  | .requestAddStake stake => do
    let added ← h.validator.requestAddStake stake h.epoch
    pure { h with validator := added.1, stakes := h.stakes ++ [added.2], staked := h.staked + stake }
  | .requestWithdrawStake i => do
    let stakedMgo ← h.stakes[i]?
    let withdrawn ← h.validator.requestWithdrawStake stakedMgo h.epoch
    pure { h with
      validator := withdrawn.1
      stakes := h.stakes.eraseIdx i
      returned := h.returned + withdrawn.2 }
  | .advanceEpoch reward activate deactivate => do
    let validator ← h.advanceValidator reward activate deactivate
    pure { h with
      validator := validator
      epoch := h.epoch + 1
      deposited := h.deposited + if h.isActive then reward else 0 }
  | .removeCandidate =>
    if h.pool.isPreactive then do
      let validator ← h.validator.deactivate h.epoch
      pure { h with validator := validator }
    else none
  | .activateAtGenesis =>
    -- genesis runs in epoch 0 and activates the initial set there
    if h.epoch = 0 then do
      let validator ← h.validator.activate 0
      pure { h with validator := validator }
    else none

end PoolHistory

/-- The histories of a pool from a new candidate, through operations that
    `allowed` admits. -/
inductive Reachable (allowed : PoolHistory → PoolOp → Prop) : PoolHistory → Prop
  | new (epoch : Nat) : Reachable allowed (PoolHistory.new epoch)
  | step {h h' : PoolHistory} {op : PoolOp} : Reachable allowed h → allowed h op → h.step op = some h' →
      Reachable allowed h'

/-! ## The table of rates

An activated pool has a rate at its activation epoch, recorded by
`activate_staking_pool`, and the activation epoch is no later than the
current epoch nor than the deactivation epoch. The lookup of
`pool_token_exchange_rate_at_epoch` then never steps below the activation
epoch, and finds the latest rate recorded. -/

/-- What keeps the rate lookup of `pool` at `epoch` on the table. -/
structure StakingPool.RatesInv (pool : StakingPool) (epoch : Nat) : Prop where
  activation_key : ∀ a, pool.activationEpoch = some a → (vget pool.exchangeRates a).isSome
  activation_le_epoch : ∀ a, pool.activationEpoch = some a → a ≤ epoch
  activation_le_deactivation : ∀ a d, pool.activationEpoch = some a → pool.deactivationEpoch = some d → a ≤ d

namespace StakingPool.RatesInv

variable {pool pool' : StakingPool} {epoch : Nat}

theorem of_preactive (h : pool.activationEpoch = none) : RatesInv pool epoch where
  activation_key a ha := by rw [h] at ha; cases ha
  activation_le_epoch a ha := by rw [h] at ha; cases ha
  activation_le_deactivation a _ ha := by rw [h] at ha; cases ha

/-- Stake, withdrawals and rewards keep it, as later epochs do. -/
theorem of_rateFields (hinv : RatesInv pool epoch) (hf : pool'.rateFields = pool.rateFields) {epoch' : Nat}
    (he : epoch ≤ epoch') : RatesInv pool' epoch' := by
  simp only [rateFields, Prod.mk.injEq] at hf
  obtain ⟨ha, hd, hr⟩ := hf
  exact ⟨fun a h => hr ▸ hinv.activation_key a (ha ▸ h),
    fun a h => Nat.le_trans (hinv.activation_le_epoch a (ha ▸ h)) he,
    fun a d h h' => hinv.activation_le_deactivation a d (ha ▸ h) (hd ▸ h')⟩

/-- The rate recorded at the end of an epoch keeps the one of the activation
    epoch. -/
theorem processPendingStakesAndWithdraws (hinv : RatesInv pool epoch)
    (h : pool.processPendingStakesAndWithdraws epoch = some pool') : RatesInv pool' (epoch + 1) := by
  obtain ⟨ha, hd, exchangeRate, hr⟩ := pool.processPendingStakesAndWithdraws_eq_some h
  refine ⟨fun a h => ?_, fun a h => Nat.le_succ_of_le (hinv.activation_le_epoch a (ha ▸ h)),
    fun a d h h' => hinv.activation_le_deactivation a d (ha ▸ h) (hd ▸ h')⟩
  rw [hr, vget_vset]
  split
  · rfl
  · exact hinv.activation_key a (ha ▸ h)

/-- A deactivation at the current epoch comes after the activation. -/
theorem deactivate (hinv : RatesInv pool epoch) (h : pool.deactivateStakingPool epoch = some pool') :
    RatesInv pool' epoch := by
  obtain ⟨-, rfl⟩ := pool.deactivateStakingPool_eq_some h
  refine ⟨hinv.activation_key, hinv.activation_le_epoch, ?_⟩
  intro a d ha hd
  cases hd
  exact hinv.activation_le_epoch a ha

/-- An activation records the initial rate at its epoch, which is no later
    than the current one. -/
theorem activate {a : Nat} (h : pool.activateStakingPool a = some pool') (hae : a ≤ epoch) :
    RatesInv pool' epoch := by
  obtain ⟨hactive, ha, hd, hr⟩ := pool.activateStakingPool_eq_some h
  have hnone : pool.deactivationEpoch = none := by simpa [isInactive] using hactive
  refine ⟨fun a h => ?_, fun a h => ?_, fun a d _ h' => ?_⟩
  · rw [ha, Option.some.injEq] at h
    rw [hr, h, vget_vset_self]
    rfl
  · rw [ha, Option.some.injEq] at h
    exact h ▸ hae
  · rw [hd, hnone] at h'
    cases h'

end StakingPool.RatesInv

namespace PoolHistory

open StakingPool

variable {h h' : PoolHistory}

/-- The end of an epoch, for any validator. -/
theorem ratesInv_advanceValidator (hinv : RatesInv h.pool h.epoch) {reward : Nat} {activate deactivate : Bool}
    {validator : Validator} (hs : h.advanceValidator reward activate deactivate = some validator) :
    RatesInv validator.stakingPool (h.epoch + 1) := by
  unfold advanceValidator at hs
  split at hs
  · -- an active validator: rewards, then the pool processed, then maybe a departure
    obtain ⟨processed, hp, hs⟩ := Option.bind_eq_some_iff.mp hs
    have hpool : RatesInv (h.validator.depositStakeRewards reward).stakingPool h.epoch :=
      hinv.of_rateFields (h.validator.rateFields_depositStakeRewards reward) le_rfl
    have hprocessed := hpool.processPendingStakesAndWithdraws
      ((h.validator.depositStakeRewards reward).processPendingStakesAndWithdraws_eq_some hp)
    split at hs
    · obtain ⟨stakingPool, hd, hv⟩ := Option.bind_eq_some_iff.mp hs
      cases hv
      exact hprocessed.deactivate hd
    · cases hs
      exact hprocessed
  · split at hs
    · exact RatesInv.activate (h.validator.activate_eq_some hs) le_rfl
    · cases hs
      exact hinv.of_rateFields rfl (Nat.le_succ _)

/-- **One operation keeps the table of rates in shape.** -/
theorem ratesInv_step (hinv : RatesInv h.pool h.epoch) {op : PoolOp} (hs : h.step op = some h') :
    RatesInv h'.pool h'.epoch := by
  cases op with
  | requestAddStake stake =>
    obtain ⟨added, hadded, hs⟩ := Option.bind_eq_some_iff.mp hs
    cases hs
    exact hinv.of_rateFields (h.validator.rateFields_of_requestAddStake hadded) le_rfl
  | requestWithdrawStake i =>
    obtain ⟨stakedMgo, -, hs⟩ := Option.bind_eq_some_iff.mp hs
    obtain ⟨withdrawn, hw, hs⟩ := Option.bind_eq_some_iff.mp hs
    cases hs
    exact hinv.of_rateFields (h.validator.rateFields_of_requestWithdrawStake hw) le_rfl
  | advanceEpoch reward activate deactivate =>
    obtain ⟨validator, hv, hs⟩ := Option.bind_eq_some_iff.mp hs
    cases hs
    exact ratesInv_advanceValidator hinv hv
  | removeCandidate =>
    -- only a preactive pool is removed, and it stays preactive
    rw [PoolHistory.step] at hs
    split at hs
    · rename_i hpre
      obtain ⟨validator, hd, hs⟩ := Option.bind_eq_some_iff.mp hs
      cases hs
      obtain ⟨-, rfl⟩ := h.validator.deactivate_eq_some hd
      exact RatesInv.of_preactive (by simpa [isPreactive, pool] using hpre)
    · cases hs
  | activateAtGenesis =>
    rw [PoolHistory.step] at hs
    split at hs
    · obtain ⟨validator, hv, hs⟩ := Option.bind_eq_some_iff.mp hs
      cases hs
      exact RatesInv.activate (h.validator.activate_eq_some hv) (Nat.zero_le _)
    · cases hs

end PoolHistory

/-- Every reachable history keeps the table of rates in shape. -/
theorem Reachable.ratesInv {allowed : PoolHistory → PoolOp → Prop} {h : PoolHistory}
    (hr : Reachable allowed h) : h.pool.RatesInv h.epoch := by
  induction hr with
  | new epoch => exact StakingPool.RatesInv.of_preactive rfl
  | step _ _ hs ih => exact PoolHistory.ratesInv_step ih hs

/-- **The rate lookup of a reachable pool never aborts**: at every epoch,
    `pool_token_exchange_rate_at_epoch` returns the initial rate while the
    pool is preactive there, and otherwise the rate of the largest epoch with
    one from the activation epoch up to the epoch, clamped to the
    deactivation epoch. -/
theorem pool_token_exchange_rate_at_epoch_latest {allowed : PoolHistory → PoolOp → Prop} {h : PoolHistory}
    (hr : Reachable allowed h) (epoch : Nat) :
    (h.pool.isPreactiveAtEpoch epoch = true →
      h.pool.poolTokenExchangeRateAtEpoch epoch = some initialExchangeRate) ∧
    (h.pool.isPreactiveAtEpoch epoch = false →
      ∃ a k exchangeRate, h.pool.activationEpoch = some a ∧ a ≤ k ∧
        k ≤ min (h.pool.deactivationEpoch.getD epoch) epoch ∧ vget h.pool.exchangeRates k = some exchangeRate ∧
        (∀ k', k < k' → k' ≤ min (h.pool.deactivationEpoch.getD epoch) epoch →
          vget h.pool.exchangeRates k' = none) ∧
        h.pool.poolTokenExchangeRateAtEpoch epoch = some exchangeRate) := by
  have hinv := hr.ratesInv
  refine ⟨fun hpre => by simp [StakingPool.poolTokenExchangeRateAtEpoch, hpre], fun hpre => ?_⟩
  -- not preactive at `epoch`: activated at an epoch up to `epoch`
  obtain ⟨a, ha, hae⟩ : ∃ a, h.pool.activationEpoch = some a ∧ a ≤ epoch := by
    unfold StakingPool.isPreactiveAtEpoch at hpre
    split at hpre
    · cases hpre
    · rename_i a ha
      exact ⟨a, ha, by simpa using hpre⟩
  have hclamp : a ≤ min (h.pool.deactivationEpoch.getD epoch) epoch := by
    cases hd : h.pool.deactivationEpoch with
    | none => simpa using hae
    | some d => simpa using ⟨hinv.activation_le_deactivation a d ha hd, hae⟩
  obtain ⟨k, exchangeRate, hak, hk, hrk, hlatest, hloop⟩ :=
    StakingPool.latestExchangeRate_spec (hinv.activation_key a ha) hclamp
  exact ⟨a, k, exchangeRate, ha, hak, hk, hrk, hlatest,
    (h.pool.poolTokenExchangeRateAtEpoch_of_le ha hae).trans hloop⟩

/-- A validator of the initial set: a new candidate at epoch 0 that genesis
    activates at epoch 0, so that the lookup at epoch 0 walks the table down
    to key 0 and no further. -/
def genesisHistory : PoolHistory :=
  ⟨⟨{ StakingPool.new with activationEpoch := some 0, exchangeRates := [(0, initialExchangeRate)] }, 0⟩,
    0, [], 0, 0, 0⟩

theorem genesisHistory_reachable : Reachable (fun _ _ => True) genesisHistory :=
  @Reachable.step _ _ _ .activateAtGenesis (.new 0) trivial rfl

theorem pool_token_exchange_rate_at_epoch_latest_activated :
    Reachable (fun _ _ => True) genesisHistory ∧
    (genesisHistory.pool.isPreactiveAtEpoch 0 = true →
      genesisHistory.pool.poolTokenExchangeRateAtEpoch 0 = some initialExchangeRate) ∧
    (genesisHistory.pool.isPreactiveAtEpoch 0 = false →
      ∃ a k exchangeRate, genesisHistory.pool.activationEpoch = some a ∧ a ≤ k ∧
        k ≤ min (genesisHistory.pool.deactivationEpoch.getD 0) 0 ∧
        vget genesisHistory.pool.exchangeRates k = some exchangeRate ∧
        (∀ k', k < k' → k' ≤ min (genesisHistory.pool.deactivationEpoch.getD 0) 0 →
          vget genesisHistory.pool.exchangeRates k' = none) ∧
        genesisHistory.pool.poolTokenExchangeRateAtEpoch 0 = some exchangeRate) :=
  ⟨genesisHistory_reachable, pool_token_exchange_rate_at_epoch_latest genesisHistory_reachable 0⟩

end Mango.Framework
