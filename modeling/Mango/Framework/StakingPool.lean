/-
  Mango.Framework.StakingPool

  The staking pool of a validator (`mgo-system/sources/staking_pool.move`) and
  the calls `validator.move` makes on it. The pool keeps the MGO staked with
  the validator and the pool tokens issued for it; stake and withdrawals wait
  in `pending_stake`, `pending_total_mgo_withdraw` and
  `pending_pool_token_withdraw` for the next epoch boundary, where the rewards
  are deposited and the exchange rate of the new epoch is recorded. A staker
  holds a `StakedMgo` with its principal; withdrawing it burns the pool tokens
  the principal bought at the rate of its activation epoch and pays the
  rewards those tokens earned at the current rate, as far as the rewards pool
  holds them.

  An abort of the Move code is `none`. Amounts are natural numbers: the `u64`
  overflows the code aborts on are not modelled. There is one pool, so the
  `pool_id` a `StakedMgo` is checked against is left out.
-/
import Mango.Lib.Rounding
import Mango.Lib.VersionTable

namespace Mango.Framework

open Mango.Lib

/-- `PoolTokenExchangeRate`: the MGO and the pool tokens of the pool at the
    start of an epoch. -/
structure PoolTokenExchangeRate where
  mgoAmount : Nat
  poolTokenAmount : Nat
  deriving DecidableEq, Repr

/-- `initial_exchange_rate`. -/
def initialExchangeRate : PoolTokenExchangeRate := ⟨0, 0⟩

/-- The conversion `get_mgo_amount` and `get_token_amount` share: an amount
    scaled by `numerator / denominator` and rounded down, or kept as it is when
    either side of the rate is zero (no stake in the pool, or dust left in
    one side). -/
def convertAmount (numerator denominator amount : Nat) : Nat :=
  if numerator = 0 ∨ denominator = 0 then amount else numerator * amount / denominator

/-- `get_mgo_amount`. -/
def getMgoAmount (exchangeRate : PoolTokenExchangeRate) (tokenAmount : Nat) : Nat :=
  convertAmount exchangeRate.mgoAmount exchangeRate.poolTokenAmount tokenAmount

/-- `get_token_amount`. -/
def getTokenAmount (exchangeRate : PoolTokenExchangeRate) (mgoAmount : Nat) : Nat :=
  convertAmount exchangeRate.poolTokenAmount exchangeRate.mgoAmount mgoAmount

@[simp] theorem getMgoAmount_initial (tokenAmount : Nat) :
    getMgoAmount initialExchangeRate tokenAmount = tokenAmount := rfl

@[simp] theorem getTokenAmount_initial (mgoAmount : Nat) :
    getTokenAmount initialExchangeRate mgoAmount = mgoAmount := rfl

/-- A balance converts to the pool tokens held against it, when both are zero
    or neither is. -/
theorem getTokenAmount_balance {m t : Nat} (h : t = 0 ↔ m = 0) : getTokenAmount ⟨m, t⟩ m = t := by
  unfold getTokenAmount convertAmount
  dsimp only
  split
  · omega
  · exact Nat.mul_div_cancel t (by omega)

/-- The pool tokens rescaled to a grown balance are zero exactly when the
    balance is. -/
theorem getTokenAmount_rescaled_eq_zero_iff (m t p : Nat) :
    getTokenAmount ⟨m, t⟩ (m + p) = 0 ↔ m + p = 0 := by
  unfold getTokenAmount convertAmount
  dsimp only
  split
  · rfl
  · have hle : t ≤ t * (m + p) / m :=
      (Nat.le_div_iff_mul_le (by omega)).mpr (Nat.mul_le_mul_left t (by omega))
    omega

/-- `table::add`: a key already present aborts. -/
def tableAdd {α : Type} (table : List (Nat × α)) (key : Nat) (value : α) : Option (List (Nat × α)) :=
  if (vget table key).isSome then none else some (vset table key value)

theorem tableAdd_of_vget_eq_none {α : Type} {table : List (Nat × α)} {key : Nat} (value : α)
    (h : vget table key = none) : tableAdd table key value = some (vset table key value) := by
  simp [tableAdd, h]

/-- `StakingPool`, without its object id and extra fields. -/
structure StakingPool where
  activationEpoch : Option Nat
  deactivationEpoch : Option Nat
  mgoBalance : Nat
  rewardsPool : Nat
  poolTokenBalance : Nat
  exchangeRates : List (Nat × PoolTokenExchangeRate)
  pendingStake : Nat
  pendingTotalMgoWithdraw : Nat
  pendingPoolTokenWithdraw : Nat
  deriving DecidableEq, Repr

/-- `StakedMgo`: the epoch its stake counts from and its principal. -/
structure StakedMgo where
  stakeActivationEpoch : Nat
  principal : Nat
  deriving DecidableEq, Repr

namespace StakingPool

/-- `staking_pool::new`. -/
def new : StakingPool := ⟨none, none, 0, 0, 0, [], 0, 0, 0⟩

variable (pool : StakingPool)

/-- `is_preactive`. -/
def isPreactive : Bool := pool.activationEpoch.isNone

/-- `is_inactive`. -/
def isInactive : Bool := pool.deactivationEpoch.isSome

/-- `is_preactive_at_epoch`: preactive, or activated after `epoch`. -/
def isPreactiveAtEpoch (epoch : Nat) : Bool :=
  match pool.activationEpoch with
  | none => true
  | some activationEpoch => decide (activationEpoch > epoch)

/-- The loop of `pool_token_exchange_rate_at_epoch` over the table of rates:
    the entry of the latest epoch from `epoch` down to the activation epoch
    that has one, else the initial rate. `none` is the abort of `epoch - 1`
    below zero. -/
def latestExchangeRate (exchangeRates : List (Nat × PoolTokenExchangeRate)) (activationEpoch : Nat) :
    Nat → Option PoolTokenExchangeRate
  | 0 => if activationEpoch ≤ 0 then vget exchangeRates 0 else some initialExchangeRate
  | epoch + 1 =>
    if activationEpoch ≤ epoch + 1 then
      match vget exchangeRates (epoch + 1) with
      | some exchangeRate => some exchangeRate
      | none => latestExchangeRate exchangeRates activationEpoch epoch
    else some initialExchangeRate

/-- `pool_token_exchange_rate_at_epoch`: the initial rate while the pool is
    preactive, else the latest rate recorded at an epoch up to `epoch`, and up
    to the deactivation epoch of an inactive pool. -/
def poolTokenExchangeRateAtEpoch (epoch : Nat) : Option PoolTokenExchangeRate :=
  if pool.isPreactiveAtEpoch epoch then some initialExchangeRate
  else
    let clampedEpoch := pool.deactivationEpoch.getD epoch
    -- `*option::borrow(&pool.activation_epoch)`, set by now
    match pool.activationEpoch with
    | some activationEpoch => latestExchangeRate pool.exchangeRates activationEpoch (min clampedEpoch epoch)
    | none => none

/-- A table entry at `epoch` is the latest rate there. -/
theorem latestExchangeRate_of_vget {exchangeRates : List (Nat × PoolTokenExchangeRate)}
    {activationEpoch epoch : Nat} {exchangeRate : PoolTokenExchangeRate} (ha : activationEpoch ≤ epoch)
    (hr : vget exchangeRates epoch = some exchangeRate) :
    latestExchangeRate exchangeRates activationEpoch epoch = some exchangeRate := by
  cases epoch with
  | zero => simp [latestExchangeRate, ha, hr]
  | succ epoch => simp [latestExchangeRate, ha, hr]

/-- **The loop returns the latest rate recorded**: when the activation epoch
    has a rate, the loop from `epoch` returns the rate of the largest epoch
    from the activation epoch to `epoch` that has one. By induction on
    `epoch`, one epoch down a step. -/
theorem latestExchangeRate_spec {exchangeRates : List (Nat × PoolTokenExchangeRate)} {activationEpoch : Nat}
    (hkey : (vget exchangeRates activationEpoch).isSome) {epoch : Nat} (ha : activationEpoch ≤ epoch) :
    ∃ k exchangeRate, activationEpoch ≤ k ∧ k ≤ epoch ∧ vget exchangeRates k = some exchangeRate ∧
      (∀ k', k < k' → k' ≤ epoch → vget exchangeRates k' = none) ∧
      latestExchangeRate exchangeRates activationEpoch epoch = some exchangeRate := by
  induction epoch with
  | zero =>
    have h0 : activationEpoch = 0 := by omega
    subst h0
    obtain ⟨exchangeRate, hr⟩ := Option.isSome_iff_exists.mp hkey
    exact ⟨0, exchangeRate, le_rfl, le_rfl, hr, fun k' hk hk' => absurd hk' (by omega),
      latestExchangeRate_of_vget le_rfl hr⟩
  | succ epoch ih =>
    cases hr : vget exchangeRates (epoch + 1) with
    | some exchangeRate =>
      exact ⟨epoch + 1, exchangeRate, ha, le_rfl, hr, fun k' hk hk' => absurd hk' (by omega),
        latestExchangeRate_of_vget ha hr⟩
    | none =>
      -- the activation epoch has a rate, so it is not `epoch + 1`
      have hne : activationEpoch ≠ epoch + 1 := by
        rintro rfl
        rw [hr] at hkey
        cases hkey
      obtain ⟨k, exchangeRate, hak, hk, hrk, hlatest, hloop⟩ := ih (by omega)
      refine ⟨k, exchangeRate, hak, by omega, hrk, fun k' hk' hk'e => ?_, ?_⟩
      · rcases Nat.lt_or_ge k' (epoch + 1) with h | h
        · exact hlatest k' hk' (by omega)
        · rw [show k' = epoch + 1 by omega]
          exact hr
      · simp only [latestExchangeRate, ha, if_true, hr]
        exact hloop

theorem poolTokenExchangeRateAtEpoch_of_le {activationEpoch epoch : Nat}
    (ha : pool.activationEpoch = some activationEpoch) (h : activationEpoch ≤ epoch) :
    pool.poolTokenExchangeRateAtEpoch epoch =
      latestExchangeRate pool.exchangeRates activationEpoch (min (pool.deactivationEpoch.getD epoch) epoch) := by
  simp [poolTokenExchangeRateAtEpoch, isPreactiveAtEpoch, ha, Nat.not_lt.mpr h]

/-- `request_add_stake`: the stake waits in `pending_stake` for the next epoch
    boundary. -/
def requestAddStake (stake stakeActivationEpoch : Nat) : Option (StakingPool × StakedMgo) :=
  if pool.isInactive then none
  else if stake = 0 then none
  else some ({ pool with pendingStake := pool.pendingStake + stake }, ⟨stakeActivationEpoch, stake⟩)

theorem requestAddStake_eq_some {stake stakeActivationEpoch : Nat} {added : StakingPool × StakedMgo}
    (h : pool.requestAddStake stake stakeActivationEpoch = some added) :
    pool.isInactive = false ∧ 0 < stake ∧
      added = ({ pool with pendingStake := pool.pendingStake + stake }, ⟨stakeActivationEpoch, stake⟩) := by
  unfold requestAddStake at h
  split at h
  · cases h
  · rename_i hactive
    split at h
    · cases h
    · exact ⟨by simpa using hactive, by omega, (Option.some.inj h).symm⟩

/-- `withdraw_from_principal`: the pool tokens the principal bought at the
    rate of its activation epoch, and the principal. -/
def withdrawFromPrincipal (stakedMgo : StakedMgo) : Option (Nat × Nat) := do
  let exchangeRateAtStakingEpoch ← pool.poolTokenExchangeRateAtEpoch stakedMgo.stakeActivationEpoch
  pure (getTokenAmount exchangeRateAtStakingEpoch stakedMgo.principal, stakedMgo.principal)

theorem withdrawFromPrincipal_eq {stakedMgo : StakedMgo} {exchangeRate : PoolTokenExchangeRate}
    (h : pool.poolTokenExchangeRateAtEpoch stakedMgo.stakeActivationEpoch = some exchangeRate) :
    pool.withdrawFromPrincipal stakedMgo =
      some (getTokenAmount exchangeRate stakedMgo.principal, stakedMgo.principal) := by
  simp [withdrawFromPrincipal, h]

/-- `withdraw_rewards`: what the pool tokens are worth at the current rate
    beyond the principal, as far as the rewards pool holds it. -/
def withdrawRewards (principalWithdrawAmount poolTokenWithdrawAmount epoch : Nat) :
    Option (StakingPool × Nat) := do
  let exchangeRate ← pool.poolTokenExchangeRateAtEpoch epoch
  let totalMgoWithdrawAmount := getMgoAmount exchangeRate poolTokenWithdrawAmount
  let rewardWithdrawAmount :=
    if totalMgoWithdrawAmount ≥ principalWithdrawAmount then totalMgoWithdrawAmount - principalWithdrawAmount
    else 0
  let rewardWithdrawAmount := min rewardWithdrawAmount pool.rewardsPool
  pure ({ pool with rewardsPool := pool.rewardsPool - rewardWithdrawAmount }, rewardWithdrawAmount)

/-- The rewards withdrawn are at most the rewards pool, and nothing when the
    tokens are worth no more than the principal. -/
theorem withdrawRewards_eq {principalWithdrawAmount poolTokenWithdrawAmount epoch : Nat}
    {exchangeRate : PoolTokenExchangeRate} (h : pool.poolTokenExchangeRateAtEpoch epoch = some exchangeRate) :
    ∃ reward, reward ≤ pool.rewardsPool ∧
      (getMgoAmount exchangeRate poolTokenWithdrawAmount ≤ principalWithdrawAmount → reward = 0) ∧
      pool.withdrawRewards principalWithdrawAmount poolTokenWithdrawAmount epoch =
        some ({ pool with rewardsPool := pool.rewardsPool - reward }, reward) := by
  refine ⟨min (if getMgoAmount exchangeRate poolTokenWithdrawAmount ≥ principalWithdrawAmount then
      getMgoAmount exchangeRate poolTokenWithdrawAmount - principalWithdrawAmount else 0) pool.rewardsPool,
    min_le_right _ _, fun hle => ?_, by simp [withdrawRewards, h]⟩
  by_cases heq : getMgoAmount exchangeRate poolTokenWithdrawAmount = principalWithdrawAmount
  · simp [heq]
  · have hlt : ¬getMgoAmount exchangeRate poolTokenWithdrawAmount ≥ principalWithdrawAmount := by omega
    simp [hlt]

/-- `process_pending_stake_withdraw`: the withdrawals of the epoch leave the
    balances; a withdrawal above a balance is the abort of the subtraction. -/
def processPendingStakeWithdraw : Option StakingPool :=
  if pool.pendingTotalMgoWithdraw ≤ pool.mgoBalance ∧
      pool.pendingPoolTokenWithdraw ≤ pool.poolTokenBalance then
    some { pool with
      mgoBalance := pool.mgoBalance - pool.pendingTotalMgoWithdraw
      poolTokenBalance := pool.poolTokenBalance - pool.pendingPoolTokenWithdraw
      pendingTotalMgoWithdraw := 0
      pendingPoolTokenWithdraw := 0 }
  else none

theorem processPendingStakeWithdraw_eq (hm : pool.pendingTotalMgoWithdraw ≤ pool.mgoBalance)
    (ht : pool.pendingPoolTokenWithdraw ≤ pool.poolTokenBalance) :
    pool.processPendingStakeWithdraw = some { pool with
      mgoBalance := pool.mgoBalance - pool.pendingTotalMgoWithdraw
      poolTokenBalance := pool.poolTokenBalance - pool.pendingPoolTokenWithdraw
      pendingTotalMgoWithdraw := 0
      pendingPoolTokenWithdraw := 0 } := by
  simp [processPendingStakeWithdraw, hm, ht]

/-- The last step of `request_withdraw_stake`: an inactive pool processes the
    withdrawal at once. -/
def settleIfInactive : Option StakingPool :=
  if pool.isInactive then pool.processPendingStakeWithdraw else some pool

/-- `request_withdraw_stake`: the principal and its rewards are withdrawn, and
    the pool tokens they stand for are burned at the next epoch boundary. -/
def requestWithdrawStake (stakedMgo : StakedMgo) (epoch : Nat) : Option (StakingPool × Nat) := do
  let principal ← pool.withdrawFromPrincipal stakedMgo
  let rewards ← pool.withdrawRewards principal.2 principal.1 epoch
  let totalMgoWithdrawAmount := principal.2 + rewards.2
  let pool := { rewards.1 with
    pendingTotalMgoWithdraw := rewards.1.pendingTotalMgoWithdraw + totalMgoWithdrawAmount
    pendingPoolTokenWithdraw := rewards.1.pendingPoolTokenWithdraw + principal.1 }
  let pool ← pool.settleIfInactive
  pure (pool, totalMgoWithdrawAmount)

/-- `request_withdraw_stake` at the rates of the activation epoch and of the
    current epoch: the tokens of the principal and the rewards join the
    pending withdrawals. -/
theorem requestWithdrawStake_eq {stakedMgo : StakedMgo} {epoch : Nat} {rateAtStaking rate : PoolTokenExchangeRate}
    (h0 : pool.poolTokenExchangeRateAtEpoch stakedMgo.stakeActivationEpoch = some rateAtStaking)
    (h1 : pool.poolTokenExchangeRateAtEpoch epoch = some rate) :
    ∃ reward, reward ≤ pool.rewardsPool ∧
      (getMgoAmount rate (getTokenAmount rateAtStaking stakedMgo.principal) ≤ stakedMgo.principal →
        reward = 0) ∧
      pool.requestWithdrawStake stakedMgo epoch =
        (StakingPool.settleIfInactive { pool with
          rewardsPool := pool.rewardsPool - reward
          pendingTotalMgoWithdraw := pool.pendingTotalMgoWithdraw + (stakedMgo.principal + reward)
          pendingPoolTokenWithdraw :=
            pool.pendingPoolTokenWithdraw + getTokenAmount rateAtStaking stakedMgo.principal }).map
          (·, stakedMgo.principal + reward) := by
  obtain ⟨reward, hle, hzero, hrw⟩ := @withdrawRewards_eq pool stakedMgo.principal
    (getTokenAmount rateAtStaking stakedMgo.principal) _ _ h1
  refine ⟨reward, hle, hzero, ?_⟩
  simp only [requestWithdrawStake, pool.withdrawFromPrincipal_eq h0, hrw, Option.bind_eq_bind, Option.bind_some]
  cases StakingPool.settleIfInactive _ <;> rfl

/-- `deposit_rewards`. -/
def depositRewards (rewards : Nat) : StakingPool :=
  { pool with mgoBalance := pool.mgoBalance + rewards, rewardsPool := pool.rewardsPool + rewards }

/-- `process_pending_stake`: the pending stake joins the balance, and the pool
    tokens are rescaled to it at the latest rate. -/
def processPendingStake : StakingPool :=
  let latestExchangeRate : PoolTokenExchangeRate := ⟨pool.mgoBalance, pool.poolTokenBalance⟩
  let mgoBalance := pool.mgoBalance + pool.pendingStake
  { pool with
    mgoBalance := mgoBalance
    poolTokenBalance := getTokenAmount latestExchangeRate mgoBalance
    pendingStake := 0 }

/-- `check_balance_invariants`: the pool tokens are what the balance converts
    to at the rate of `epoch`. -/
def checkBalanceInvariants (epoch : Nat) : Option Unit := do
  let exchangeRate ← pool.poolTokenExchangeRateAtEpoch epoch
  if getTokenAmount exchangeRate pool.mgoBalance = pool.poolTokenBalance then pure () else none

/-- `process_pending_stakes_and_withdraws`, called at the end of `epoch`: the
    withdrawals, then the stake, are processed, and the rate of the new epoch
    is recorded and checked. -/
def processPendingStakesAndWithdraws (epoch : Nat) : Option StakingPool := do
  let newEpoch := epoch + 1
  let pool ← pool.processPendingStakeWithdraw
  let pool := pool.processPendingStake
  let exchangeRates ← tableAdd pool.exchangeRates newEpoch ⟨pool.mgoBalance, pool.poolTokenBalance⟩
  let pool := { pool with exchangeRates := exchangeRates }
  pool.checkBalanceInvariants newEpoch
  pure pool

/-- `process_pending_stakes_and_withdraws` of an active pool whose pending
    withdrawals fit its balances, with no rate recorded yet for the new epoch:
    the rate recorded is the processed pool's own, and its balance passes the
    check against it. -/
theorem processPendingStakesAndWithdraws_eq {epoch activationEpoch : Nat}
    (ha : pool.activationEpoch = some activationEpoch) (hae : activationEpoch ≤ epoch + 1)
    (hd : pool.deactivationEpoch = none) (hm : pool.pendingTotalMgoWithdraw ≤ pool.mgoBalance)
    (ht : pool.pendingPoolTokenWithdraw ≤ pool.poolTokenBalance)
    (hfresh : vget pool.exchangeRates (epoch + 1) = none) :
    let mgoBalance := pool.mgoBalance - pool.pendingTotalMgoWithdraw + pool.pendingStake
    let poolTokenBalance := getTokenAmount
      ⟨pool.mgoBalance - pool.pendingTotalMgoWithdraw, pool.poolTokenBalance - pool.pendingPoolTokenWithdraw⟩
      mgoBalance
    pool.processPendingStakesAndWithdraws epoch = some { pool with
      mgoBalance := mgoBalance
      poolTokenBalance := poolTokenBalance
      exchangeRates := vset pool.exchangeRates (epoch + 1) ⟨mgoBalance, poolTokenBalance⟩
      pendingStake := 0
      pendingTotalMgoWithdraw := 0
      pendingPoolTokenWithdraw := 0 } := by
  intro mgoBalance poolTokenBalance
  -- the new rate converts the new balance back to the new pool tokens
  have hcheck : getTokenAmount ⟨mgoBalance, poolTokenBalance⟩ mgoBalance = poolTokenBalance :=
    getTokenAmount_balance (getTokenAmount_rescaled_eq_zero_iff _ _ _)
  have hrate : latestExchangeRate (vset pool.exchangeRates (epoch + 1) ⟨mgoBalance, poolTokenBalance⟩)
      activationEpoch (epoch + 1) = some ⟨mgoBalance, poolTokenBalance⟩ :=
    latestExchangeRate_of_vget hae (vget_vset_self _ _ _)
  have hpre : ¬activationEpoch > epoch + 1 := by omega
  simp [processPendingStakesAndWithdraws, pool.processPendingStakeWithdraw_eq hm ht, processPendingStake,
    tableAdd_of_vget_eq_none _ hfresh, checkBalanceInvariants, poolTokenExchangeRateAtEpoch,
    isPreactiveAtEpoch, ha, hd, hpre, hrate, hcheck, mgoBalance, poolTokenBalance]

/-- `activate_staking_pool`: the initial rate is recorded at the activation
    epoch of a preactive pool. -/
def activateStakingPool (activationEpoch : Nat) : Option StakingPool := do
  let exchangeRates ← tableAdd pool.exchangeRates activationEpoch initialExchangeRate
  if !pool.isPreactive then none
  else if pool.isInactive then none
  else pure { pool with exchangeRates := exchangeRates, activationEpoch := some activationEpoch }

/-- `deactivate_staking_pool`. -/
def deactivateStakingPool (deactivationEpoch : Nat) : Option StakingPool :=
  if pool.isInactive then none else some { pool with deactivationEpoch := some deactivationEpoch }

theorem deactivateStakingPool_eq_some {deactivationEpoch : Nat} {pool' : StakingPool}
    (h : pool.deactivateStakingPool deactivationEpoch = some pool') :
    pool.isInactive = false ∧ pool' = { pool with deactivationEpoch := some deactivationEpoch } := by
  unfold deactivateStakingPool at h
  split at h
  · cases h
  · rename_i hactive
    exact ⟨by simpa using hactive, (Option.some.inj h).symm⟩

/-! ## What the rate lookup reads

`pool_token_exchange_rate_at_epoch` reads the activation and deactivation
epochs and the table of rates. Stake, withdrawals and rewards leave the three
as they are; the end of an epoch records a rate, activation records the
initial rate at its epoch, and deactivation sets its epoch. -/

/-- The fields the rate lookup reads. -/
def rateFields : Option Nat × Option Nat × List (Nat × PoolTokenExchangeRate) :=
  (pool.activationEpoch, pool.deactivationEpoch, pool.exchangeRates)

/-- Whether the pool is preactive or inactive is read off the fields the rate
    lookup reads. -/
theorem isPreactive_isInactive_of_rateFields {pool' : StakingPool} (h : pool'.rateFields = pool.rateFields) :
    pool'.isPreactive = pool.isPreactive ∧ pool'.isInactive = pool.isInactive := by
  simp only [rateFields, Prod.mk.injEq] at h
  simp [isPreactive, isInactive, h.1, h.2.1]

@[simp] theorem rateFields_processPendingStake : pool.processPendingStake.rateFields = pool.rateFields := rfl

@[simp] theorem rateFields_depositRewards (rewards : Nat) :
    (pool.depositRewards rewards).rateFields = pool.rateFields := rfl

theorem rateFields_of_processPendingStakeWithdraw {pool' : StakingPool}
    (h : pool.processPendingStakeWithdraw = some pool') : pool'.rateFields = pool.rateFields := by
  unfold processPendingStakeWithdraw at h
  split at h
  · cases h
    rfl
  · cases h

theorem rateFields_of_settleIfInactive {pool' : StakingPool} (h : pool.settleIfInactive = some pool') :
    pool'.rateFields = pool.rateFields := by
  unfold settleIfInactive at h
  split at h
  · exact pool.rateFields_of_processPendingStakeWithdraw h
  · cases h
    rfl

theorem rateFields_of_requestAddStake {stake stakeActivationEpoch : Nat} {added : StakingPool × StakedMgo}
    (h : pool.requestAddStake stake stakeActivationEpoch = some added) : added.1.rateFields = pool.rateFields := by
  obtain ⟨-, -, rfl⟩ := pool.requestAddStake_eq_some h
  rfl

theorem rateFields_of_withdrawRewards {principalWithdrawAmount poolTokenWithdrawAmount epoch : Nat}
    {withdrawn : StakingPool × Nat}
    (h : pool.withdrawRewards principalWithdrawAmount poolTokenWithdrawAmount epoch = some withdrawn) :
    withdrawn.1.rateFields = pool.rateFields := by
  obtain ⟨exchangeRate, -, h⟩ := Option.bind_eq_some_iff.mp h
  cases h
  rfl

theorem rateFields_of_requestWithdrawStake {stakedMgo : StakedMgo} {epoch : Nat} {withdrawn : StakingPool × Nat}
    (h : pool.requestWithdrawStake stakedMgo epoch = some withdrawn) : withdrawn.1.rateFields = pool.rateFields := by
  obtain ⟨principal, -, h⟩ := Option.bind_eq_some_iff.mp h
  obtain ⟨rewards, hr, h⟩ := Option.bind_eq_some_iff.mp h
  obtain ⟨settled, hs, h⟩ := Option.bind_eq_some_iff.mp h
  cases h
  rw [rateFields_of_settleIfInactive _ hs]
  exact pool.rateFields_of_withdrawRewards hr

/-- The end of `epoch` records a rate at `epoch + 1` and keeps the epochs. -/
theorem processPendingStakesAndWithdraws_eq_some {epoch : Nat} {pool' : StakingPool}
    (h : pool.processPendingStakesAndWithdraws epoch = some pool') :
    pool'.activationEpoch = pool.activationEpoch ∧ pool'.deactivationEpoch = pool.deactivationEpoch ∧
      ∃ exchangeRate, pool'.exchangeRates = vset pool.exchangeRates (epoch + 1) exchangeRate := by
  obtain ⟨withdrawn, hw, h⟩ := Option.bind_eq_some_iff.mp h
  obtain ⟨exchangeRates, hx, h⟩ := Option.bind_eq_some_iff.mp h
  obtain ⟨_, -, h⟩ := Option.bind_eq_some_iff.mp h
  cases h
  have hf := pool.rateFields_of_processPendingStakeWithdraw hw
  simp only [rateFields, Prod.mk.injEq] at hf
  unfold tableAdd at hx
  split at hx
  · cases hx
  · cases hx
    exact ⟨hf.1, hf.2.1, _, by rw [← hf.2.2]; rfl⟩

theorem activateStakingPool_eq_some {activationEpoch : Nat} {pool' : StakingPool}
    (h : pool.activateStakingPool activationEpoch = some pool') :
    pool.isInactive = false ∧ pool'.activationEpoch = some activationEpoch ∧
      pool'.deactivationEpoch = pool.deactivationEpoch ∧
      pool'.exchangeRates = vset pool.exchangeRates activationEpoch initialExchangeRate := by
  obtain ⟨exchangeRates, hx, h⟩ := Option.bind_eq_some_iff.mp h
  unfold tableAdd at hx
  split at hx
  · cases hx
  · cases hx
    split at h
    · cases h
    · split at h
      · cases h
      · rename_i hactive
        cases h
        exact ⟨by simpa using hactive, rfl, rfl, rfl⟩

end StakingPool

/-- `Validator`, with its staking pool and the stake it expects for the next
    epoch. -/
structure Validator where
  stakingPool : StakingPool
  nextEpochStake : Nat
  deriving DecidableEq, Repr

namespace Validator

variable (self : Validator)

/-- `validator::request_add_stake` at `epoch`: the stake counts from the next
    epoch, and a preactive pool processes it at once. -/
def requestAddStake (stake epoch : Nat) : Option (Validator × StakedMgo) :=
  if stake = 0 then none
  else do
    let added ← self.stakingPool.requestAddStake stake (epoch + 1)
    let stakingPool := if added.1.isPreactive then added.1.processPendingStake else added.1
    pure (⟨stakingPool, self.nextEpochStake + stake⟩, added.2)

theorem requestAddStake_eq_some {stake epoch : Nat} {added : Validator × StakedMgo}
    (h : self.requestAddStake stake epoch = some added) :
    self.stakingPool.isInactive = false ∧ 0 < stake ∧
      added = (⟨if self.stakingPool.isPreactive then
          { self.stakingPool with pendingStake := self.stakingPool.pendingStake + stake }.processPendingStake
        else { self.stakingPool with pendingStake := self.stakingPool.pendingStake + stake },
        self.nextEpochStake + stake⟩, ⟨epoch + 1, stake⟩) := by
  unfold requestAddStake at h
  split at h
  · cases h
  · obtain ⟨addedToPool, hpool, hadded⟩ := Option.bind_eq_some_iff.mp h
    obtain ⟨hactive, hpos, rfl⟩ := self.stakingPool.requestAddStake_eq_some hpool
    exact ⟨hactive, hpos, (Option.some.inj hadded).symm⟩

/-- A stake to an active pool is accepted. -/
theorem requestAddStake_isSome {stake epoch : Nat} (hactive : self.stakingPool.isInactive = false)
    (hpos : 0 < stake) : ∃ added, self.requestAddStake stake epoch = some added := by
  simp [requestAddStake, StakingPool.requestAddStake, hactive, Nat.pos_iff_ne_zero.mp hpos]

/-- `validator::request_withdraw_stake`: `withdraw_amount - principal_amount`
    and `next_epoch_stake - withdraw_amount` abort below zero. -/
def requestWithdrawStake (stakedMgo : StakedMgo) (epoch : Nat) : Option (Validator × Nat) := do
  let withdrawn ← self.stakingPool.requestWithdrawStake stakedMgo epoch
  if withdrawn.2 < stakedMgo.principal ∨ self.nextEpochStake < withdrawn.2 then none
  else pure (⟨withdrawn.1, self.nextEpochStake - withdrawn.2⟩, withdrawn.2)

theorem requestWithdrawStake_eq {stakedMgo : StakedMgo} {epoch amount : Nat} {stakingPool : StakingPool}
    (h : self.stakingPool.requestWithdrawStake stakedMgo epoch = some (stakingPool, amount))
    (hp : stakedMgo.principal ≤ amount) (hn : amount ≤ self.nextEpochStake) :
    self.requestWithdrawStake stakedMgo epoch = some (⟨stakingPool, self.nextEpochStake - amount⟩, amount) := by
  simp [requestWithdrawStake, h, Nat.not_lt.mpr hp, Nat.not_lt.mpr hn]

/-- `validator::deposit_stake_rewards`. -/
def depositStakeRewards (reward : Nat) : Validator :=
  ⟨self.stakingPool.depositRewards reward, self.nextEpochStake + reward⟩

/-- `validator::process_pending_stakes_and_withdraws`: the pool's balance
    afterwards is the stake expected (`EInvalidStakeAmount`). -/
def processPendingStakesAndWithdraws (epoch : Nat) : Option Validator := do
  let stakingPool ← self.stakingPool.processPendingStakesAndWithdraws epoch
  if stakingPool.mgoBalance = self.nextEpochStake then pure { self with stakingPool := stakingPool }
  else none

theorem processPendingStakesAndWithdraws_eq {epoch : Nat} {stakingPool : StakingPool}
    (h : self.stakingPool.processPendingStakesAndWithdraws epoch = some stakingPool)
    (hb : stakingPool.mgoBalance = self.nextEpochStake) :
    self.processPendingStakesAndWithdraws epoch = some { self with stakingPool := stakingPool } := by
  simp [processPendingStakesAndWithdraws, h, hb]

/-- `validator::activate`. -/
def activate (activationEpoch : Nat) : Option Validator := do
  let stakingPool ← self.stakingPool.activateStakingPool activationEpoch
  pure { self with stakingPool := stakingPool }

/-- `validator::deactivate`. -/
def deactivate (deactivationEpoch : Nat) : Option Validator := do
  let stakingPool ← self.stakingPool.deactivateStakingPool deactivationEpoch
  pure { self with stakingPool := stakingPool }

theorem deactivate_eq_some {deactivationEpoch : Nat} {validator : Validator}
    (h : self.deactivate deactivationEpoch = some validator) :
    self.stakingPool.isInactive = false ∧ validator =
      { self with stakingPool := { self.stakingPool with deactivationEpoch := some deactivationEpoch } } := by
  obtain ⟨stakingPool, hpool, hv⟩ := Option.bind_eq_some_iff.mp h
  obtain ⟨hactive, rfl⟩ := self.stakingPool.deactivateStakingPool_eq_some hpool
  exact ⟨hactive, (Option.some.inj hv).symm⟩

/-! ## What the rate lookup reads of the validator's pool -/

theorem rateFields_of_requestAddStake {stake epoch : Nat} {added : Validator × StakedMgo}
    (h : self.requestAddStake stake epoch = some added) :
    added.1.stakingPool.rateFields = self.stakingPool.rateFields := by
  obtain ⟨-, -, rfl⟩ := self.requestAddStake_eq_some h
  dsimp only
  split <;> rfl

theorem rateFields_of_requestWithdrawStake {stakedMgo : StakedMgo} {epoch : Nat} {withdrawn : Validator × Nat}
    (h : self.requestWithdrawStake stakedMgo epoch = some withdrawn) :
    withdrawn.1.stakingPool.rateFields = self.stakingPool.rateFields := by
  obtain ⟨fromPool, hpool, h⟩ := Option.bind_eq_some_iff.mp h
  split at h
  · cases h
  · cases h
    exact self.stakingPool.rateFields_of_requestWithdrawStake hpool

@[simp] theorem rateFields_depositStakeRewards (reward : Nat) :
    (self.depositStakeRewards reward).stakingPool.rateFields = self.stakingPool.rateFields := rfl

theorem processPendingStakesAndWithdraws_eq_some {epoch : Nat} {validator : Validator}
    (h : self.processPendingStakesAndWithdraws epoch = some validator) :
    self.stakingPool.processPendingStakesAndWithdraws epoch = some validator.stakingPool := by
  obtain ⟨stakingPool, hpool, h⟩ := Option.bind_eq_some_iff.mp h
  split at h
  · cases h
    exact hpool
  · cases h

theorem activate_eq_some {activationEpoch : Nat} {validator : Validator}
    (h : self.activate activationEpoch = some validator) :
    self.stakingPool.activateStakingPool activationEpoch = some validator.stakingPool := by
  obtain ⟨stakingPool, hpool, h⟩ := Option.bind_eq_some_iff.mp h
  cases h
  exact hpool

end Validator

end Mango.Framework
