/-
  Mango.Adapter.Gas

  The gas meter of the current gas model (`crates/mgo-types/src/gas_model/gas_v2.rs`),
  the summary it reports (`crates/mgo-types/src/gas.rs`) and the data of the
  transaction's `GasCharger` (`mgo-adapter/src/gas_charger.rs`).

  Computation is what the Move meter reports, rounded up to the rounding step
  or to the cost of its bucket, priced, and capped by the budget. Storage is
  tracked per object at the end of execution: the cost of the object's new
  size against the rebate the object held before. The sender gets back its
  share of the rebates at the rebate rate, rounded half up; the rest is the
  non-refundable fee.

  The Move meter is kept as the gas it reports (`gas_used_pre_gas_price`):
  the per-instruction charges that lead to it are outside this model, and so
  are the fields of the cost table no modelled function reads. Amounts are
  natural numbers. The code's arithmetic is checked and panics on overflow;
  rather than model each check, `bucketizeComputation_within_u64` and
  `storage_sums_le` state the bounds, from the protocol's limits, under which
  no product or sum reaches `u64::MAX`, and every subtraction the code makes is
  shown not to go below zero. The one assertion of `summary` and `charge_storage_and_rebate`
  (`sender_rebate <= storage_rebate`) holds at every rebate rate up to
  10000 basis points (`senderRebate_le`).
-/
import Mango.Adapter.Context

namespace Mango.Adapter

open Mango.Core

/-! ## Buckets and the rebate split -/

/-- `ComputationBucket`. -/
structure ComputationBucket where
  min : Nat
  max : Nat
  cost : Nat
  deriving DecidableEq, Repr

/-- `ComputationBucket::simple`: a bucket that costs its upper bound. -/
def ComputationBucket.simple (min max : Nat) : ComputationBucket := ⟨min, max, max⟩

/-- `get_bucket_cost`: the cost of the first bucket that reaches the
    computation cost, else of the last bucket. -/
def getBucketCost (table : List ComputationBucket) (computationCost : Nat) : Nat :=
  match table.find? (fun bucket => computationCost ≤ bucket.max) with
  | some bucket => bucket.cost
  | none =>
    match table.getLast? with
    | none => 5000000
    | some bucket => bucket.cost

/-- `computation_bucket`: the bucket table of the cost table. -/
def computationBucket (maxBucketCost : Nat) : List ComputationBucket :=
  [.simple 0 1000, .simple 1000 5000, .simple 5000 10000, .simple 10000 20000,
    .simple 20000 50000, .simple 50000 200000, .simple 200000 1000000,
    .simple 1000000 maxBucketCost]

/-- Rounding up to the next multiple of the step adds at most the step. -/
theorem roundUp_le (gasUsed gasRounding : Nat) :
    (gasUsed / gasRounding + 1) * gasRounding ≤ gasUsed + gasRounding := by
  have hdiv : gasUsed / gasRounding * gasRounding ≤ gasUsed := Nat.div_mul_le_self _ _
  rw [Nat.add_mul, Nat.one_mul]
  omega

/-- A bucket's cost is at most a bound on every cost of the table and on the
    fallback cost of an empty table. -/
theorem getBucketCost_le {table : List ComputationBucket} {c : Nat} (computationCost : Nat)
    (hcost : ∀ bucket ∈ table, bucket.cost ≤ c) (hfallback : 5000000 ≤ c) :
    getBucketCost table computationCost ≤ c := by
  unfold getBucketCost
  split
  · rename_i bucket hfind
    exact hcost bucket (List.mem_of_find?_eq_some hfind)
  · split
    · exact hfallback
    · rename_i bucket hlast
      exact hcost bucket (List.mem_of_getLast? hlast)

/-- Every bucket of the cost table costs at most the largest bucket bound. -/
theorem computationBucket_cost_le {maxBucketCost : Nat} (hmax : 1000000 ≤ maxBucketCost) :
    ∀ bucket ∈ computationBucket maxBucketCost, bucket.cost ≤ maxBucketCost := by
  intro bucket hmem
  simp only [computationBucket, ComputationBucket.simple, List.mem_cons, List.not_mem_nil,
    or_false] at hmem
  rcases hmem with h | h | h | h | h | h | h | h <;> subst h <;> dsimp only <;> omega

/-- `BASIS_POINTS` of `sender_rebate`. -/
def basisPoints : Nat := 10000

/-- `sender_rebate`: the sender's share of a storage rebate at a rate in basis
    points, rounded half up as `f64::round` does. -/
def senderRebate (storageRebate storageRebateRate : Nat) : Nat :=
  (storageRebate * storageRebateRate + basisPoints / 2) / basisPoints

/-- At a rate of at most 10000 basis points the sender gets at most the rebate:
    the assertion `sender_rebate <= storage_rebate` holds. -/
theorem senderRebate_le {storageRebate rate : Nat} (hrate : rate ≤ basisPoints) :
    senderRebate storageRebate rate ≤ storageRebate := by
  unfold senderRebate
  have hmul : storageRebate * rate ≤ storageRebate * basisPoints := Nat.mul_le_mul_left _ hrate
  have hbp : basisPoints = 10000 := rfl
  rw [hbp] at hmul ⊢
  -- rounding half up stays below the next whole unit
  have hlt : (storageRebate * rate + 10000 / 2) / 10000 < storageRebate + 1 := by
    apply (Nat.div_lt_iff_lt_mul (by omega)).mpr
    omega
  omega

/-! ## The summary -/

/-- `PerObjectStorage`. -/
structure PerObjectStorage where
  storageCost : Nat
  storageRebate : Nat
  newSize : Nat
  deriving DecidableEq, Repr

/-- `GasCostSummary`; `default` is `GasCostSummary::default()`, all zero. -/
structure GasCostSummary where
  computationCost : Nat
  storageCost : Nat
  storageRebate : Nat
  nonRefundableStorageFee : Nat
  deriving DecidableEq, Repr, Inhabited

namespace GasCostSummary

/-- `GasCostSummary::gas_used`. -/
def gasUsed (s : GasCostSummary) : Nat := s.computationCost + s.storageCost

/-- `GasCostSummary::net_gas_usage`: what the gas coin pays, negative when the
    rebate is larger. -/
def netGasUsage (s : GasCostSummary) : Int := (s.gasUsed : Int) - s.storageRebate

end GasCostSummary

/-! ## The meter -/

/-- `MgoGasStatus` of gas model version 2, with the Move meter kept as the gas
    it reports and the cost table as the two fields the modelled functions
    read. -/
structure MgoGasStatus where
  /-- `gas_status.gas_used_pre_gas_price()`, the gas the Move meter used. -/
  gasUsedPreGasPrice : Nat
  /-- `cost_table.computation_bucket`. -/
  computationBucket : List ComputationBucket
  /-- `cost_table.storage_per_byte_cost`. -/
  storagePerByteCost : Nat
  gasBudget : Nat
  computationCost : Nat
  charge : Bool
  gasPrice : Nat
  storageGasPrice : Nat
  perObjectStorage : List (Nat × PerObjectStorage)
  rebateRate : Nat
  unmeteredStorageRebate : Nat
  gasRoundingStep : Option Nat
  deriving DecidableEq, Repr

namespace MgoGasStatus

/-- `MgoGasStatus::new`: nothing charged yet; a rounding step is at least one. -/
def new (gasUsedPreGasPrice : Nat) (computationBucket : List ComputationBucket)
    (storagePerByteCost gasBudget : Nat) (charge : Bool) (gasPrice storageGasPrice rebateRate : Nat)
    (gasRoundingStep : Option Nat) : MgoGasStatus where
  gasUsedPreGasPrice := gasUsedPreGasPrice
  computationBucket := computationBucket
  storagePerByteCost := storagePerByteCost
  gasBudget := gasBudget
  computationCost := 0
  charge := charge
  gasPrice := gasPrice
  storageGasPrice := storageGasPrice
  perObjectStorage := []
  rebateRate := rebateRate
  unmeteredStorageRebate := 0
  gasRoundingStep := gasRoundingStep.map (max · 1)

variable (s : MgoGasStatus)

/-- `is_unmetered`. -/
def isUnmetered : Bool := !s.charge

/-- `storage_gas_units`, which is also `storage_cost`: the storage costs tracked. -/
def storageGasUnits : Nat := (s.perObjectStorage.map (·.2.storageCost)).sum

/-- `storage_rebate`: the rebates tracked. -/
def storageRebate : Nat := (s.perObjectStorage.map (·.2.storageRebate)).sum

/-- The gas used as `bucketize_computation` charges it: the meter's gas rounded
    up to a multiple of the rounding step (a positive multiple stays), or
    raised to the cost of its bucket, then priced. -/
def bucketedGasUsed : Nat :=
  let gasUsed := s.gasUsedPreGasPrice
  match s.gasRoundingStep with
  | some gasRounding =>
    if gasUsed > 0 ∧ gasUsed % gasRounding = 0 then gasUsed * s.gasPrice
    else (gasUsed / gasRounding + 1) * gasRounding * s.gasPrice
  | none => getBucketCost s.computationBucket gasUsed * s.gasPrice

/-- `bucketize_computation`: the computation cost is the bucketed gas, or the
    whole budget and an out-of-gas error when the budget does not cover it. -/
def bucketizeComputation : MgoGasStatus × Except ExecutionError Unit :=
  if s.gasBudget ≤ s.bucketedGasUsed then
    ({ s with computationCost := s.gasBudget }, .error .insufficientGas)
  else
    ({ s with computationCost := s.bucketedGasUsed }, .ok ())

/-- `summary`: the computation cost, the storage cost, and the rebate split into
    the sender's share and the non-refundable fee; `none` is the panic of
    `assert!(sender_rebate <= storage_rebate)`. -/
def summary : Option GasCostSummary :=
  let storageRebate := s.storageRebate
  let senderRebate := senderRebate storageRebate s.rebateRate
  if senderRebate ≤ storageRebate then
    some { computationCost := s.computationCost
           storageCost := s.storageGasUnits
           storageRebate := senderRebate
           nonRefundableStorageFee := storageRebate - senderRebate }
  else none

/-- `reset_storage_cost_and_rebate`. -/
def resetStorageCostAndRebate : MgoGasStatus :=
  { s with perObjectStorage := [], unmeteredStorageRebate := 0 }

/-- `track_storage_mutation`: unmetered, only the rebate is kept aside;
    metered, the object's new cost and old rebate are recorded, and the new
    cost is returned as the object's next rebate. -/
def trackStorageMutation (objectId newSize storageRebate : Nat) : MgoGasStatus × Nat :=
  if s.isUnmetered then
    ({ s with unmeteredStorageRebate := s.unmeteredStorageRebate + storageRebate }, 0)
  else
    let storageCost := newSize * s.storagePerByteCost * s.storageGasPrice
    ({ s with perObjectStorage := s.perObjectStorage ++ [(objectId, ⟨storageCost, storageRebate, newSize⟩)] },
      storageCost)

/-- `charge_storage_and_rebate`: out of gas when the storage cost beyond the
    sender's rebate exceeds the budget left after computation. `none` is a
    panic: the assertion `sender_rebate <= storage_rebate`, or the checked
    subtraction `gas_budget - computation_cost` below zero. -/
def chargeStorageAndRebate : Option (Except ExecutionError Unit) :=
  let storageRebate := s.storageRebate
  let storageCost := s.storageGasUnits
  let senderRebate := senderRebate storageRebate s.rebateRate
  if storageRebate < senderRebate then none
  else if storageCost ≤ senderRebate then some (.ok ())
  else if s.gasBudget < s.computationCost then none
  else
    let gasLeft := s.gasBudget - s.computationCost
    if gasLeft < storageCost - senderRebate then some (.error .insufficientGas) else some (.ok ())

/-- `adjust_computation_on_out_of_gas`: no storage is charged, and the whole
    budget goes to computation. -/
def adjustComputationOnOutOfGas : MgoGasStatus :=
  { s with perObjectStorage := [], computationCost := s.gasBudget }

/-! ### What each operation changes -/

@[simp] theorem storageGasUnits_nil (s : MgoGasStatus) (h : s.perObjectStorage = []) :
    s.storageGasUnits = 0 := by
  simp [storageGasUnits, h]

@[simp] theorem storageRebate_nil (s : MgoGasStatus) (h : s.perObjectStorage = []) :
    s.storageRebate = 0 := by
  simp [storageRebate, h]

@[simp] theorem resetStorageCostAndRebate_perObjectStorage :
    s.resetStorageCostAndRebate.perObjectStorage = [] := rfl

@[simp] theorem resetStorageCostAndRebate_gasBudget :
    s.resetStorageCostAndRebate.gasBudget = s.gasBudget := rfl

@[simp] theorem resetStorageCostAndRebate_computationCost :
    s.resetStorageCostAndRebate.computationCost = s.computationCost := rfl

@[simp] theorem resetStorageCostAndRebate_charge :
    s.resetStorageCostAndRebate.charge = s.charge := rfl

@[simp] theorem resetStorageCostAndRebate_rebateRate :
    s.resetStorageCostAndRebate.rebateRate = s.rebateRate := rfl

@[simp] theorem adjustComputationOnOutOfGas_perObjectStorage :
    s.adjustComputationOnOutOfGas.perObjectStorage = [] := rfl

@[simp] theorem adjustComputationOnOutOfGas_gasBudget :
    s.adjustComputationOnOutOfGas.gasBudget = s.gasBudget := rfl

@[simp] theorem adjustComputationOnOutOfGas_computationCost :
    s.adjustComputationOnOutOfGas.computationCost = s.gasBudget := rfl

@[simp] theorem adjustComputationOnOutOfGas_charge :
    s.adjustComputationOnOutOfGas.charge = s.charge := rfl

@[simp] theorem adjustComputationOnOutOfGas_rebateRate :
    s.adjustComputationOnOutOfGas.rebateRate = s.rebateRate := rfl

@[simp] theorem trackStorageMutation_gasBudget (id n r : Nat) :
    (s.trackStorageMutation id n r).1.gasBudget = s.gasBudget := by
  unfold trackStorageMutation
  split <;> rfl

@[simp] theorem trackStorageMutation_computationCost (id n r : Nat) :
    (s.trackStorageMutation id n r).1.computationCost = s.computationCost := by
  unfold trackStorageMutation
  split <;> rfl

@[simp] theorem trackStorageMutation_charge (id n r : Nat) :
    (s.trackStorageMutation id n r).1.charge = s.charge := by
  unfold trackStorageMutation
  split <;> rfl

@[simp] theorem trackStorageMutation_rebateRate (id n r : Nat) :
    (s.trackStorageMutation id n r).1.rebateRate = s.rebateRate := by
  unfold trackStorageMutation
  split <;> rfl

@[simp] theorem trackStorageMutation_storagePerByteCost (id n r : Nat) :
    (s.trackStorageMutation id n r).1.storagePerByteCost = s.storagePerByteCost := by
  unfold trackStorageMutation
  split <;> rfl

@[simp] theorem trackStorageMutation_storageGasPrice (id n r : Nat) :
    (s.trackStorageMutation id n r).1.storageGasPrice = s.storageGasPrice := by
  unfold trackStorageMutation
  split <;> rfl

/-- A metered meter records the object and returns its new cost. -/
theorem trackStorageMutation_of_charge (hcharge : s.charge = true) (id n r : Nat) :
    s.trackStorageMutation id n r =
      ({ s with perObjectStorage := s.perObjectStorage ++
          [(id, ⟨n * s.storagePerByteCost * s.storageGasPrice, r, n⟩)] },
        n * s.storagePerByteCost * s.storageGasPrice) := by
  simp [trackStorageMutation, isUnmetered, hcharge]

/-- Metered tracking adds the object's cost to the storage cost. -/
theorem trackStorageMutation_storageGasUnits (hcharge : s.charge = true) (id n r : Nat) :
    (s.trackStorageMutation id n r).1.storageGasUnits =
      s.storageGasUnits + (s.trackStorageMutation id n r).2 := by
  rw [trackStorageMutation_of_charge s hcharge]
  simp [storageGasUnits]

/-- Metered tracking adds the object's old rebate to the rebates. -/
theorem trackStorageMutation_storageRebate (hcharge : s.charge = true) (id n r : Nat) :
    (s.trackStorageMutation id n r).1.storageRebate = s.storageRebate + r := by
  rw [trackStorageMutation_of_charge s hcharge]
  simp [storageRebate]

/-- A deleted object (new size zero) costs nothing. -/
@[simp] theorem trackStorageMutation_zero_snd (id r : Nat) :
    (s.trackStorageMutation id 0 r).2 = 0 := by
  unfold trackStorageMutation
  split <;> simp

/-- Tracking a deleted object (new size zero) adds no storage cost. -/
theorem trackStorageMutation_zero_storageGasUnits (id r : Nat) :
    (s.trackStorageMutation id 0 r).1.storageGasUnits = s.storageGasUnits := by
  unfold trackStorageMutation
  split
  · rfl
  · simp [storageGasUnits]

/-! ### Bounds -/

/-- Bucketizing never charges more computation than the budget. -/
theorem bucketizeComputation_computationCost_le :
    s.bucketizeComputation.1.computationCost ≤ s.bucketizeComputation.1.gasBudget := by
  unfold bucketizeComputation
  split
  · exact Nat.le_refl _
  · rename_i h
    exact Nat.le_of_lt (Nat.lt_of_not_le h)

@[simp] theorem bucketizeComputation_gasBudget :
    s.bucketizeComputation.1.gasBudget = s.gasBudget := by
  unfold bucketizeComputation
  split <;> rfl

@[simp] theorem bucketizeComputation_charge :
    s.bucketizeComputation.1.charge = s.charge := by
  unfold bucketizeComputation
  split <;> rfl

@[simp] theorem bucketizeComputation_rebateRate :
    s.bucketizeComputation.1.rebateRate = s.rebateRate := by
  unfold bucketizeComputation
  split <;> rfl

@[simp] theorem bucketizeComputation_perObjectStorage :
    s.bucketizeComputation.1.perObjectStorage = s.perObjectStorage := by
  unfold bucketizeComputation
  split <;> rfl

/-- At a rebate rate within the basis points the summary is made: the sender's
    share is at most the rebates. -/
theorem summary_eq (hrate : s.rebateRate ≤ basisPoints) :
    s.summary = some { computationCost := s.computationCost
                       storageCost := s.storageGasUnits
                       storageRebate := senderRebate s.storageRebate s.rebateRate
                       nonRefundableStorageFee :=
                         s.storageRebate - senderRebate s.storageRebate s.rebateRate } := by
  simp [summary, senderRebate_le hrate]

/-- The sender's share and the non-refundable fee make up the rebates. -/
theorem summary_rebate_split {sm : GasCostSummary} (hsm : s.summary = some sm) :
    sm.storageRebate + sm.nonRefundableStorageFee = s.storageRebate := by
  unfold summary at hsm
  dsimp only at hsm
  split at hsm
  · rename_i hle
    cases hsm
    dsimp only
    omega
  · cases hsm

/-- The summary reports the computation and storage the meter charged. -/
theorem summary_costs {sm : GasCostSummary} (hsm : s.summary = some sm) :
    sm.computationCost = s.computationCost ∧ sm.storageCost = s.storageGasUnits := by
  unfold summary at hsm
  dsimp only at hsm
  split at hsm
  · cases hsm
    exact ⟨rfl, rfl⟩
  · cases hsm

/-- Charging storage does not panic at a rebate rate within the basis points
    and a computation within the budget. -/
theorem chargeStorageAndRebate_isSome (hrate : s.rebateRate ≤ basisPoints)
    (hle : s.computationCost ≤ s.gasBudget) : s.chargeStorageAndRebate.isSome := by
  have hsender : senderRebate s.storageRebate s.rebateRate ≤ s.storageRebate := senderRebate_le hrate
  unfold chargeStorageAndRebate
  dsimp only
  rw [if_neg (Nat.not_lt.mpr hsender), if_neg (Nat.not_lt.mpr hle)]
  split
  · rfl
  · split <;> rfl

/-- When storage is charged the net charge stays within the budget: either the
    sender's rebate covers the storage cost, or the budget left after
    computation does. -/
theorem netGasUsage_le_of_chargeStorageAndRebate {sm : GasCostSummary}
    (hle : s.computationCost ≤ s.gasBudget) (hok : s.chargeStorageAndRebate = some (.ok ()))
    (hsm : s.summary = some sm) :
    sm.netGasUsage ≤ s.gasBudget := by
  obtain ⟨hcomp, hstorage⟩ := s.summary_costs hsm
  have hsender : sm.storageRebate = senderRebate s.storageRebate s.rebateRate := by
    unfold summary at hsm
    dsimp only at hsm
    split at hsm
    · cases hsm
      rfl
    · cases hsm
  unfold chargeStorageAndRebate at hok
  dsimp only at hok
  simp only [GasCostSummary.netGasUsage, GasCostSummary.gasUsed, hcomp, hstorage, hsender]
  split at hok
  · cases hok
  · split at hok
    · -- the rebate covers the storage cost
      rename_i hcover
      omega
    · split at hok
      · cases hok
      · -- the budget left covers the rest
        rename_i hbudget
        split at hok
        · cases hok
        · rename_i hleft
          omega

/-- With no storage charged the net charge is the computation less the
    sender's rebate. -/
theorem netGasUsage_le_of_storageGasUnits_eq_zero {sm : GasCostSummary}
    (hle : s.computationCost ≤ s.gasBudget) (hzero : s.storageGasUnits = 0)
    (hsm : s.summary = some sm) : sm.netGasUsage ≤ s.gasBudget := by
  obtain ⟨hcomp, hstorage⟩ := s.summary_costs hsm
  simp only [GasCostSummary.netGasUsage, GasCostSummary.gasUsed, hcomp, hstorage, hzero]
  omega

/-! ### The checked arithmetic stays within `u64`

`gas_v2.rs` is compiled with `with_checked_arithmetic`, so each of its `+`, `-`
and `*` panics on overflow. The model computes on natural numbers instead; the
bounds below say why no such panic is reachable. `new_with_budget` gives the
Move meter at most `max_gas_computation_bucket * gas_price` of budget, so the
meter reports at most `max_gas_computation_bucket` (5000000) units; the gas
price is at most `max_gas_price` (100000); and every product of bucketizing is
then below 10^12. The storage sums are bounded by the number of objects tracked
times the largest cost or rebate among them. -/

/-- The bucketed gas is at most the meter's gas plus a bound on the rounding
    step and the bucket costs, priced. -/
theorem bucketedGasUsed_le {c : Nat} (hstep : ∀ r ∈ s.gasRoundingStep, r ≤ c)
    (hcost : ∀ bucket ∈ s.computationBucket, bucket.cost ≤ c) (hfallback : 5000000 ≤ c) :
    s.bucketedGasUsed ≤ (s.gasUsedPreGasPrice + c) * s.gasPrice := by
  unfold bucketedGasUsed
  dsimp only
  split
  · rename_i gasRounding hsome
    split
    · exact Nat.mul_le_mul_right _ (Nat.le_add_right _ _)
    · -- the rounded gas is the next multiple of the step
      have hle := hstep gasRounding hsome
      have hround := roundUp_le s.gasUsedPreGasPrice gasRounding
      exact Nat.mul_le_mul_right _ (by omega)
  · have hbucket := getBucketCost_le s.gasUsedPreGasPrice hcost hfallback
    exact Nat.mul_le_mul_right _ (by omega)

/-- At the protocol's limits every amount `bucketize_computation` computes is
    below 10^12, far within `u64`: the rounded gas before pricing and the
    priced gas the budget is compared with. -/
theorem bucketizeComputation_within_u64 (hgas : s.gasUsedPreGasPrice ≤ 5000000)
    (hprice : s.gasPrice ≤ 100000) (hstep : ∀ r ∈ s.gasRoundingStep, r ≤ 5000000)
    (hcost : ∀ bucket ∈ s.computationBucket, bucket.cost ≤ 5000000) :
    (∀ r ∈ s.gasRoundingStep, (s.gasUsedPreGasPrice / r + 1) * r ≤ 10 ^ 12) ∧
      s.bucketedGasUsed ≤ 10 ^ 12 ∧ 10 ^ 12 < u64Max := by
  refine ⟨fun r hr => ?_, ?_, by decide⟩
  · have hround := roundUp_le s.gasUsedPreGasPrice r
    have hr' := hstep r hr
    omega
  · have hle := s.bucketedGasUsed_le hstep hcost (Nat.le_refl _)
    calc s.bucketedGasUsed ≤ (s.gasUsedPreGasPrice + 5000000) * s.gasPrice := hle
      _ ≤ (5000000 + 5000000) * 100000 := Nat.mul_le_mul (by omega) hprice
      _ = 10 ^ 12 := by norm_num

/-- A meter made by `new_with_budget` at the protocol's limits (the bucket table
    of `max_gas_computation_bucket`, a rounding step within it, raised to one)
    bucketizes within the bounds above. -/
theorem new_bucketizeComputation_within_u64 {gasUsed perByte budget price storagePrice rate : Nat}
    {charge : Bool} {step : Option Nat} (hgas : gasUsed ≤ 5000000) (hprice : price ≤ 100000)
    (hstep : ∀ r ∈ step, r ≤ 5000000) :
    (new gasUsed (Mango.Adapter.computationBucket 5000000) perByte budget charge price storagePrice
      rate step).bucketedGasUsed ≤ 10 ^ 12 := by
  refine (bucketizeComputation_within_u64 _ hgas hprice ?_
    (computationBucket_cost_le (Nat.le_of_lt (by decide)))).2.1
  intro r hr
  obtain ⟨r₀, hr₀, rfl⟩ := Option.mem_map.mp hr
  have := hstep r₀ hr₀
  omega

/-- The storage cost and the rebates tracked are at most the number of objects
    times a bound on each object's cost and rebate. -/
theorem storage_sums_le {c : Nat}
    (hbound : ∀ p ∈ s.perObjectStorage, p.2.storageCost ≤ c ∧ p.2.storageRebate ≤ c) :
    s.storageGasUnits ≤ s.perObjectStorage.length * c ∧
      s.storageRebate ≤ s.perObjectStorage.length * c := by
  -- both are sums over the tracked objects, each term within `c`
  have hsum : ∀ f : Nat × PerObjectStorage → Nat, (∀ p ∈ s.perObjectStorage, f p ≤ c) →
      (s.perObjectStorage.map f).sum ≤ s.perObjectStorage.length * c := by
    intro f hf
    have h := List.sum_le_card_nsmul (s.perObjectStorage.map f) c (by
      intro x hx
      obtain ⟨p, hp, rfl⟩ := List.mem_map.mp hx
      exact hf p hp)
    simpa using h
  exact ⟨hsum _ fun p hp => (hbound p hp).1, hsum _ fun p hp => (hbound p hp).2⟩

end MgoGasStatus

/-! ## Paying -/

/-- `deduct_gas`: a positive charge is taken from the coin, which must hold it;
    a negative one is paid into it. `none` is the code's panic: the assertion
    `balance >= charge_or_rebate`, or an object that is no Move object. -/
def deductGas (gasObject : Object) (chargeOrRebate : Int) : Option Object :=
  match gasObject.data with
  | .move isGasCoin balance =>
    if chargeOrRebate < 0 then
      some { gasObject with data := .move isGasCoin (balance + chargeOrRebate.natAbs) }
    else if chargeOrRebate.toNat ≤ balance then
      some { gasObject with data := .move isGasCoin (balance - chargeOrRebate.toNat) }
    else none
  | .package => none

/-- Paying only changes the coin's balance. -/
theorem deductGas_id_storageRebate {gasObject gasObject' : Object} {chargeOrRebate : Int}
    (h : deductGas gasObject chargeOrRebate = some gasObject') :
    gasObject'.id = gasObject.id ∧ gasObject'.storageRebate = gasObject.storageRebate := by
  unfold deductGas at h
  split at h
  · split at h
    · cases h
      exact ⟨rfl, rfl⟩
    · split at h
      · cases h
        exact ⟨rfl, rfl⟩
      · cases h
  · cases h

/-- A coin that holds at least the charge pays it. -/
theorem deductGas_isSome {gasObject : Object} {isGasCoin : Bool} {balance : Nat} {charge : Int}
    (hdata : gasObject.data = .move isGasCoin balance) (hle : charge ≤ balance) :
    (deductGas gasObject charge).isSome := by
  unfold deductGas
  rw [hdata]
  dsimp only
  split
  · rfl
  · rename_i hneg
    have htoNat : charge.toNat ≤ balance := by omega
    simp [htoNat]

/-! ## The charger -/

/-- `dont_charge_budget_on_storage_oog`: from gas model version 4 a storage
    out-of-gas retries without the transaction's writes before it gives up. -/
def dontChargeBudgetOnStorageOog (gasModelVersion : Nat) : Bool := 4 ≤ gasModelVersion

/-- `GasCharger`. -/
structure GasCharger where
  txDigest : Nat
  gasModelVersion : Nat
  gasCoins : List ObjectRef
  smashedGasCoin : Option Nat
  gasStatus : MgoGasStatus
  deriving DecidableEq, Repr

namespace GasCharger

/-- `GasCharger::new`: no coin smashed yet. -/
def new (txDigest : Nat) (gasCoins : List ObjectRef) (gasStatus : MgoGasStatus)
    (gasModelVersion : Nat) : GasCharger :=
  ⟨txDigest, gasModelVersion, gasCoins, none, gasStatus⟩

/-- `GasCharger::track_storage_mutation`. -/
def trackStorageMutation (gc : GasCharger) (objectId newSize storageRebate : Nat) :
    GasCharger × Nat :=
  let (gasStatus, rebate) := gc.gasStatus.trackStorageMutation objectId newSize storageRebate
  ({ gc with gasStatus := gasStatus }, rebate)

@[simp] theorem trackStorageMutation_fst_gasStatus (gc : GasCharger) (id n r : Nat) :
    (gc.trackStorageMutation id n r).1.gasStatus = (gc.gasStatus.trackStorageMutation id n r).1 := rfl

@[simp] theorem trackStorageMutation_snd (gc : GasCharger) (id n r : Nat) :
    (gc.trackStorageMutation id n r).2 = (gc.gasStatus.trackStorageMutation id n r).2 := rfl

@[simp] theorem trackStorageMutation_fst_smashedGasCoin (gc : GasCharger) (id n r : Nat) :
    (gc.trackStorageMutation id n r).1.smashedGasCoin = gc.smashedGasCoin := rfl

@[simp] theorem trackStorageMutation_fst_gasCoins (gc : GasCharger) (id n r : Nat) :
    (gc.trackStorageMutation id n r).1.gasCoins = gc.gasCoins := rfl

@[simp] theorem trackStorageMutation_fst_gasModelVersion (gc : GasCharger) (id n r : Nat) :
    (gc.trackStorageMutation id n r).1.gasModelVersion = gc.gasModelVersion := rfl

/-- `gc'` is `gc` with at most more storage tracked: the coins, the model
    version and the meter but its storage records are the same. -/
structure Tracked (gc gc' : GasCharger) : Prop where
  smashedGasCoin : gc'.smashedGasCoin = gc.smashedGasCoin
  gasCoins : gc'.gasCoins = gc.gasCoins
  gasModelVersion : gc'.gasModelVersion = gc.gasModelVersion
  gasBudget : gc'.gasStatus.gasBudget = gc.gasStatus.gasBudget
  computationCost : gc'.gasStatus.computationCost = gc.gasStatus.computationCost
  charge : gc'.gasStatus.charge = gc.gasStatus.charge
  rebateRate : gc'.gasStatus.rebateRate = gc.gasStatus.rebateRate
  storagePerByteCost : gc'.gasStatus.storagePerByteCost = gc.gasStatus.storagePerByteCost
  storageGasPrice : gc'.gasStatus.storageGasPrice = gc.gasStatus.storageGasPrice

theorem Tracked.refl (gc : GasCharger) : Tracked gc gc :=
  ⟨rfl, rfl, rfl, rfl, rfl, rfl, rfl, rfl, rfl⟩

theorem Tracked.trans {gc₁ gc₂ gc₃ : GasCharger} (h₁ : Tracked gc₁ gc₂) (h₂ : Tracked gc₂ gc₃) :
    Tracked gc₁ gc₃ :=
  ⟨h₂.smashedGasCoin.trans h₁.smashedGasCoin, h₂.gasCoins.trans h₁.gasCoins,
    h₂.gasModelVersion.trans h₁.gasModelVersion, h₂.gasBudget.trans h₁.gasBudget,
    h₂.computationCost.trans h₁.computationCost, h₂.charge.trans h₁.charge,
    h₂.rebateRate.trans h₁.rebateRate, h₂.storagePerByteCost.trans h₁.storagePerByteCost,
    h₂.storageGasPrice.trans h₁.storageGasPrice⟩

/-- Tracking an object only tracks storage. -/
theorem tracked_trackStorageMutation (gc : GasCharger) (id n r : Nat) :
    Tracked gc (gc.trackStorageMutation id n r).1 :=
  ⟨rfl, rfl, rfl, by simp, by simp, by simp, by simp, by simp, by simp⟩

/-- Resetting the storage tracked keeps all the rest. -/
theorem tracked_resetStorageCostAndRebate (gc : GasCharger) :
    Tracked gc { gc with gasStatus := gc.gasStatus.resetStorageCostAndRebate } :=
  ⟨rfl, rfl, rfl, rfl, rfl, rfl, rfl, rfl, rfl⟩

end GasCharger

end Mango.Adapter
