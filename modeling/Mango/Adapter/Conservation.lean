/-
  Mango.Adapter.Conservation

  Storage rebates are conserved by `charge_gas`: after it, the simple checks of
  `check_mgo_conserved` (`mgo-adapter/src/temporary_store.rs`) pass. The
  rebates the modified inputs held are what the summary gives back to the
  sender with the non-refundable fee, and the storage charged is what the
  written objects hold as their new rebates; with no storage charged, the input
  rebates are the output rebates with those given back.

  Every path of `charge_gas` ends in one of the two charged states of
  `Mango.Adapter.GasCharger`. With storage charged, collecting tracked the
  rebate of every modified object and the new cost of every written one. Charged
  without storage after a reset, the written objects hold the rebates they were
  read with, and only the rebates of the others are tracked. Taking the charge
  from the gas coin, which is modified and written on every path, changes
  neither total.
-/
import Mango.Adapter.GasCharger

namespace Mango.Adapter

open Mango.Lib Mango.Core

-- ============================================================================
-- The totals of the store
-- ============================================================================

namespace TemporaryStore

variable (s : TemporaryStore)

/-- The written objects are modified ones, holding the rebates they were read
    with: so is the store right after a reset, and after its inputs are
    mutated. -/
def RebatesAsRead : Prop :=
  ∀ p ∈ s.executionResults.writtenObjects, p.1 ∈ s.executionResults.modifiedObjects ∧
    p.2.storageRebate = (s.modifiedAtMetadata p.1).storageRebate

/-- Where the written objects hold the rebates they were read with, the input
    rebates are the output rebates and the rebates of the objects not written. -/
theorem totalInputRebate_of_rebatesAsRead (h : s.RebatesAsRead) :
    s.totalInputRebate = s.totalOutputRebate +
      ((s.executionResults.modifiedObjects.filter (· ∉ s.executionResults.writtenObjects.map (·.1))).map
        fun m => (s.modifiedAtMetadata m).storageRebate).sum := by
  have hsplit := sum_ite_mem_add_sum_filter_not_mem (fun m => (s.modifiedAtMetadata m).storageRebate)
    s.executionResults.written_nodup s.executionResults.modified_nodup
  -- every written object is modified, so the first part is the output rebates
  have hwritten : ((s.executionResults.writtenObjects.map (·.1)).map fun k =>
      if k ∈ s.executionResults.modifiedObjects then (s.modifiedAtMetadata k).storageRebate else 0) =
      s.executionResults.writtenObjects.map (·.2.storageRebate) := by
    rw [List.map_map]
    apply List.map_congr_left
    intro p hp
    simp [(h p hp).1, (h p hp).2]
  rw [hwritten] at hsplit
  rw [totalInputRebate_eq, totalOutputRebate_eq]
  exact hsplit.symm

/-- Mutating the inputs writes them back as they were read. -/
theorem rebatesAsRead_ensureActiveInputsMutated (h : s.RebatesAsRead) :
    s.ensureActiveInputsMutated.RebatesAsRead := by
  obtain ⟨r, heq, hmod, hnew, hold, -, -⟩ := ensureActiveInputsMutated_spec s
  rw [heq]
  intro p hp
  have hget : vget r.writtenObjects p.1 = some p.2 := vget_of_mem_nodup r.written_nodup hp
  simp only [withResults_executionResults, withResults_modifiedAtMetadata]
  by_cases hback : p.1 ∈ s.mutableInputRefs.map (·.1) ∧ p.1 ∉ s.executionResults.modifiedObjects
  · -- a mutable input written back as it was read
    rw [hnew p.1 hback.1 hback.2] at hget
    obtain ⟨ref, href⟩ := Option.isSome_iff_exists.mp ((vget_isSome_iff _ _).mpr hback.1)
    exact ⟨(hmod p.1).mpr (.inr hback.1), (s.modifiedAtMetadata_of_mutable href hget).symm⟩
  · -- written before, as it was read
    have hget' : vget s.executionResults.writtenObjects p.1 = some p.2 := by
      rw [← hold p.1 fun hin => by
        by_contra hnot
        exact hback ⟨hin, hnot⟩]
      exact hget
    obtain ⟨hm, hrebate⟩ := h (p.1, p.2) (mem_of_vget_eq_some hget')
    exact ⟨(hmod p.1).mpr (.inl hm), hrebate⟩

/-- A mutable input is modified once the inputs are mutated, and written if it
    is written whenever modified. -/
theorem mem_ensureActiveInputsMutated {id : Nat} (hmut : id ∈ s.mutableInputRefs.map (·.1))
    (hwritten : id ∈ s.executionResults.modifiedObjects →
      id ∈ s.executionResults.writtenObjects.map (·.1)) :
    id ∈ s.ensureActiveInputsMutated.executionResults.modifiedObjects ∧
      id ∈ s.ensureActiveInputsMutated.executionResults.writtenObjects.map (·.1) := by
  obtain ⟨r, heq, hmod, hnew, hold, -, -⟩ := ensureActiveInputsMutated_spec s
  rw [heq]
  refine ⟨(hmod id).mpr (.inr hmut), ?_⟩
  simp only [withResults_executionResults]
  rw [← vget_isSome_iff]
  by_cases hm : id ∈ s.executionResults.modifiedObjects
  · rw [hold id fun _ => hm, vget_isSome_iff]
    exact hwritten hm
  · rw [hnew id hmut hm, vget_isSome_iff]
    exact s.mutable_input id hmut

/-- Collecting storage keeps the input rebates. -/
theorem totalInputRebate_collectStorageAndRebate (objectSize : Object → Nat) (gc : GasCharger) :
    (s.collectStorageAndRebate objectSize gc).1.totalInputRebate = s.totalInputRebate := by
  rw [totalInputRebate_eq, totalInputRebate_eq, collectStorageAndRebate_modifiedObjects,
    collectStorageAndRebate_modifiedAtMetadata]

/-- Writing back a modified, written object with the rebate it was written
    with keeps both totals. -/
theorem totals_mutateInputObject {id : Nat} {o o' : Object}
    (hmod : id ∈ s.executionResults.modifiedObjects) (hw : id ∈ s.executionResults.writtenObjects.map (·.1))
    (ho : s.readObject id = some o) (hid : o'.id = id) (hrebate : o'.storageRebate = o.storageRebate) :
    (s.mutateInputObject o').totalInputRebate = s.totalInputRebate ∧
      (s.mutateInputObject o').totalOutputRebate = s.totalOutputRebate := by
  -- a written object reads as written
  have hget : vget s.executionResults.writtenObjects id = some o := by
    obtain ⟨x, hx⟩ := Option.isSome_iff_exists.mp ((vget_isSome_iff _ _).mpr hw)
    simp only [readObject, hx, Option.some.injEq] at ho
    rw [hx, ho]
  constructor
  · rw [totalInputRebate_eq, totalInputRebate_eq]
    simp [mutateInputObject, hid, List.insert_of_mem hmod]
  · rw [totalOutputRebate_eq, totalOutputRebate_eq]
    have hsum := sum_map_vset (fun o => o.storageRebate) s.executionResults.written_nodup hget o'
    rw [hrebate] at hsum
    simp only [mutateInputObject, withResults_executionResults,
      ExecutionResultsV2.insertWritten_writtenObjects, ExecutionResultsV2.insertModified_writtenObjects, hid]
    omega

end TemporaryStore

-- ============================================================================
-- The charged states
-- ============================================================================

namespace GasCharger

/-- The store right after smashing holds the rebates it was read with. -/
theorem SmashedResults.rebatesAsRead {st : TemporaryStore} {gasCoins : List ObjectRef}
    {gasId budget : Nat} {r : ExecutionResultsV2} (h : SmashedResults st gasCoins gasId budget r) :
    (st.withResults r).RebatesAsRead :=
  fun p hp => (h.written p hp).2

/-- A charged state whose totals `check_mgo_conserved` accepts, with the gas
    coin modified and written. -/
structure Accounted (gasId : Nat) (gc : GasCharger) (st : TemporaryStore) : Prop where
  balance : (st.totalInputRebate = gc.gasStatus.storageRebate ∧
      gc.gasStatus.storageGasUnits = st.totalOutputRebate) ∨
    (gc.gasStatus.storageGasUnits = 0 ∧
      st.totalInputRebate = st.totalOutputRebate + gc.gasStatus.storageRebate)
  gasModified : gasId ∈ st.executionResults.modifiedObjects
  gasWritten : gasId ∈ st.executionResults.writtenObjects.map (·.1)

/-- Both balances are what `check_mgo_conserved` checks of the summary. -/
theorem checkMgoConserved_of_balance {gc : GasCharger} {st : TemporaryStore} {sm : GasCostSummary}
    (hbalance : (st.totalInputRebate = gc.gasStatus.storageRebate ∧
        gc.gasStatus.storageGasUnits = st.totalOutputRebate) ∨
      (gc.gasStatus.storageGasUnits = 0 ∧
        st.totalInputRebate = st.totalOutputRebate + gc.gasStatus.storageRebate))
    (hsm : gc.gasStatus.summary = some sm) : st.checkMgoConserved true sm = .ok () := by
  have hsplit := gc.gasStatus.summary_rebate_split hsm
  obtain ⟨-, hcost⟩ := gc.gasStatus.summary_costs hsm
  unfold TemporaryStore.checkMgoConserved
  simp only [Bool.not_true, Bool.false_eq_true, if_false]
  rcases hbalance with ⟨hin, hout⟩ | ⟨hzero, hin⟩
  · -- storage charged: the rebates are given back or kept, the costs written
    by_cases hc : sm.storageCost = 0
    · rw [if_pos hc, if_neg (by omega)]
    · rw [if_neg hc, if_neg (by omega), if_neg (by omega)]
  · -- no storage charged: the input rebates are the output rebates and those given back
    rw [if_pos (by omega), if_neg (by omega)]

/-- Paying from the gas coin keeps an accounted state conserved. -/
theorem Accounted.checkMgoConserved_mutateInputObject {gasId : Nat} {gc : GasCharger} {st : TemporaryStore}
    (h : Accounted gasId gc st) {sm : GasCostSummary} {o o' : Object}
    (hsm : gc.gasStatus.summary = some sm) (ho : st.readObject gasId = some o)
    (hd : deductGas o sm.netGasUsage = some o') :
    (st.mutateInputObject o').checkMgoConserved true sm = .ok () := by
  obtain ⟨hid, hrebate⟩ := deductGas_id_storageRebate hd
  obtain ⟨hin, hout⟩ := st.totals_mutateInputObject h.gasModified h.gasWritten ho
    (hid.trans (st.readObject_id ho)) hrebate
  apply checkMgoConserved_of_balance _ hsm
  rw [hin, hout]
  exact h.balance

section Accounting

variable {objectSize : Object → Nat} {gcB gc : GasCharger} {st : TemporaryStore} {gasId : Nat}

/-- The smashed coin is a mutable input. -/
theorem Entry.mem_mutableInputRefs (h : Entry gcB gasId gc st) : gasId ∈ st.mutableInputRefs.map (·.1) := by
  obtain ⟨primary, hprimary, hid⟩ := Option.map_eq_some_iff.mp h.head
  rw [← hid]
  exact h.pay.mutable primary (List.mem_of_mem_head? hprimary)

/-- Storage charged from a fresh entry is accounted: collecting tracked the
    input rebates and the output costs. -/
theorem Entry.accounted_of_storageCharged (h : Entry gcB gasId gc st) (hfresh : Fresh gasId gc st)
    (hcharge : gcB.gasStatus.charge = true) :
    Accounted gasId (st.ensureActiveInputsMutated.collectStorageAndRebate objectSize gc).2
      (st.ensureActiveInputsMutated.collectStorageAndRebate objectSize gc).1 := by
  obtain ⟨hR, hC⟩ := st.ensureActiveInputsMutated.collectStorageAndRebate_spec objectSize gc
    (h.tracked.charge.trans hcharge)
  obtain ⟨hmod, hw⟩ := st.mem_ensureActiveInputsMutated h.mem_mutableInputRefs hfresh.gasWritten
  refine ⟨.inl ⟨?_, ?_⟩, hmod, ?_⟩
  · rw [hR, hfresh.storageRebate, Nat.zero_add,
      TemporaryStore.totalInputRebate_collectStorageAndRebate]
  · rw [hC, hfresh.storageGasUnits, Nat.zero_add]
  · rw [TemporaryStore.collectStorageAndRebate_written_keys]
    exact hw

/-- Charging without storage after a reset is accounted: the written objects
    hold the rebates they were read with, and the others' rebates are tracked. -/
theorem Entry.accounted_of_withoutStorage (h : Entry gcB gasId gc st) {budget : Nat}
    {r : ExecutionResultsV2} (hsm : SmashedResults st gcB.gasCoins gasId budget r)
    (hcharge : gcB.gasStatus.charge = true) :
    Accounted gasId ((st.withResults r).ensureActiveInputsMutated.collectRebate
        { gc with gasStatus := gc.gasStatus.resetStorageCostAndRebate.adjustComputationOnOutOfGas })
      (st.withResults r).ensureActiveInputsMutated := by
  have hR := (st.withResults r).ensureActiveInputsMutated.collectRebate_spec
    { gc with gasStatus := gc.gasStatus.resetStorageCostAndRebate.adjustComputationOnOutOfGas }
    (h.tracked.charge.trans hcharge)
  have hC := ((st.withResults r).ensureActiveInputsMutated.collectRebate_tracked
    { gc with gasStatus := gc.gasStatus.resetStorageCostAndRebate.adjustComputationOnOutOfGas }).2
  have hread := (st.withResults r).rebatesAsRead_ensureActiveInputsMutated hsm.rebatesAsRead
  obtain ⟨hmod, hw⟩ := (st.withResults r).mem_ensureActiveInputsMutated h.mem_mutableInputRefs hsm.gas_written
  refine ⟨.inr ⟨?_, ?_⟩, hmod, hw⟩
  · rw [hC]
    exact MgoGasStatus.storageGasUnits_nil _ rfl
  · rw [(st.withResults r).ensureActiveInputsMutated.totalInputRebate_of_rebatesAsRead hread, hR,
      MgoGasStatus.storageRebate_nil _ rfl, Nat.zero_add]

end Accounting

-- ============================================================================
-- Conservation on every path
-- ============================================================================

/-- Storage rebates are conserved on every path of `charge_gas`: after it,
    `check_mgo_conserved` with the simple checks passes. This is for a metered
    transaction paid by coins that passed the balance check, at any rebate rate
    up to 10000 basis points. The code asserts that no storage was tracked on
    entry, and the gas coin is never deleted or wrapped. -/
theorem charge_gas_conserves_storage_rebates {α : Type} (objectSize : Object → Nat) (gc : GasCharger)
    (st : TemporaryStore) (executionResult : Except ExecutionError α) {gasId : Nat}
    (hcharge : gc.gasStatus.charge = true) (hrate : gc.gasStatus.rebateRate ≤ basisPoints)
    (hpay : GasPayment gc.gasCoins gc.gasStatus.gasBudget st)
    (hhead : gc.gasCoins.head?.map (·.id) = some gasId) (hsmashed : gc.smashedGasCoin = some gasId)
    (hwritten : st.WrittenModified gasId)
    (hreserve : executionResult.isOk = true → Funded st gasId gc.gasStatus.gasBudget)
    (hentry : gc.gasStatus.storageRebate = 0 ∧ gc.gasStatus.storageGasUnits = 0)
    (hgas : gasId ∈ st.executionResults.modifiedObjects →
      gasId ∈ st.executionResults.writtenObjects.map (·.1)) :
    ∃ gc' st' result summary,
      chargeGas objectSize gc st executionResult = some (gc', st', result, summary) ∧
      st'.checkMgoConserved true summary = .ok () := by
  have hchargeB : gc.gasStatus.bucketizeComputation.1.charge = true := by
    rw [MgoGasStatus.bucketizeComputation_charge]
    exact hcharge
  -- the store as executed is a fresh entry: nothing tracked, as the code asserts
  have hfresh : Fresh gasId { gc with gasStatus := gc.gasStatus.bucketizeComputation.1 } st := by
    refine ⟨?_, ?_, hgas⟩
    · simp only [MgoGasStatus.storageRebate, MgoGasStatus.bucketizeComputation_perObjectStorage]
      exact hentry.1
    · simp only [MgoGasStatus.storageGasUnits, MgoGasStatus.bucketizeComputation_perObjectStorage]
      exact hentry.2
  obtain ⟨_, _, _, _, _, _, hcharged, hacc, hsm, -, -, ho, hd⟩ :=
    chargeGas_charged objectSize executionResult (Accounted gasId) hrate hpay hhead hsmashed hwritten
      hreserve
      (fun hX _ _ => hX.accounted_of_storageCharged hfresh hchargeB)
      (fun _ _ _ hY hYfresh _ _ _ => hY.accounted_of_storageCharged hYfresh hchargeB)
      fun _ _ _ hZ hsm _ => hZ.accounted_of_withoutStorage hsm hchargeB
  exact ⟨_, _, _, _, hcharged, hacc.checkMgoConserved_mutateInputObject hsm ho hd⟩

/-- The transaction paid by `paidCharger` conserves its storage rebates. -/
theorem charge_gas_conserves_storage_rebates_paid :
    ∃ gc' st' result summary,
      chargeGas (fun _ => 100) paidCharger paidStore (.ok () : Except ExecutionError Unit) =
        some (gc', st', result, summary) ∧
      st'.checkMgoConserved true summary = .ok () :=
  charge_gas_conserves_storage_rebates (fun _ => 100) paidCharger paidStore (.ok ()) rfl (by decide)
    paidStore_gasPayment rfl rfl paidStore_writtenModified (fun _ => ⟨_, true, 5000000, rfl, rfl, by decide⟩)
    ⟨rfl, rfl⟩ fun h => absurd h (by simp [paidStore])

end GasCharger

end Mango.Adapter
