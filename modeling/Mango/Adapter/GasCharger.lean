/-
  Mango.Adapter.GasCharger

  Charging a transaction for gas (`mgo-adapter/src/gas_charger.rs`): the gas
  coins are smashed into the first one, and at the end of execution
  `charge_gas` bucketizes the computation, tracks the storage of every object
  written or modified, charges it, and takes the net charge from the gas coin.

  The unhappy paths are most of the code. When execution failed, or the
  computation alone exceeds the budget, the writes are dropped and the coins
  smashed again before storage is charged. When storage does not fit in the
  budget left, the first gas models drop the writes and charge the whole
  budget as computation; from gas model version 4 the transaction is charged
  again for its inputs alone, and only when even those do not fit is the
  whole budget charged.

  Panics are `none`: a gas coin that is no input gas coin, the assertions of
  the meter, a subtraction below zero, and the assertion of `deduct_gas` that
  the coin holds the charge.
-/
import Mango.Adapter.TemporaryStore

namespace Mango.Adapter

open Mango.Lib Mango.Core

/-- The value of a gas coin among the input objects; `none` is the panic of
    `smash_gas` on a coin that is not an input gas coin. -/
def gasCoinValue (st : TemporaryStore) (ref : ObjectRef) : Option Nat :=
  match (vget st.inputObjects ref.id).map Object.data with
  | some (Data.move true value) => some value
  | _ => none

/-- `set_coin_value_unsafe` on `try_as_move_mut().unwrap()`. -/
def setCoinValue (o : Object) (value : Nat) : Option Object :=
  match o.data with
  | .move isGasCoin _ => some { o with data := .move isGasCoin value }
  | .package => none

namespace GasCharger

variable {α : Type}

/-- `smash_gas`: the first coin becomes the transaction's gas coin, unless
    there is none (or only `ObjectID::ZERO`); with several coins the others are
    deleted and the first holds the value of all. -/
def smashGas (gc : GasCharger) (st : TemporaryStore) : Option (GasCharger × TemporaryStore) :=
  match gc.gasCoins with
  | [] => some (gc, st)
  | [coin] => if coin.id = 0 then some (gc, st) else some ({ gc with smashedGasCoin := some coin.id }, st)
  | primary :: secondary@(_ :: _) => do
    -- sum the value of all gas coins
    let values ← gc.gasCoins.mapM (gasCoinValue st)
    let newBalance := values.sum
    let primaryGasObject ← vget st.inputObjects primary.id
    -- delete all gas objects except the primary gas object
    let st := secondary.foldl (fun st ref => st.deleteInputObject ref.id) st
    let primaryGasObject ← setCoinValue primaryGasObject newBalance
    pure ({ gc with smashedGasCoin := some primary.id }, st.mutateInputObject primaryGasObject)

/-- `reset`: the writes and the storage tracked are dropped, and the coins
    smashed again, as if execution were about to begin. -/
def reset (gc : GasCharger) (st : TemporaryStore) : Option (GasCharger × TemporaryStore) :=
  smashGas { gc with gasStatus := gc.gasStatus.resetStorageCostAndRebate } st.dropWrites

/-- The error an out-of-gas error leaves in the execution result: it replaces
    success, and an earlier error stays. -/
def setError (executionResult : Except ExecutionError α) (err : ExecutionError) :
    Except ExecutionError α :=
  if executionResult.isOk then .error err else executionResult

/-- The common end of `handle_storage_and_rebate_v1` and of the second failure
    of `_v2`: drop the writes, charge the whole budget as computation and no
    storage, mutate the inputs, give back the rebates of what is no longer
    there, and record the error. -/
def chargeWithoutStorage (gc : GasCharger) (st : TemporaryStore)
    (executionResult : Except ExecutionError α) (err : ExecutionError) :
    Option (GasCharger × TemporaryStore × Except ExecutionError α) := do
  let reset ← gc.reset st
  let gc := { reset.1 with gasStatus := reset.1.gasStatus.adjustComputationOnOutOfGas }
  let st := reset.2.ensureActiveInputsMutated
  pure (st.collectRebate gc, st, setError executionResult err)

/-- `handle_storage_and_rebate_v1`. -/
def handleStorageAndRebateV1 (gc : GasCharger) (st : TemporaryStore)
    (executionResult : Except ExecutionError α) :
    Option (GasCharger × TemporaryStore × Except ExecutionError α) :=
  match gc.gasStatus.chargeStorageAndRebate with
  | some (.ok ()) => some (gc, st, executionResult)
  | some (.error err) => gc.chargeWithoutStorage st executionResult err
  | none => none

/-- `handle_storage_and_rebate_v2`: out of gas on storage, the transaction is
    charged again for its inputs alone, and only then without storage. -/
def handleStorageAndRebateV2 (objectSize : Object → Nat) (gc : GasCharger) (st : TemporaryStore)
    (executionResult : Except ExecutionError α) :
    Option (GasCharger × TemporaryStore × Except ExecutionError α) :=
  match gc.gasStatus.chargeStorageAndRebate with
  | some (.ok ()) => some (gc, st, executionResult)
  | some (.error err) => do
    let reset ← gc.reset st
    let collected := reset.2.ensureActiveInputsMutated.collectStorageAndRebate objectSize reset.1
    match collected.2.gasStatus.chargeStorageAndRebate with
    | some (.error err) => collected.2.chargeWithoutStorage collected.1 executionResult err
    | some (.ok ()) => some (collected.2, collected.1, setError executionResult err)
    | none => none
  | none => none

/-- The part of `charge_gas` run with a gas coin before storage: computation
    is bucketized, and on any error the writes are dropped and the coins
    smashed again. -/
def bucketizeAndReset (gc : GasCharger) (st : TemporaryStore)
    (executionResult : Except ExecutionError α) :
    Option (GasCharger × TemporaryStore × Except ExecutionError α) :=
  let bucketized := gc.gasStatus.bucketizeComputation
  let gc := { gc with gasStatus := bucketized.1 }
  let executionResult := match bucketized.2 with
    | .error err => setError executionResult err
    | .ok () => executionResult
  if executionResult.isOk then some (gc, st, executionResult)
  else (gc.reset st).map fun reset => (reset.1, reset.2, executionResult)

/-- `charge_gas`: the summary charged, with the gas coin paying the net charge.
    A system transaction, with no gas coin, tracks storage and is charged
    nothing. -/
def chargeGas (objectSize : Object → Nat) (gc : GasCharger) (st : TemporaryStore)
    (executionResult : Except ExecutionError α) :
    Option (GasCharger × TemporaryStore × Except ExecutionError α × GasCostSummary) := do
  let bucketized ← if gc.smashedGasCoin.isSome then gc.bucketizeAndReset st executionResult
    else some (gc, st, executionResult)
  -- compute and collect storage charges
  let collected := bucketized.2.1.ensureActiveInputsMutated.collectStorageAndRebate objectSize
    bucketized.1
  match collected.2.smashedGasCoin with
  | some gasObjectId => do
    let handled ← if dontChargeBudgetOnStorageOog collected.2.gasModelVersion then
        collected.2.handleStorageAndRebateV2 objectSize collected.1 bucketized.2.2
      else collected.2.handleStorageAndRebateV1 collected.1 bucketized.2.2
    let costSummary ← handled.1.gasStatus.summary
    let gasUsed := costSummary.netGasUsage
    let gasObject ← handled.2.1.readObject gasObjectId
    let gasObject ← deductGas gasObject gasUsed
    pure (handled.1, handled.2.1.mutateInputObject gasObject, handled.2.2, costSummary)
  | none => pure (collected.2, collected.1, bucketized.2.2, default)

/-! ## Smashing the coins again -/

/-- What `check_gas_balance` established of the gas coins, read in the store:
    distinct input gas coins, mutable inputs, together holding the budget. -/
structure GasPayment (gasCoins : List ObjectRef) (budget : Nat) (st : TemporaryStore) : Prop where
  coins : ∀ ref ∈ gasCoins, ∃ v, gasCoinValue st ref = some v
  distinct : (gasCoins.map (·.id)).Nodup
  mutable : ∀ ref ∈ gasCoins, ref.id ∈ st.mutableInputRefs.map (·.1)
  balance : budget ≤ (gasCoins.filterMap (gasCoinValue st)).sum

theorem GasPayment.withResults {gasCoins : List ObjectRef} {budget : Nat} {st : TemporaryStore}
    (h : GasPayment gasCoins budget st) (r : ExecutionResultsV2) :
    GasPayment gasCoins budget (st.withResults r) :=
  ⟨h.coins, h.distinct, h.mutable, h.balance⟩

/-- A coin with a value is an input gas coin. -/
theorem gasCoinValue_eq_some {st : TemporaryStore} {ref : ObjectRef} {v : Nat}
    (h : gasCoinValue st ref = some v) :
    ∃ o, vget st.inputObjects ref.id = some o ∧ o.data = .move true v := by
  unfold gasCoinValue at h
  split at h
  · rename_i value hdata
    cases h
    obtain ⟨o, ho, hd⟩ := Option.map_eq_some_iff.mp hdata
    exact ⟨o, ho, hd⟩
  · cases h

/-- Every coin has a value, so reading them all succeeds. -/
theorem mapM_gasCoinValue (st : TemporaryStore) {coins : List ObjectRef}
    (h : ∀ ref ∈ coins, ∃ v, gasCoinValue st ref = some v) :
    coins.mapM (gasCoinValue st) = some (coins.filterMap (gasCoinValue st)) := by
  induction coins with
  | nil => rfl
  | cons ref rest ih =>
    obtain ⟨v, hv⟩ := h ref List.mem_cons_self
    rw [List.mapM_cons, hv, ih fun r hr => h r (List.mem_cons_of_mem _ hr), List.filterMap_cons, hv]
    rfl

/-- The coin `gasId` as the store reads it holds at least `budget`. -/
def Funded (st : TemporaryStore) (gasId budget : Nat) : Prop :=
  ∃ o isGasCoin v, st.readObject gasId = some o ∧ o.data = .move isGasCoin v ∧ budget ≤ v

/-- The results right after the coins are smashed into `gasId` from a store
    with no writes: nothing created, only the gas coin written, holding the
    budget and the rebate it was read with, and only gas coins modified or
    deleted. -/
structure SmashedResults (st : TemporaryStore) (gasCoins : List ObjectRef) (gasId budget : Nat)
    (r : ExecutionResultsV2) : Prop where
  created : r.createdObjectIds = []
  written : ∀ p ∈ r.writtenObjects, p.1 = gasId ∧ p.1 ∈ r.modifiedObjects ∧
    p.2.storageRebate = (st.modifiedAtMetadata p.1).storageRebate
  funded : Funded (st.withResults r) gasId budget
  gas_written : gasId ∈ r.modifiedObjects → gasId ∈ r.writtenObjects.map (·.1)
  modified : ∀ id ∈ r.modifiedObjects, id ∈ gasCoins.map (·.id)
  deleted : ∀ id ∈ r.deletedObjectIds, id ∈ r.modifiedObjects ∧ id ≠ gasId

section Reset

variable {gc : GasCharger} {st : TemporaryStore} {gasId : Nat}

/-- The results of smashing from a store with no writes: the coins after the
    first deleted, and the first written holding the sum of them all. -/
theorem smashedResults_of_foldl {primary : ObjectRef} {secondary : List ObjectRef} {budget : Nat}
    (hpay : GasPayment (primary :: secondary) budget st) {o : Object}
    (ho : vget st.inputObjects primary.id = some o) :
    ∃ rd, secondary.foldl (fun store ref => store.deleteInputObject ref.id) st.dropWrites = st.withResults rd ∧
      SmashedResults st (primary :: secondary) primary.id budget ((rd.insertModified primary.id).insertWritten
        { o with data := .move true ((primary :: secondary).filterMap (gasCoinValue st)).sum }) := by
  have hdistinct := hpay.distinct
  rw [List.map_cons, List.nodup_cons] at hdistinct
  have hoid : o.id = primary.id := st.input_id _ (mem_of_vget_eq_some ho)
  obtain ⟨rd, hfold, hmod, hdel, hwritten, hcreated⟩ :=
    TemporaryStore.foldl_deleteInputObject secondary st.dropWrites
  refine ⟨rd, hfold, ?_⟩
  have hrd_written : rd.writtenObjects = [] := by simpa [TemporaryStore.dropWrites] using hwritten
  have hmeta : (st.modifiedAtMetadata primary.id).storageRebate = o.storageRebate := by
    obtain ⟨ref, href⟩ := Option.isSome_iff_exists.mp
      ((vget_isSome_iff _ _).mpr (hpay.mutable primary List.mem_cons_self))
    exact st.modifiedAtMetadata_of_mutable href ho
  refine ⟨by simpa [TemporaryStore.dropWrites] using hcreated, ?_, ?_, ?_, ?_, ?_⟩
  · -- written: the first coin alone
    intro p hp
    simp only [ExecutionResultsV2.insertWritten_writtenObjects,
      ExecutionResultsV2.insertModified_writtenObjects, hrd_written, vset, List.filter_nil,
      List.mem_singleton] at hp
    subst hp
    refine ⟨hoid, by simp [hoid], ?_⟩
    rw [hoid, hmeta]
  · refine ⟨{ o with data := .move true ((primary :: secondary).filterMap (gasCoinValue st)).sum }, true, _, ?_,
      rfl, hpay.balance⟩
    simp [TemporaryStore.readObject, hrd_written, hoid]
  · intro _
    simp only [ExecutionResultsV2.insertWritten_writtenObjects,
      ExecutionResultsV2.insertModified_writtenObjects, hoid]
    exact (mem_map_vset _ _ _ _).mpr (.inl rfl)
  · -- modified: the first coin, or one the fold deleted
    intro id hid
    simp only [ExecutionResultsV2.insertWritten_modifiedObjects,
      ExecutionResultsV2.insertModified_modifiedObjects, List.mem_insert_iff] at hid
    rcases hid with rfl | hid
    · exact List.mem_map_of_mem List.mem_cons_self
    · rcases (hmod id).mp hid with h | h
      · simp [TemporaryStore.dropWrites] at h
      · exact List.mem_cons_of_mem _ h
  · -- deleted: a coin after the first, so not the first
    intro id hid
    simp only [ExecutionResultsV2.insertWritten_deletedObjectIds,
      ExecutionResultsV2.insertModified_deletedObjectIds] at hid
    rcases (hdel id).mp hid with h | h
    · simp [TemporaryStore.dropWrites] at h
    · refine ⟨by simp [(hmod id).mpr (.inr h)], ?_⟩
      rintro rfl
      exact hdistinct.1 h

/-- Smashing paid coins into a store whose writes are dropped: the first coin
    becomes the gas coin (a lone `ObjectID::ZERO` leaves the charger as it
    was), and the results are those of a smash. -/
theorem smashGas_dropWrites_spec (hpay : GasPayment gc.gasCoins gc.gasStatus.gasBudget st)
    (hhead : gc.gasCoins.head?.map (·.id) = some gasId) :
    ∃ c r, gc.smashGas st.dropWrites = some ({ gc with smashedGasCoin := c }, st.withResults r) ∧
      (c = gc.smashedGasCoin ∨ c = some gasId) ∧
      SmashedResults st gc.gasCoins gasId gc.gasStatus.gasBudget r := by
  obtain ⟨primary, secondary, hcoins⟩ : ∃ primary secondary, gc.gasCoins = primary :: secondary := by
    cases h : gc.gasCoins with
    | nil => rw [h] at hhead; cases hhead
    | cons primary secondary => exact ⟨primary, secondary, rfl⟩
  have hid : primary.id = gasId := by simpa [hcoins] using hhead
  rw [hcoins] at hpay
  obtain ⟨v, hv⟩ := hpay.coins primary List.mem_cons_self
  obtain ⟨o, ho, hdata⟩ := gasCoinValue_eq_some hv
  cases secondary with
  | nil =>
    -- one coin: nothing is written, and the coin is read as an input
    have hbal : gc.gasStatus.gasBudget ≤ v := by simpa [hv] using hpay.balance
    have hsm : SmashedResults st gc.gasCoins gasId gc.gasStatus.gasBudget .empty := by
      refine ⟨rfl, by simp, ?_, by simp, by simp, by simp⟩
      refine ⟨o, true, v, ?_, hdata, hbal⟩
      simp [TemporaryStore.readObject, hid ▸ ho]
    by_cases hzero : primary.id = 0
    · refine ⟨gc.smashedGasCoin, .empty, ?_, .inl rfl, hsm⟩
      show gc.smashGas st.dropWrites = some (gc, st.withResults .empty)
      simp [smashGas, hcoins, hzero, TemporaryStore.dropWrites]
    · refine ⟨some gasId, .empty, ?_, .inr rfl, hsm⟩
      rw [← hid]
      simp [smashGas, hcoins, hzero, TemporaryStore.dropWrites]
  | cons second rest =>
    -- several coins: the others are deleted, and the first holds them all
    obtain ⟨rd, hfold, hsm⟩ := smashedResults_of_foldl hpay ho
    have hoid : o.id = primary.id := st.input_id _ (mem_of_vget_eq_some ho)
    refine ⟨some gasId, _, ?_, .inr rfl, hcoins ▸ hid ▸ hsm⟩
    have hvalues : (primary :: second :: rest).mapM (gasCoinValue st.dropWrites) =
        some ((primary :: second :: rest).filterMap (gasCoinValue st)) := mapM_gasCoinValue st hpay.coins
    have ho' : vget st.dropWrites.inputObjects primary.id = some o := ho
    simp only [smashGas, hcoins, hvalues, ho', hfold, Option.bind_eq_bind, Option.bind_some,
      setCoinValue, hdata, Option.pure_def]
    simp [hid, hoid, TemporaryStore.mutateInputObject]

/-- `reset` succeeds on paid gas, keeps the charger but for the storage
    tracked, and leaves only the smashed coin written. -/
theorem reset_spec (hpay : GasPayment gc.gasCoins gc.gasStatus.gasBudget st)
    (hhead : gc.gasCoins.head?.map (·.id) = some gasId) (hsmashed : gc.smashedGasCoin = some gasId) :
    ∃ r, gc.reset st = some ({ gc with gasStatus := gc.gasStatus.resetStorageCostAndRebate },
      st.withResults r) ∧ SmashedResults st gc.gasCoins gasId gc.gasStatus.gasBudget r := by
  let gcR : GasCharger := { gc with gasStatus := gc.gasStatus.resetStorageCostAndRebate }
  have hpayR : GasPayment gcR.gasCoins gcR.gasStatus.gasBudget st := hpay
  have hheadR : gcR.gasCoins.head?.map (·.id) = some gasId := hhead
  obtain ⟨c, r, hsmash, hc, hsm⟩ := smashGas_dropWrites_spec hpayR hheadR
  -- the charger was smashed into the gas coin already, so smashing again keeps it
  have hcg : c = some gasId := by
    rcases hc with rfl | rfl
    · exact hsmashed
    · rfl
  refine ⟨r, ?_, hsm⟩
  rw [reset, hsmash, hcg, ← hsmashed]

end Reset

theorem GasPayment.of_inputs {gasCoins : List ObjectRef} {budget : Nat} {st st' : TemporaryStore}
    (h : GasPayment gasCoins budget st) (hin : st'.inputObjects = st.inputObjects)
    (hmut : st'.mutableInputRefs = st.mutableInputRefs) : GasPayment gasCoins budget st' := by
  have hval : gasCoinValue st' = gasCoinValue st := by
    funext ref
    simp [gasCoinValue, hin]
  exact ⟨hval ▸ h.coins, h.distinct, hmut ▸ h.mutable, hval ▸ h.balance⟩

theorem SmashedResults.withResults {st : TemporaryStore} {gasCoins : List ObjectRef}
    {gasId budget : Nat} {r : ExecutionResultsV2} (h : SmashedResults st gasCoins gasId budget r)
    (x : ExecutionResultsV2) : SmashedResults (st.withResults x) gasCoins gasId budget r :=
  ⟨h.created, h.written, h.funded, h.gas_written, h.modified, h.deleted⟩

/-! ## The paths of `charge_gas` -/

section Paths

variable {objectSize : Object → Nat} {gc : GasCharger} {st : TemporaryStore} {gasId : Nat}
  {executionResult : Except ExecutionError α}

/-- The execution result after bucketizing: an out-of-gas error replaces success. -/
def bucketizedResult (gc : GasCharger) (executionResult : Except ExecutionError α) :
    Except ExecutionError α :=
  match gc.gasStatus.bucketizeComputation.2 with
  | .error err => setError executionResult err
  | .ok () => executionResult

/-- A result still successful after bucketizing was successful before. -/
theorem isOk_of_bucketizedResult (h : (bucketizedResult gc executionResult).isOk = true) :
    executionResult.isOk = true := by
  unfold bucketizedResult at h
  split at h
  · unfold setError at h
    split at h
    · cases h
    · exact h
  · exact h

/-- Bucketizing either keeps the store, on success, or resets it to the smashed
    coins. -/
theorem bucketizeAndReset_spec (executionResult : Except ExecutionError α)
    (hpay : GasPayment gc.gasCoins gc.gasStatus.gasBudget st)
    (hhead : gc.gasCoins.head?.map (·.id) = some gasId) (hsmashed : gc.smashedGasCoin = some gasId) :
    ((bucketizedResult gc executionResult).isOk = true ∧
      gc.bucketizeAndReset st executionResult =
        some ({ gc with gasStatus := gc.gasStatus.bucketizeComputation.1 }, st,
          bucketizedResult gc executionResult)) ∨
    ((bucketizedResult gc executionResult).isOk = false ∧ ∃ r,
      gc.bucketizeAndReset st executionResult =
        some ({ gc with gasStatus := gc.gasStatus.bucketizeComputation.1.resetStorageCostAndRebate },
          st.withResults r, bucketizedResult gc executionResult) ∧
      SmashedResults st gc.gasCoins gasId gc.gasStatus.gasBudget r) := by
  cases hok : (bucketizedResult gc executionResult).isOk
  · -- an error: the writes are dropped and the coins smashed again
    have hpay' : GasPayment ({ gc with gasStatus := gc.gasStatus.bucketizeComputation.1 }).gasCoins
        ({ gc with gasStatus := gc.gasStatus.bucketizeComputation.1 }).gasStatus.gasBudget st := by
      simpa using hpay
    obtain ⟨r, hreset, hsm⟩ := reset_spec hpay' hhead hsmashed
    refine .inr ⟨rfl, r, ?_, by simpa using hsm⟩
    have hok' : (bucketizedResult gc executionResult).isOk = false := hok
    unfold bucketizeAndReset
    simp only [bucketizedResult] at hok' hreset ⊢
    simp [hok', hreset]
  · refine .inl ⟨rfl, ?_⟩
    have hok' : (bucketizedResult gc executionResult).isOk = true := hok
    unfold bucketizeAndReset
    simp only [bucketizedResult] at hok' ⊢
    simp [hok']

/-- Charging without storage resets to the smashed coins, mutates the inputs,
    and tracks only the rebates of what is no longer there. -/
theorem chargeWithoutStorage_spec (executionResult : Except ExecutionError α) (err : ExecutionError)
    (hpay : GasPayment gc.gasCoins gc.gasStatus.gasBudget st)
    (hhead : gc.gasCoins.head?.map (·.id) = some gasId) (hsmashed : gc.smashedGasCoin = some gasId) :
    ∃ r, gc.chargeWithoutStorage st executionResult err =
      some ((st.withResults r).ensureActiveInputsMutated.collectRebate
          { gc with gasStatus := gc.gasStatus.resetStorageCostAndRebate.adjustComputationOnOutOfGas },
        (st.withResults r).ensureActiveInputsMutated, setError executionResult err) ∧
      SmashedResults st gc.gasCoins gasId gc.gasStatus.gasBudget r := by
  obtain ⟨r, hreset, hsm⟩ := reset_spec hpay hhead hsmashed
  refine ⟨r, ?_, hsm⟩
  simp [chargeWithoutStorage, hreset]

/-- `handle_storage_and_rebate_v1`: storage is charged, or charged without. -/
theorem handleStorageAndRebateV1_spec (st : TemporaryStore) (executionResult : Except ExecutionError α)
    (hsome : gc.gasStatus.chargeStorageAndRebate.isSome) :
    (gc.gasStatus.chargeStorageAndRebate = some (.ok ()) ∧
      gc.handleStorageAndRebateV1 st executionResult = some (gc, st, executionResult)) ∨
    (∃ err, gc.gasStatus.chargeStorageAndRebate = some (.error err) ∧
      gc.handleStorageAndRebateV1 st executionResult = gc.chargeWithoutStorage st executionResult err) := by
  unfold handleStorageAndRebateV1
  match h : gc.gasStatus.chargeStorageAndRebate, hsome with
  | some (.ok u), _ => exact .inl ⟨rfl, rfl⟩
  | some (.error err), _ => exact .inr ⟨err, rfl, rfl⟩

/-- `handle_storage_and_rebate_v2`: storage is charged; or, after a reset, the
    storage of the inputs alone; or none. -/
theorem handleStorageAndRebateV2_spec (executionResult : Except ExecutionError α)
    (hpay : GasPayment gc.gasCoins gc.gasStatus.gasBudget st)
    (hhead : gc.gasCoins.head?.map (·.id) = some gasId) (hsmashed : gc.smashedGasCoin = some gasId)
    (hsome : gc.gasStatus.chargeStorageAndRebate.isSome)
    (hsome' : ∀ r, ((st.withResults r).ensureActiveInputsMutated.collectStorageAndRebate objectSize
        { gc with gasStatus := gc.gasStatus.resetStorageCostAndRebate }).2.gasStatus.chargeStorageAndRebate.isSome) :
    (gc.gasStatus.chargeStorageAndRebate = some (.ok ()) ∧
      gc.handleStorageAndRebateV2 objectSize st executionResult = some (gc, st, executionResult)) ∨
    (∃ err r, gc.gasStatus.chargeStorageAndRebate = some (.error err) ∧
      SmashedResults st gc.gasCoins gasId gc.gasStatus.gasBudget r ∧
      let collected := (st.withResults r).ensureActiveInputsMutated.collectStorageAndRebate objectSize
        { gc with gasStatus := gc.gasStatus.resetStorageCostAndRebate }
      ((collected.2.gasStatus.chargeStorageAndRebate = some (.ok ()) ∧
          gc.handleStorageAndRebateV2 objectSize st executionResult =
            some (collected.2, collected.1, setError executionResult err)) ∨
        ∃ err', collected.2.gasStatus.chargeStorageAndRebate = some (.error err') ∧
          gc.handleStorageAndRebateV2 objectSize st executionResult =
            collected.2.chargeWithoutStorage collected.1 executionResult err')) := by
  match h : gc.gasStatus.chargeStorageAndRebate, hsome with
  | some (.ok u), _ => exact .inl ⟨rfl, by simp [handleStorageAndRebateV2, h]⟩
  | some (.error err), _ =>
    obtain ⟨r, hreset, hsm⟩ := reset_spec hpay hhead hsmashed
    refine .inr ⟨err, r, rfl, hsm, ?_⟩
    match h' : ((st.withResults r).ensureActiveInputsMutated.collectStorageAndRebate objectSize
        { gc with gasStatus := gc.gasStatus.resetStorageCostAndRebate }).2.gasStatus.chargeStorageAndRebate,
      hsome' r with
    | some (.ok u), _ => exact .inl ⟨h', by simp [handleStorageAndRebateV2, h, hreset, h']⟩
    | some (.error err'), _ => exact .inr ⟨err', h', by simp [handleStorageAndRebateV2, h, hreset, h']⟩

end Paths

/-! ## The states storage is collected from -/

/-- A coin that reads the same holds the same. -/
theorem Funded.of_readObject {st st' : TemporaryStore} {gasId budget : Nat} (h : Funded st gasId budget)
    (hread : (st'.readObject gasId).map (·.data) = (st.readObject gasId).map (·.data)) :
    Funded st' gasId budget := by
  obtain ⟨o, isGasCoin, v, ho, hdata, hle⟩ := h
  rw [ho] at hread
  obtain ⟨o', ho', hd'⟩ := Option.map_eq_some_iff.mp hread
  exact ⟨o', isGasCoin, v, ho', hd'.trans hdata, hle⟩

/-- A funded coin pays any charge within the budget. -/
theorem Funded.deductGas {st : TemporaryStore} {gasId budget : Nat} (h : Funded st gasId budget)
    {charge : Int} (hle : charge ≤ budget) :
    ∃ o o', st.readObject gasId = some o ∧ Mango.Adapter.deductGas o charge = some o' := by
  obtain ⟨o, isGasCoin, v, ho, hdata, hbudget⟩ := h
  have hcover : charge ≤ (v : Int) := by omega
  obtain ⟨o', ho'⟩ := Option.isSome_iff_exists.mp (deductGas_isSome hdata hcover)
  exact ⟨o, o', ho, ho'⟩

/-- Only the smashed coin is written after smashing, and it is modified. -/
theorem SmashedResults.writtenModified {st : TemporaryStore} {gasCoins : List ObjectRef}
    {gasId budget : Nat} {r : ExecutionResultsV2} (h : SmashedResults st gasCoins gasId budget r) :
    (st.withResults r).WrittenModified gasId := by
  intro hw
  obtain ⟨p, hp, hpid⟩ := List.mem_map.mp hw
  exact hpid ▸ (h.written p hp).2.1

/-- A state `charge_gas` collects storage from, reached from the bucketized
    charger `gcB`: the charger differs from `gcB` in the storage it tracks
    only, and the store holds the paid gas coins, with the smashed coin funded
    and written only where modified. -/
structure Entry (gcB : GasCharger) (gasId : Nat) (gc : GasCharger) (st : TemporaryStore) : Prop where
  tracked : Tracked gcB gc
  head : gcB.gasCoins.head?.map (·.id) = some gasId
  smashed : gcB.smashedGasCoin = some gasId
  pay : GasPayment gcB.gasCoins gcB.gasStatus.gasBudget st
  funded : Funded st gasId gcB.gasStatus.gasBudget
  writtenModified : st.WrittenModified gasId

/-- A state with no storage tracked yet, where the gas coin, once modified, is
    written: what conservation needs of a state storage is collected from. -/
structure Fresh (gasId : Nat) (gc : GasCharger) (st : TemporaryStore) : Prop where
  storageRebate : gc.gasStatus.storageRebate = 0
  storageGasUnits : gc.gasStatus.storageGasUnits = 0
  gasWritten : gasId ∈ st.executionResults.modifiedObjects →
    gasId ∈ st.executionResults.writtenObjects.map (·.1)

section Entry

variable {objectSize : Object → Nat} {gcB gc : GasCharger} {st : TemporaryStore} {gasId : Nat}
  {executionResult : Except ExecutionError α}

theorem Entry.gasPayment (h : Entry gcB gasId gc st) : GasPayment gc.gasCoins gc.gasStatus.gasBudget st := by
  rw [h.tracked.gasCoins, h.tracked.gasBudget]
  exact h.pay

theorem Entry.gasCoins_head (h : Entry gcB gasId gc st) : gc.gasCoins.head?.map (·.id) = some gasId := by
  rw [h.tracked.gasCoins]
  exact h.head

theorem Entry.smashedGasCoin (h : Entry gcB gasId gc st) : gc.smashedGasCoin = some gasId :=
  h.tracked.smashedGasCoin.trans h.smashed

/-- The store right after smashing, with no storage tracked, is a fresh entry. -/
theorem Entry.of_smashedResults (ht : Tracked gcB gc) (hhead : gcB.gasCoins.head?.map (·.id) = some gasId)
    (hsmashed : gcB.smashedGasCoin = some gasId) (hpay : GasPayment gcB.gasCoins gcB.gasStatus.gasBudget st)
    (hstorage : gc.gasStatus.perObjectStorage = []) {r : ExecutionResultsV2}
    (hsm : SmashedResults st gcB.gasCoins gasId gcB.gasStatus.gasBudget r) :
    Entry gcB gasId gc (st.withResults r) ∧ Fresh gasId gc (st.withResults r) :=
  ⟨⟨ht, hhead, hsmashed, hpay.withResults r, hsm.funded, hsm.writtenModified⟩,
    ⟨MgoGasStatus.storageRebate_nil _ hstorage, MgoGasStatus.storageGasUnits_nil _ hstorage,
      hsm.gas_written⟩⟩

/-- Mutating the inputs and collecting storage keeps an entry. -/
theorem Entry.collect (h : Entry gcB gasId gc st) :
    Entry gcB gasId (st.ensureActiveInputsMutated.collectStorageAndRebate objectSize gc).2
      (st.ensureActiveInputsMutated.collectStorageAndRebate objectSize gc).1 := by
  obtain ⟨r, hens, -⟩ := TemporaryStore.ensureActiveInputsMutated_spec st
  refine ⟨h.tracked.trans (st.ensureActiveInputsMutated.collectStorageAndRebate_tracked objectSize gc),
    h.head, h.smashed, h.pay.of_inputs (by simp [hens]) (by simp [hens]), ?_, ?_⟩
  · apply h.funded.of_readObject
    rw [TemporaryStore.readObject_collectStorageAndRebate,
      TemporaryStore.readObject_ensureActiveInputsMutated h.writtenModified]
  · exact st.ensureActiveInputsMutated.writtenModified_collectStorageAndRebate objectSize gc
      (TemporaryStore.writtenModified_ensureActiveInputsMutated h.writtenModified)

/-- Resetting an entry smashes the coins again into a fresh entry. -/
theorem Entry.reset (h : Entry gcB gasId gc st) :
    ∃ r, gc.reset st = some ({ gc with gasStatus := gc.gasStatus.resetStorageCostAndRebate },
        st.withResults r) ∧
      SmashedResults st gcB.gasCoins gasId gcB.gasStatus.gasBudget r ∧
      Entry gcB gasId { gc with gasStatus := gc.gasStatus.resetStorageCostAndRebate } (st.withResults r) ∧
      Fresh gasId { gc with gasStatus := gc.gasStatus.resetStorageCostAndRebate } (st.withResults r) := by
  obtain ⟨r, hreset, hsm⟩ := reset_spec h.gasPayment h.gasCoins_head h.smashedGasCoin
  rw [h.tracked.gasCoins, h.tracked.gasBudget] at hsm
  exact ⟨r, hreset, hsm, Entry.of_smashedResults (h.tracked.trans (tracked_resetStorageCostAndRebate gc))
    h.head h.smashed h.pay rfl hsm⟩

/-- Charging an entry without storage resets it to the smashed coins. -/
theorem Entry.chargeWithoutStorage (h : Entry gcB gasId gc st) (executionResult : Except ExecutionError α)
    (err : ExecutionError) :
    ∃ r, gc.chargeWithoutStorage st executionResult err =
      some ((st.withResults r).ensureActiveInputsMutated.collectRebate
          { gc with gasStatus := gc.gasStatus.resetStorageCostAndRebate.adjustComputationOnOutOfGas },
        (st.withResults r).ensureActiveInputsMutated, setError executionResult err) ∧
      SmashedResults st gcB.gasCoins gasId gcB.gasStatus.gasBudget r := by
  obtain ⟨r, hcharge, hsm⟩ := chargeWithoutStorage_spec executionResult err
    h.gasPayment h.gasCoins_head h.smashedGasCoin
  rw [h.tracked.gasCoins, h.tracked.gasBudget] at hsm
  exact ⟨r, hcharge, hsm⟩

/-- A charger that only tracks storage beyond one within the budget charges
    storage without a panic. -/
theorem Tracked.chargeStorageAndRebate_isSome (ht : Tracked gcB gc)
    (hrate : gcB.gasStatus.rebateRate ≤ basisPoints)
    (hcomp : gcB.gasStatus.computationCost ≤ gcB.gasStatus.gasBudget) :
    gc.gasStatus.chargeStorageAndRebate.isSome := by
  apply gc.gasStatus.chargeStorageAndRebate_isSome
  · rw [ht.rebateRate]
    exact hrate
  · rw [ht.computationCost, ht.gasBudget]
    exact hcomp

/-- The charged states `handle_storage_and_rebate` leaves from an entry:
    storage charged from the entry itself; storage charged again after a reset
    to the smashed coins; or the inputs alone charged after a reset. -/
theorem Entry.handle_cases (h : Entry gcB gasId gc st) (objectSize : Object → Nat)
    (executionResult : Except ExecutionError α) (hrate : gcB.gasStatus.rebateRate ≤ basisPoints)
    (hcomp : gcB.gasStatus.computationCost ≤ gcB.gasStatus.gasBudget) :
    let collected := st.ensureActiveInputsMutated.collectStorageAndRebate objectSize gc
    let handled := if dontChargeBudgetOnStorageOog collected.2.gasModelVersion then
        collected.2.handleStorageAndRebateV2 objectSize collected.1 executionResult
      else collected.2.handleStorageAndRebateV1 collected.1 executionResult
    (collected.2.gasStatus.chargeStorageAndRebate = some (.ok ()) ∧
      handled = some (collected.2, collected.1, executionResult)) ∨
    (∃ gcY Y r, Entry gcB gasId gcY (Y.withResults r) ∧ Fresh gasId gcY (Y.withResults r) ∧
      SmashedResults Y gcB.gasCoins gasId gcB.gasStatus.gasBudget r ∧ (∃ rY, Y = st.withResults rY) ∧
      ((Y.withResults r).ensureActiveInputsMutated.collectStorageAndRebate objectSize
        gcY).2.gasStatus.chargeStorageAndRebate = some (.ok ()) ∧
      ∃ res, handled = some
        (((Y.withResults r).ensureActiveInputsMutated.collectStorageAndRebate objectSize gcY).2,
          ((Y.withResults r).ensureActiveInputsMutated.collectStorageAndRebate objectSize gcY).1, res)) ∨
    (∃ gcZ Z r, Entry gcB gasId gcZ Z ∧ SmashedResults Z gcB.gasCoins gasId gcB.gasStatus.gasBudget r ∧
      (∃ rZ, Z = st.withResults rZ) ∧ ∃ res, handled = some ((Z.withResults r).ensureActiveInputsMutated.collectRebate
          { gcZ with gasStatus := gcZ.gasStatus.resetStorageCostAndRebate.adjustComputationOnOutOfGas },
        (Z.withResults r).ensureActiveInputsMutated, res)) := by
  intro collected handled
  have hc : Entry gcB gasId collected.2 collected.1 := h.collect
  obtain ⟨r₁, hr₁⟩ : ∃ r₁, collected.1 = st.withResults r₁ :=
    st.ensureActiveInputsMutated_collect_eq objectSize gc
  have hsome := hc.tracked.chargeStorageAndRebate_isSome hrate hcomp
  by_cases hv2 : dontChargeBudgetOnStorageOog collected.2.gasModelVersion
  · -- from gas model version 4: a storage out-of-gas charges the inputs alone first
    have hhandled : handled = collected.2.handleStorageAndRebateV2 objectSize collected.1 executionResult :=
      if_pos hv2
    have hsome' : ∀ r, ((collected.1.withResults r).ensureActiveInputsMutated.collectStorageAndRebate
        objectSize { collected.2 with gasStatus := collected.2.gasStatus.resetStorageCostAndRebate }).2.gasStatus.chargeStorageAndRebate.isSome :=
      fun r => ((hc.tracked.trans (tracked_resetStorageCostAndRebate _)).trans
        (TemporaryStore.collectStorageAndRebate_tracked _ _ _)).chargeStorageAndRebate_isSome hrate hcomp
    rcases handleStorageAndRebateV2_spec executionResult hc.gasPayment
        hc.gasCoins_head hc.smashedGasCoin hsome hsome' with ⟨hok, hh⟩ | ⟨err, r, -, hsm, hretry⟩
    · exact .inl ⟨hok, hhandled.trans hh⟩
    · rw [hc.tracked.gasCoins, hc.tracked.gasBudget] at hsm
      obtain ⟨hY, hfresh⟩ := Entry.of_smashedResults
        (hc.tracked.trans (tracked_resetStorageCostAndRebate _)) h.head h.smashed hc.pay rfl hsm
      rcases hretry with ⟨hok, hh⟩ | ⟨err', -, hh⟩
      · exact .inr (.inl ⟨_, _, r, hY, hfresh, hsm, ⟨r₁, hr₁⟩, hok, _, hhandled.trans hh⟩)
      · -- the inputs alone do not fit either
        obtain ⟨r', hw, hsm'⟩ := hY.collect.chargeWithoutStorage executionResult err'
        obtain ⟨r₂, hr₂⟩ := (collected.1.withResults r).ensureActiveInputsMutated_collect_eq objectSize
          { collected.2 with gasStatus := collected.2.gasStatus.resetStorageCostAndRebate }
        exact .inr (.inr ⟨_, _, r', hY.collect, hsm', ⟨r₂, by rw [hr₂, hr₁]; rfl⟩, _,
          (hhandled.trans hh).trans hw⟩)
  · have hhandled : handled = collected.2.handleStorageAndRebateV1 collected.1 executionResult :=
      if_neg hv2
    rcases handleStorageAndRebateV1_spec collected.1 executionResult hsome with
      ⟨hok, hh⟩ | ⟨err, -, hh⟩
    · exact .inl ⟨hok, hhandled.trans hh⟩
    · obtain ⟨r, hw, hsm⟩ := hc.chargeWithoutStorage executionResult err
      exact .inr (.inr ⟨_, _, r, hc, hsm, ⟨r₁, hr₁⟩, _, (hhandled.trans hh).trans hw⟩)

/-- The entry `charge_gas` collects storage from: the store as executed, when
    bucketizing left it successful, else the store reset to the smashed coins. -/
theorem bucketize_cases (hpay : GasPayment gc.gasCoins gc.gasStatus.gasBudget st)
    (hhead : gc.gasCoins.head?.map (·.id) = some gasId) (hsmashed : gc.smashedGasCoin = some gasId)
    (hwritten : st.WrittenModified gasId)
    (hreserve : executionResult.isOk = true → Funded st gasId gc.gasStatus.gasBudget) :
    ∃ gcX X res, gc.bucketizeAndReset st executionResult = some (gcX, X, res) ∧
      Entry { gc with gasStatus := gc.gasStatus.bucketizeComputation.1 } gasId gcX X ∧
      ((gcX = { gc with gasStatus := gc.gasStatus.bucketizeComputation.1 } ∧ X = st ∧
          executionResult.isOk = true) ∨
        ∃ r, gcX = { gc with gasStatus := gc.gasStatus.bucketizeComputation.1.resetStorageCostAndRebate } ∧
          X = st.withResults r ∧ Fresh gasId gcX X ∧
          SmashedResults st gc.gasCoins gasId gc.gasStatus.bucketizeComputation.1.gasBudget r) := by
  have hbudget : gc.gasStatus.bucketizeComputation.1.gasBudget = gc.gasStatus.gasBudget :=
    MgoGasStatus.bucketizeComputation_gasBudget _
  have hpayB : GasPayment gc.gasCoins gc.gasStatus.bucketizeComputation.1.gasBudget st := by
    rw [hbudget]
    exact hpay
  rcases bucketizeAndReset_spec executionResult hpay hhead hsmashed with ⟨hok, hb⟩ | ⟨-, r, hb, hsm⟩
  · -- still successful: the executed store, whose gas coin the execution left funded
    have hexec := isOk_of_bucketizedResult hok
    have hfunded := hreserve hexec
    rw [← hbudget] at hfunded
    exact ⟨_, _, _, hb, ⟨.refl _, hhead, hsmashed, hpayB, hfunded, hwritten⟩, .inl ⟨rfl, rfl, hexec⟩⟩
  · rw [← hbudget] at hsm
    obtain ⟨hX, hfresh⟩ := Entry.of_smashedResults
      (tracked_resetStorageCostAndRebate { gc with gasStatus := gc.gasStatus.bucketizeComputation.1 })
      hhead hsmashed hpayB rfl hsm
    exact ⟨_, _, _, hb, hX, .inr ⟨r, rfl, rfl, hfresh, hsm⟩⟩

end Entry

/-! ## Charging within the budget -/

/-- A charged state whose summary is made and keeps within the budget, and
    whose gas coin holds the budget. -/
structure Settled (budget gasId : Nat) (gc : GasCharger) (st : TemporaryStore) : Prop where
  summary : ∃ sm, gc.gasStatus.summary = some sm ∧ sm.computationCost ≤ budget ∧ sm.netGasUsage ≤ budget
  funded : Funded st gasId budget

section Budget

variable {objectSize : Object → Nat} {gcB gc : GasCharger} {st : TemporaryStore} {gasId : Nat}
  {executionResult : Except ExecutionError α}

/-- Storage charged from an entry settles within the budget. -/
theorem Entry.settled_of_storageCharged (h : Entry gcB gasId gc st)
    (hrate : gcB.gasStatus.rebateRate ≤ basisPoints)
    (hcomp : gcB.gasStatus.computationCost ≤ gcB.gasStatus.gasBudget)
    (hok : (st.ensureActiveInputsMutated.collectStorageAndRebate objectSize gc).2.gasStatus.chargeStorageAndRebate =
      some (.ok ())) :
    Settled gcB.gasStatus.gasBudget gasId (st.ensureActiveInputsMutated.collectStorageAndRebate objectSize gc).2
      (st.ensureActiveInputsMutated.collectStorageAndRebate objectSize gc).1 := by
  have hc : Entry gcB gasId (st.ensureActiveInputsMutated.collectStorageAndRebate objectSize gc).2
      (st.ensureActiveInputsMutated.collectStorageAndRebate objectSize gc).1 := h.collect
  have hrate' := hc.tracked.rebateRate ▸ hrate
  have hcomp' : (st.ensureActiveInputsMutated.collectStorageAndRebate objectSize gc).2.gasStatus.computationCost ≤
      (st.ensureActiveInputsMutated.collectStorageAndRebate objectSize gc).2.gasStatus.gasBudget := by
    rw [hc.tracked.computationCost, hc.tracked.gasBudget]
    exact hcomp
  have hnet := MgoGasStatus.netGasUsage_le_of_chargeStorageAndRebate _ hcomp' hok
    (MgoGasStatus.summary_eq _ hrate')
  rw [hc.tracked.gasBudget] at hcomp' hnet
  exact ⟨⟨_, MgoGasStatus.summary_eq _ hrate', hcomp', hnet⟩, hc.funded⟩

/-- Charging without storage from a reset settles within the budget: the
    whole budget is computation, and only rebates are tracked. -/
theorem Entry.settled_of_withoutStorage (h : Entry gcB gasId gc st) {r : ExecutionResultsV2}
    (hsm : SmashedResults st gcB.gasCoins gasId gcB.gasStatus.gasBudget r)
    (hrate : gcB.gasStatus.rebateRate ≤ basisPoints) :
    Settled gcB.gasStatus.gasBudget gasId
      ((st.withResults r).ensureActiveInputsMutated.collectRebate
        { gc with gasStatus := gc.gasStatus.resetStorageCostAndRebate.adjustComputationOnOutOfGas })
      (st.withResults r).ensureActiveInputsMutated := by
  obtain ⟨ht, hunits⟩ := (st.withResults r).ensureActiveInputsMutated.collectRebate_tracked
    { gc with gasStatus := gc.gasStatus.resetStorageCostAndRebate.adjustComputationOnOutOfGas }
  have hbudget := ht.gasBudget.trans h.tracked.gasBudget
  have hrate' := (ht.rebateRate.trans h.tracked.rebateRate) ▸ hrate
  have hsum := MgoGasStatus.summary_eq _ hrate'
  -- all the budget is computation, and no storage is charged
  have hcomp := ht.computationCost.trans (h.tracked.gasBudget)
  have hzero : ((st.withResults r).ensureActiveInputsMutated.collectRebate
      { gc with gasStatus := gc.gasStatus.resetStorageCostAndRebate.adjustComputationOnOutOfGas }).gasStatus.storageGasUnits = 0 :=
    hunits.trans (MgoGasStatus.storageGasUnits_nil _ rfl)
  have hnet := MgoGasStatus.netGasUsage_le_of_storageGasUnits_eq_zero _ (by omega) hzero hsum
  rw [hbudget] at hnet
  refine ⟨⟨_, hsum, by simp only [hcomp, Nat.le_refl], hnet⟩, hsm.funded.of_readObject ?_⟩
  rw [TemporaryStore.readObject_ensureActiveInputsMutated hsm.writtenModified]

/-- How `charge_gas` ends once storage is handled: the summary is made and the
    net charge taken from the gas coin. -/
theorem chargeGas_of_handled {gcX : GasCharger} {X : TemporaryStore} {res : Except ExecutionError α}
    {gc' : GasCharger} {st' : TemporaryStore} {res' : Except ExecutionError α} {sm : GasCostSummary}
    {o o' : Object} (hsmashed : gc.smashedGasCoin = some gasId)
    (hb : gc.bucketizeAndReset st executionResult = some (gcX, X, res))
    (hX : (X.ensureActiveInputsMutated.collectStorageAndRebate objectSize gcX).2.smashedGasCoin = some gasId)
    (hh : (if dontChargeBudgetOnStorageOog
          (X.ensureActiveInputsMutated.collectStorageAndRebate objectSize gcX).2.gasModelVersion then
        (X.ensureActiveInputsMutated.collectStorageAndRebate objectSize gcX).2.handleStorageAndRebateV2 objectSize
          (X.ensureActiveInputsMutated.collectStorageAndRebate objectSize gcX).1 res
      else (X.ensureActiveInputsMutated.collectStorageAndRebate objectSize gcX).2.handleStorageAndRebateV1
          (X.ensureActiveInputsMutated.collectStorageAndRebate objectSize gcX).1 res) = some (gc', st', res'))
    (hsm : gc'.gasStatus.summary = some sm) (ho : st'.readObject gasId = some o)
    (hd : deductGas o sm.netGasUsage = some o') :
    chargeGas objectSize gc st executionResult = some (gc', st'.mutateInputObject o', res', sm) := by
  simp only [chargeGas, hsmashed, Option.isSome_some, if_true, hb, Option.bind_eq_bind, Option.bind_some, hX]
  -- the do block runs its tail in both branches of the gas model test
  split
  next hv =>
    rw [if_pos hv] at hh
    simp [hh, hsm, ho, hd]
  next hv =>
    rw [if_neg hv] at hh
    simp [hh, hsm, ho, hd]

/-- Every path of `charge_gas` from paid gas ends in one of the charged
    states (storage charged from the store as executed or after a reset, or
    the inputs alone charged after a reset), settled within the budget, and
    takes the charge from the gas coin: a property of each charged state holds
    of the state `charge_gas` ends in, before the gas coin is paid from. -/
theorem chargeGas_charged (objectSize : Object → Nat) (executionResult : Except ExecutionError α)
    (P : GasCharger → TemporaryStore → Prop)
    (hrate : gc.gasStatus.rebateRate ≤ basisPoints)
    (hpay : GasPayment gc.gasCoins gc.gasStatus.gasBudget st)
    (hhead : gc.gasCoins.head?.map (·.id) = some gasId) (hsmashed : gc.smashedGasCoin = some gasId)
    (hwritten : st.WrittenModified gasId)
    (hreserve : executionResult.isOk = true → Funded st gasId gc.gasStatus.gasBudget)
    (hS₀ : Entry { gc with gasStatus := gc.gasStatus.bucketizeComputation.1 } gasId
        { gc with gasStatus := gc.gasStatus.bucketizeComputation.1 } st →
      executionResult.isOk = true →
      (st.ensureActiveInputsMutated.collectStorageAndRebate objectSize
        { gc with gasStatus := gc.gasStatus.bucketizeComputation.1 }).2.gasStatus.chargeStorageAndRebate =
        some (.ok ()) →
      P (st.ensureActiveInputsMutated.collectStorageAndRebate objectSize
          { gc with gasStatus := gc.gasStatus.bucketizeComputation.1 }).2
        (st.ensureActiveInputsMutated.collectStorageAndRebate objectSize
          { gc with gasStatus := gc.gasStatus.bucketizeComputation.1 }).1)
    (hS : ∀ gcY Y r, Entry { gc with gasStatus := gc.gasStatus.bucketizeComputation.1 } gasId gcY
        (Y.withResults r) → Fresh gasId gcY (Y.withResults r) →
      SmashedResults Y gc.gasCoins gasId gc.gasStatus.bucketizeComputation.1.gasBudget r →
      (∃ rY, Y = st.withResults rY) →
      ((Y.withResults r).ensureActiveInputsMutated.collectStorageAndRebate objectSize
        gcY).2.gasStatus.chargeStorageAndRebate = some (.ok ()) →
      P ((Y.withResults r).ensureActiveInputsMutated.collectStorageAndRebate objectSize gcY).2
        ((Y.withResults r).ensureActiveInputsMutated.collectStorageAndRebate objectSize gcY).1)
    (hW : ∀ gcZ Z r, Entry { gc with gasStatus := gc.gasStatus.bucketizeComputation.1 } gasId gcZ Z →
      SmashedResults Z gc.gasCoins gasId gc.gasStatus.bucketizeComputation.1.gasBudget r →
      (∃ rZ, Z = st.withResults rZ) → P ((Z.withResults r).ensureActiveInputsMutated.collectRebate
          { gcZ with gasStatus := gcZ.gasStatus.resetStorageCostAndRebate.adjustComputationOnOutOfGas })
        (Z.withResults r).ensureActiveInputsMutated) :
    ∃ gc' st' res' sm o o',
      chargeGas objectSize gc st executionResult = some (gc', st'.mutateInputObject o', res', sm) ∧
      P gc' st' ∧ gc'.gasStatus.summary = some sm ∧
      sm.computationCost ≤ gc.gasStatus.gasBudget ∧ sm.netGasUsage ≤ gc.gasStatus.gasBudget ∧
      st'.readObject gasId = some o ∧ deductGas o sm.netGasUsage = some o' := by
  have hbudget : gc.gasStatus.bucketizeComputation.1.gasBudget = gc.gasStatus.gasBudget :=
    MgoGasStatus.bucketizeComputation_gasBudget _
  have hrateB : gc.gasStatus.bucketizeComputation.1.rebateRate ≤ basisPoints := by
    rw [MgoGasStatus.bucketizeComputation_rebateRate]
    exact hrate
  have hcompB := gc.gasStatus.bucketizeComputation_computationCost_le
  obtain ⟨gcX, X, res, hb, hX, hXentry⟩ := bucketize_cases hpay hhead hsmashed hwritten hreserve
  -- every store on the way is the executed store with other results
  have hrX : ∃ rX, X = st.withResults rX := by
    rcases hXentry with ⟨-, rfl, -⟩ | ⟨r, -, rfl, -, -⟩
    · exact ⟨_, rfl⟩
    · exact ⟨r, rfl⟩
  obtain ⟨rX, hrX⟩ := hrX
  -- whichever path storage takes, the charged state settles within the budget
  obtain ⟨gc', st', res', hh, ⟨⟨sm, hsm, hcomp, hnet⟩, hfunded⟩, hP⟩ :
      ∃ gc' st' res', (if dontChargeBudgetOnStorageOog
            (X.ensureActiveInputsMutated.collectStorageAndRebate objectSize gcX).2.gasModelVersion then
          (X.ensureActiveInputsMutated.collectStorageAndRebate objectSize gcX).2.handleStorageAndRebateV2
            objectSize (X.ensureActiveInputsMutated.collectStorageAndRebate objectSize gcX).1 res
        else (X.ensureActiveInputsMutated.collectStorageAndRebate objectSize gcX).2.handleStorageAndRebateV1
            (X.ensureActiveInputsMutated.collectStorageAndRebate objectSize gcX).1 res) = some (gc', st', res') ∧
        Settled gc.gasStatus.bucketizeComputation.1.gasBudget gasId gc' st' ∧ P gc' st' := by
    rcases hX.handle_cases objectSize res hrateB hcompB with
      ⟨hok, hh⟩ | ⟨gcY, Y, r, hY, hfresh, hsm, ⟨rY, hrY⟩, hok, res', hh⟩ |
        ⟨gcZ, Z, r, hZ, hsm, ⟨rZ, hrZ⟩, res', hh⟩
    · -- storage charged from the entry: the store as executed, or the store reset
      refine ⟨_, _, _, hh, hX.settled_of_storageCharged hrateB hcompB hok, ?_⟩
      rcases hXentry with ⟨rfl, rfl, hexec⟩ | ⟨r, rfl, rfl, hfresh, hsm⟩
      · exact hS₀ hX hexec hok
      · exact hS _ st r hX hfresh hsm ⟨_, rfl⟩ hok
    · -- storage charged again after a reset
      exact ⟨_, _, _, hh, hY.settled_of_storageCharged hrateB hcompB hok,
        hS gcY Y r hY hfresh hsm ⟨rY, by rw [hrY, hrX]; rfl⟩ hok⟩
    · exact ⟨_, _, _, hh, hZ.settled_of_withoutStorage hsm hrateB,
        hW gcZ Z r hZ hsm ⟨rZ, by rw [hrZ, hrX]; rfl⟩⟩
  rw [hbudget] at hcomp hnet hfunded
  obtain ⟨o, o', ho, hd⟩ := hfunded.deductGas hnet
  exact ⟨_, _, _, _, _, _, chargeGas_of_handled hsmashed hb hX.collect.smashedGasCoin hh hsm ho hd, hP, hsm,
    hcomp, hnet, ho, hd⟩

/-- `charge_gas` never overdraws the gas coin. For gas coins that passed the
    balance check, any execution result (a successful one leaves the reserved
    budget in the coin) and any gas the meter reports, every path of
    `charge_gas` makes a summary whose computation and net charge are within the
    budget, and takes the charge from the coin: the assertions of `summary`,
    `charge_storage_and_rebate` and `deduct_gas` hold, and
    `gas_budget - computation_cost` does not go below zero. -/
theorem charge_gas_within_budget (objectSize : Object → Nat) (gc : GasCharger) (st : TemporaryStore)
    (executionResult : Except ExecutionError α) (hrate : gc.gasStatus.rebateRate ≤ basisPoints)
    (hpay : GasPayment gc.gasCoins gc.gasStatus.gasBudget st)
    (hhead : gc.gasCoins.head?.map (·.id) = some gasId) (hsmashed : gc.smashedGasCoin = some gasId)
    (hwritten : st.WrittenModified gasId)
    (hreserve : executionResult.isOk = true → Funded st gasId gc.gasStatus.gasBudget) :
    ∃ gc' st' result summary,
      chargeGas objectSize gc st executionResult = some (gc', st', result, summary) ∧
      summary.computationCost ≤ gc.gasStatus.gasBudget ∧ summary.netGasUsage ≤ gc.gasStatus.gasBudget := by
  obtain ⟨_, _, _, _, _, _, hcharge, -, -, hcomp, hnet, -, -⟩ :=
    chargeGas_charged objectSize executionResult (fun _ _ => True)
      hrate hpay hhead hsmashed hwritten hreserve (fun _ _ _ => trivial) (fun _ _ _ _ _ _ _ _ => trivial)
      fun _ _ _ _ _ _ => trivial
  exact ⟨_, _, _, _, hcharge, hcomp, hnet⟩

/-- Sender `1` pays with its coin `10` of 5000000, already smashed, for a
    budget of 2000000 at gas price 1000, the meter having used 800. -/
def paidCharger : GasCharger :=
  ⟨9, 5, [⟨10, 3, 30⟩], some 10,
    MgoGasStatus.new 800 (computationBucket 5000000) 76 2000000 true 1000 76 9900 none⟩

/-- The store of `paidCharger`'s transaction, before anything is written. -/
def paidStore : TemporaryStore where
  txDigest := 9
  inputObjects := [(10, ⟨10, 3, .move true 5000000, .addressOwner 1, 30, 0, 400⟩)]
  lamportTimestamp := 4
  mutableInputRefs := [(10, ((3, 30), .addressOwner 1))]
  executionResults := .empty
  loadedRuntimeObjects := []
  receivingObjects := []
  systemPackage := fun _ => ⟨0, 1, .package, .immutable, 0, 0, 0⟩
  inputs_nodup := by decide
  mutable_nodup := by decide
  mutable_input := by decide
  input_id := by decide

/-- The coin of `paidCharger` passes the balance check in `paidStore`. -/
theorem paidStore_gasPayment : GasPayment paidCharger.gasCoins paidCharger.gasStatus.gasBudget paidStore := by
  refine ⟨?_, by decide, by decide, by decide⟩
  intro ref href
  rw [show paidCharger.gasCoins = [⟨10, 3, 30⟩] from rfl, List.mem_singleton] at href
  subst href
  exact ⟨5000000, rfl⟩

/-- Nothing is written in `paidStore`. -/
theorem paidStore_writtenModified : paidStore.WrittenModified 10 := by
  intro h
  simp [paidStore] at h

/-- A successful transaction paid by `paidCharger` is charged within its budget. -/
theorem charge_gas_within_budget_paid :
    ∃ gc' st' result summary,
      chargeGas (fun _ => 100) paidCharger paidStore (.ok () : Except ExecutionError Unit) =
        some (gc', st', result, summary) ∧
      summary.computationCost ≤ paidCharger.gasStatus.gasBudget ∧
      summary.netGasUsage ≤ paidCharger.gasStatus.gasBudget :=
  charge_gas_within_budget (fun _ => 100) paidCharger paidStore (.ok ()) (by decide) paidStore_gasPayment
    rfl rfl paidStore_writtenModified fun _ => ⟨_, true, 5000000, rfl, rfl, by decide⟩

end Budget

end GasCharger

end Mango.Adapter
