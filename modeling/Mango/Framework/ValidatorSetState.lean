/-
  Mango.Framework.ValidatorSetState

  `mgo-system/sources/validator_set.move` as a state: the `ValidatorSet`
  record, the requests the transactions of an epoch make of it
  (`request_add_validator_candidate`, `request_remove_validator_candidate`,
  `request_add_validator`, `request_remove_validator`, `request_add_stake`,
  `request_set_commission_rate`), and the steps of `advance_epoch` that move
  validators in and out: `process_pending_validators`, `sort_removal_list`,
  `process_pending_removals`, `process_validator_departure` and
  `clean_report_records_leaving_validator`.

  Tables are association lists (`vget`, `vset`, `verase`), a `table_vec` a
  list and a `VecSet` a list without repeats; names, network addresses and
  keys of the metadata are identifiers. The asserts and the aborts of
  `table`, `vec_map` and `vector` are modelled, those of `validator` and
  `staking_pool` (whose model returns `none`) as one abort. A loop that pops a
  vector until it is empty, with a body that does not read that vector, is a
  fold over the vector from its back; the events are left out.

  Each request and each step has its inversion lemma (`*_eq_ok`), which says
  what a call that returns did; `sortRemovalList_spec`: the insertion sort
  returns its input sorted.
-/
import Mango.Framework.RewardDistribution
import Mango.Lib.BinaryHeap
import Mathlib

namespace Mango.Framework

open Mango.Lib

/-! ## Validators as the set holds them -/

/-- The fields of `ValidatorMetadata` that `is_duplicate` compares, apart from
    `mgo_address`. -/
structure ValidatorMetadata where
  name : Nat
  netAddress : Nat
  p2pAddress : Nat
  protocolPubkeyBytes : Nat
  networkPubkeyBytes : Nat
  workerPubkeyBytes : Nat
  nextEpochNetAddress : Option Nat
  nextEpochP2pAddress : Option Nat
  nextEpochProtocolPubkeyBytes : Option Nat
  nextEpochNetworkPubkeyBytes : Option Nat
  nextEpochWorkerPubkeyBytes : Option Nat
  deriving DecidableEq, Repr

/-- `is_equal_some_and_value`. -/
def isEqualSomeAndValue (a : Option Nat) (b : Nat) : Bool :=
  match a with
  | none => false
  | some a => a == b

/-- `is_equal_some`. -/
def isEqualSome (a b : Option Nat) : Bool :=
  match a, b with
  | some a, some b => a == b
  | _, _ => false

/-- A `Validator` as the validator set holds it: what the epoch change reads
    (`ActiveValidator`), its metadata, the id of its staking pool, and the gas
    price and commission rate it asked for the next epoch. -/
structure SetValidator extends ActiveValidator where
  metadata : ValidatorMetadata
  stakingPoolId : Nat
  nextEpochGasPrice : Nat
  nextEpochCommissionRate : Nat
  deriving DecidableEq, Repr

namespace SetValidator

/-- `validator::is_preactive`. -/
def isPreactive (v : SetValidator) : Bool := v.stakingPool.isPreactive

/-- `validator::total_stake_amount`. -/
def totalStakeAmount (v : SetValidator) : Nat := v.stakingPool.mgoBalance

/-- `validator::is_duplicate`: some identifier of one is an identifier of the
    other, in this epoch or staged for the next. -/
def isDuplicate (self other : SetValidator) : Bool :=
  let m := self.metadata
  let o := other.metadata
  self.mgoAddress == other.mgoAddress
    || m.name == o.name
    || m.netAddress == o.netAddress
    || m.p2pAddress == o.p2pAddress
    || m.protocolPubkeyBytes == o.protocolPubkeyBytes
    || m.networkPubkeyBytes == o.networkPubkeyBytes
    || m.networkPubkeyBytes == o.workerPubkeyBytes
    || m.workerPubkeyBytes == o.workerPubkeyBytes
    || m.workerPubkeyBytes == o.networkPubkeyBytes
    || isEqualSome m.nextEpochNetAddress o.nextEpochNetAddress
    || isEqualSome m.nextEpochP2pAddress o.nextEpochP2pAddress
    || isEqualSome m.nextEpochProtocolPubkeyBytes o.nextEpochProtocolPubkeyBytes
    || isEqualSome m.nextEpochNetworkPubkeyBytes o.nextEpochNetworkPubkeyBytes
    || isEqualSome m.nextEpochNetworkPubkeyBytes o.nextEpochWorkerPubkeyBytes
    || isEqualSome m.nextEpochWorkerPubkeyBytes o.nextEpochWorkerPubkeyBytes
    || isEqualSome m.nextEpochWorkerPubkeyBytes o.nextEpochNetworkPubkeyBytes
    || isEqualSomeAndValue m.nextEpochNetAddress o.netAddress
    || isEqualSomeAndValue m.nextEpochP2pAddress o.p2pAddress
    || isEqualSomeAndValue m.nextEpochProtocolPubkeyBytes o.protocolPubkeyBytes
    || isEqualSomeAndValue m.nextEpochNetworkPubkeyBytes o.networkPubkeyBytes
    || isEqualSomeAndValue m.nextEpochNetworkPubkeyBytes o.workerPubkeyBytes
    || isEqualSomeAndValue m.nextEpochWorkerPubkeyBytes o.workerPubkeyBytes
    || isEqualSomeAndValue m.nextEpochWorkerPubkeyBytes o.networkPubkeyBytes
    || isEqualSomeAndValue o.nextEpochNetAddress m.netAddress
    || isEqualSomeAndValue o.nextEpochP2pAddress m.p2pAddress
    || isEqualSomeAndValue o.nextEpochProtocolPubkeyBytes m.protocolPubkeyBytes
    || isEqualSomeAndValue o.nextEpochNetworkPubkeyBytes m.networkPubkeyBytes
    || isEqualSomeAndValue o.nextEpochNetworkPubkeyBytes m.workerPubkeyBytes
    || isEqualSomeAndValue o.nextEpochWorkerPubkeyBytes m.workerPubkeyBytes
    || isEqualSomeAndValue o.nextEpochWorkerPubkeyBytes m.networkPubkeyBytes

/-- Two validators of one address are duplicates. -/
theorem isDuplicate_of_mgoAddress {self other : SetValidator} (h : self.mgoAddress = other.mgoAddress) :
    self.isDuplicate other = true := by
  simp [isDuplicate, h]

/-- The validator with its staking part replaced. -/
def setValidator (v : SetValidator) (w : Validator) : SetValidator := { v with toValidator := w }

@[simp] theorem mgoAddress_setValidator (v : SetValidator) (w : Validator) :
    (v.setValidator w).mgoAddress = v.mgoAddress := rfl

@[simp] theorem stakingPoolId_setValidator (v : SetValidator) (w : Validator) :
    (v.setValidator w).stakingPoolId = v.stakingPoolId := rfl

@[simp] theorem stakingPool_setValidator (v : SetValidator) (w : Validator) :
    (v.setValidator w).stakingPool = w.stakingPool := rfl

@[simp] theorem votingPower_setValidator (v : SetValidator) (w : Validator) :
    (v.setValidator w).votingPower = v.votingPower := rfl

/-- `validator::activate`. -/
def activate (v : SetValidator) (activationEpoch : Nat) : Option SetValidator :=
  (v.toValidator.activate activationEpoch).map v.setValidator

/-- `validator::deactivate`. -/
def deactivate (v : SetValidator) (deactivationEpoch : Nat) : Option SetValidator :=
  (v.toValidator.deactivate deactivationEpoch).map v.setValidator

/-- `validator::request_add_stake`. -/
def requestAddStake (v : SetValidator) (stake epoch : Nat) : Option (SetValidator × StakedMgo) :=
  (v.toValidator.requestAddStake stake epoch).map fun added => (v.setValidator added.1, added.2)

/-- `MAX_COMMISSION_RATE` of `validator`. -/
def maxCommissionRate : Nat := 2000

/-- `validator::request_set_commission_rate`: `ECommissionRateTooHigh` is `none`. -/
def requestSetCommissionRate (v : SetValidator) (newCommissionRate : Nat) : Option SetValidator :=
  if newCommissionRate ≤ maxCommissionRate then some { v with nextEpochCommissionRate := newCommissionRate }
  else none

theorem mgoAddress_of_activate {v w : SetValidator} {e : Nat} (h : v.activate e = some w) :
    w.mgoAddress = v.mgoAddress := by
  obtain ⟨_, -, rfl⟩ := Option.map_eq_some_iff.mp h
  rfl

theorem of_deactivate {v w : SetValidator} {e : Nat} (h : v.deactivate e = some w) :
    w.mgoAddress = v.mgoAddress ∧ w.stakingPoolId = v.stakingPoolId := by
  obtain ⟨_, -, rfl⟩ := Option.map_eq_some_iff.mp h
  exact ⟨rfl, rfl⟩

/-- An activated validator's pool is activated, and was not deactivated. -/
theorem pool_of_activate {v w : SetValidator} {e : Nat} (h : v.activate e = some w) :
    w.stakingPool.isPreactive = false ∧ w.stakingPool.isInactive = false := by
  obtain ⟨x, hx, rfl⟩ := Option.map_eq_some_iff.mp h
  obtain ⟨hinactive, ha, hd, -⟩ := v.stakingPool.activateStakingPool_eq_some (v.toValidator.activate_eq_some hx)
  exact ⟨by simp [StakingPool.isPreactive, ha], by simpa [StakingPool.isInactive, hd] using hinactive⟩

/-- Stake added to a validator leaves its power, and the epochs and rates of
    its pool. -/
theorem of_requestAddStake {v : SetValidator} {stake epoch : Nat} {added : SetValidator × StakedMgo}
    (h : v.requestAddStake stake epoch = some added) :
    added.1.votingPower = v.votingPower ∧ added.1.stakingPool.rateFields = v.stakingPool.rateFields := by
  obtain ⟨x, hx, rfl⟩ := Option.map_eq_some_iff.mp h
  exact ⟨rfl, v.toValidator.rateFields_of_requestAddStake hx⟩

theorem mgoAddress_of_requestAddStake {v : SetValidator} {stake epoch : Nat} {added : SetValidator × StakedMgo}
    (h : v.requestAddStake stake epoch = some added) : added.1.mgoAddress = v.mgoAddress := by
  obtain ⟨_, -, rfl⟩ := Option.map_eq_some_iff.mp h
  rfl

theorem mgoAddress_of_requestSetCommissionRate {v w : SetValidator} {rate : Nat}
    (h : v.requestSetCommissionRate rate = some w) : w.mgoAddress = v.mgoAddress := by
  unfold requestSetCommissionRate at h
  split at h
  · cases h
    rfl
  · cases h

theorem of_requestSetCommissionRate {v w : SetValidator} {rate : Nat} (h : v.requestSetCommissionRate rate = some w) :
    w = { v with nextEpochCommissionRate := rate } := by
  unfold requestSetCommissionRate at h
  split at h
  · exact (Option.some.inj h).symm
  · cases h

end SetValidator

/-- `ValidatorSet`, without its extra fields; the candidates and the inactive
    validators are held as themselves, not in a `ValidatorWrapper`. -/
structure ValidatorSet where
  totalStake : Nat
  activeValidators : List SetValidator
  pendingActiveValidators : List SetValidator
  pendingRemovals : List Nat
  stakingPoolMappings : List (Nat × Nat)
  inactiveValidators : List (Nat × SetValidator)
  validatorCandidates : List (Nat × SetValidator)
  atRiskValidators : VecMap Nat Nat

/-- `table::remove`: the value of the key and the table without it; a key not
    present aborts. -/
def tableRemove {α : Type} (table : List (Nat × α)) (key : Nat) : Option (α × List (Nat × α)) :=
  (vget table key).map fun value => (value, verase table key)

theorem tableAdd_eq_some_iff {α : Type} {table table' : List (Nat × α)} {key : Nat} {value : α} :
    tableAdd table key value = some table' ↔ vget table key = none ∧ table' = vset table key value := by
  unfold tableAdd
  cases h : vget table key <;> simp [eq_comm]

theorem tableRemove_eq_some_iff {α : Type} {table table' : List (Nat × α)} {key : Nat} {value : α} :
    tableRemove table key = some (value, table') ↔ vget table key = some value ∧ table' = verase table key := by
  unfold tableRemove
  cases h : vget table key <;> simp [eq_comm]

namespace ValidatorSet

/-- `MIN_STAKING_THRESHOLD`. -/
def minStakingThreshold : Nat := 1000000000

/-- Why a call on the validator set aborts. -/
inductive SetAbort where
  /-- An abort in the reward steps of `advance_epoch`. -/
  | rewards (e : Abort)
  /-- An abort of `voting_power::set_voting_power`. -/
  | votingPower (e : VotingPower.Abort)
  /-- An abort in `validator` or `staking_pool`. -/
  | validator
  /-- `EDuplicateValidator`. -/
  | duplicateValidator
  /-- `EAlreadyValidatorCandidate`. -/
  | alreadyValidatorCandidate
  /-- `EValidatorNotCandidate`. -/
  | validatorNotCandidate
  /-- `ENotValidatorCandidate`. -/
  | notValidatorCandidate
  /-- `EMinJoiningStakeNotReached`. -/
  | minJoiningStakeNotReached
  /-- `ENotAValidator`. -/
  | notAValidator
  /-- `EStakingBelowThreshold`. -/
  | stakingBelowThreshold
  /-- `EValidatorAlreadyRemoved`. -/
  | validatorAlreadyRemoved
  /-- `dynamic_field::EFieldAlreadyExists`: a `table::add` of a key present. -/
  | fieldAlreadyExists
  /-- `dynamic_field::EFieldDoesNotExist`: a `table::remove` of a key absent. -/
  | fieldDoesNotExist
  /-- `vec_map::EKeyDoesNotExist`. -/
  | keyDoesNotExist
  /-- `vec_map::EKeyAlreadyExists`. -/
  | keyAlreadyExists
  /-- A vector index out of bounds. -/
  | indexOutOfBounds
  /-- A subtraction below zero. -/
  | arithmeticError
  deriving DecidableEq, Repr

/-- A call of the model that returns `none` where Move aborts with `e`. -/
def orThrow {α : Type} (e : SetAbort) : Option α → Except SetAbort α
  | some a => pure a
  | none => throw e

@[simp] theorem orThrow_some {α : Type} (e : SetAbort) (a : α) : orThrow e (some a) = pure a := rfl

theorem orThrow_eq_ok {α : Type} {e : SetAbort} {o : Option α} {a : α} :
    orThrow e o = .ok a ↔ o = some a := by
  cases o <;> simp [orThrow]

/-- The part of each validator that the reward steps read. -/
def toActive (validators : List SetValidator) : List ActiveValidator :=
  validators.map SetValidator.toActiveValidator

/-- `count_duplicates_vec` and `count_duplicates_tablevec`. -/
def countDuplicates (validators : List SetValidator) (validator : SetValidator) : Nat :=
  (validators.filter fun v => v.isDuplicate validator).length

/-- `is_duplicate_validator`. -/
def isDuplicateValidator (validators : List SetValidator) (validator : SetValidator) : Bool :=
  0 < countDuplicates validators validator

/-- A validator is a duplicate of the list that holds its address. -/
theorem isDuplicateValidator_of_mem {validators : List SetValidator} {validator : SetValidator}
    (h : validator.mgoAddress ∈ validators.map (·.mgoAddress)) :
    isDuplicateValidator validators validator = true := by
  obtain ⟨v, hv, hva⟩ := List.mem_map.mp h
  unfold isDuplicateValidator countDuplicates
  apply decide_eq_true
  apply List.length_pos_iff.mpr
  exact List.ne_nil_of_mem (List.mem_filter.mpr ⟨hv, SetValidator.isDuplicate_of_mgoAddress hva⟩)

/-! ## The requests of an epoch -/

variable (self : ValidatorSet)

/-- `request_add_validator_candidate`. -/
def requestAddValidatorCandidate (validator : SetValidator) : Except SetAbort ValidatorSet := do
  if isDuplicateValidator self.activeValidators validator
      || isDuplicateValidator self.pendingActiveValidators validator then
    throw .duplicateValidator
  if (vget self.validatorCandidates validator.mgoAddress).isSome then throw .alreadyValidatorCandidate
  if !validator.isPreactive then throw .validatorNotCandidate
  let stakingPoolMappings ← orThrow .fieldAlreadyExists
    (tableAdd self.stakingPoolMappings validator.stakingPoolId validator.mgoAddress)
  let validatorCandidates ← orThrow .fieldAlreadyExists
    (tableAdd self.validatorCandidates validator.mgoAddress validator)
  pure { self with stakingPoolMappings, validatorCandidates }

/-- `request_remove_validator_candidate` from `sender` in `epoch`. -/
def requestRemoveValidatorCandidate (sender epoch : Nat) : Except SetAbort ValidatorSet := do
  if (vget self.validatorCandidates sender).isNone then throw .notValidatorCandidate
  let (validator, validatorCandidates) ← orThrow .fieldDoesNotExist
    (tableRemove self.validatorCandidates sender)
  if !validator.isPreactive then throw .validatorNotCandidate
  let (_, stakingPoolMappings) ← orThrow .fieldDoesNotExist
    (tableRemove self.stakingPoolMappings validator.stakingPoolId)
  let validator ← orThrow .validator (validator.deactivate epoch)
  let inactiveValidators ← orThrow .fieldAlreadyExists
    (tableAdd self.inactiveValidators validator.stakingPoolId validator)
  pure { self with validatorCandidates, stakingPoolMappings, inactiveValidators }

/-- `request_add_validator` from `sender`: the candidate joins the pending
    validators. -/
def requestAddValidator (minJoiningStakeAmount sender : Nat) : Except SetAbort ValidatorSet := do
  if (vget self.validatorCandidates sender).isNone then throw .notValidatorCandidate
  let (validator, validatorCandidates) ← orThrow .fieldDoesNotExist
    (tableRemove self.validatorCandidates sender)
  if isDuplicateValidator self.activeValidators validator
      || isDuplicateValidator self.pendingActiveValidators validator then
    throw .duplicateValidator
  if !validator.isPreactive then throw .validatorNotCandidate
  if validator.totalStakeAmount < minJoiningStakeAmount then throw .minJoiningStakeNotReached
  pure { self with
    validatorCandidates := validatorCandidates
    pendingActiveValidators := self.pendingActiveValidators ++ [validator] }

/-- `request_remove_validator` from `sender`: the index of its validator joins
    the pending removals. -/
def requestRemoveValidator (sender : Nat) : Except SetAbort ValidatorSet := do
  let validatorIndex ← orThrow .notAValidator (findValidator (toActive self.activeValidators) sender)
  if validatorIndex ∈ self.pendingRemovals then throw .validatorAlreadyRemoved
  pure { self with pendingRemovals := self.pendingRemovals ++ [validatorIndex] }

/-- `request_add_stake` to `validatorAddress` in `epoch`, through
    `get_candidate_or_active_validator_mut`: a candidate first, else an active
    validator. -/
def requestAddStake (validatorAddress stake epoch : Nat) : Except SetAbort (ValidatorSet × StakedMgo) := do
  if stake < minStakingThreshold then throw .stakingBelowThreshold
  match vget self.validatorCandidates validatorAddress with
  | some validator =>
    let (validator, stakedMgo) ← orThrow .validator (validator.requestAddStake stake epoch)
    pure ({ self with validatorCandidates := vset self.validatorCandidates validatorAddress validator },
      stakedMgo)
  | none =>
    let i ← orThrow .notAValidator (findValidator (toActive self.activeValidators) validatorAddress)
    let validator ← orThrow .indexOutOfBounds self.activeValidators[i]?
    let (validator, stakedMgo) ← orThrow .validator (validator.requestAddStake stake epoch)
    pure ({ self with activeValidators := self.activeValidators.set i validator }, stakedMgo)

/-- `request_set_commission_rate` from `sender`, through `get_validator_mut`. -/
def requestSetCommissionRate (newCommissionRate sender : Nat) : Except SetAbort ValidatorSet := do
  let i ← orThrow .notAValidator (findValidator (toActive self.activeValidators) sender)
  let validator ← orThrow .indexOutOfBounds self.activeValidators[i]?
  let validator ← orThrow .validator (validator.requestSetCommissionRate newCommissionRate)
  pure { self with activeValidators := self.activeValidators.set i validator }

/-- A request of a transaction during an epoch. -/
inductive Request where
  | addValidatorCandidate (validator : SetValidator)
  | removeValidatorCandidate (sender : Nat)
  | addValidator (minJoiningStakeAmount sender : Nat)
  | removeValidator (sender : Nat)
  | addStake (validatorAddress stake : Nat)
  | setCommissionRate (newCommissionRate sender : Nat)

/-- A request made in `epoch`. -/
def Request.apply (epoch : Nat) (self : ValidatorSet) : Request → Except SetAbort ValidatorSet
  | .addValidatorCandidate validator => self.requestAddValidatorCandidate validator
  | .removeValidatorCandidate sender => self.requestRemoveValidatorCandidate sender epoch
  | .addValidator minJoiningStakeAmount sender => self.requestAddValidator minJoiningStakeAmount sender
  | .removeValidator sender => self.requestRemoveValidator sender
  | .addStake validatorAddress stake => (·.1) <$> self.requestAddStake validatorAddress stake epoch
  | .setCommissionRate newCommissionRate sender => self.requestSetCommissionRate newCommissionRate sender

/-- The senders of the removal requests, in order. -/
def Request.removals : List Request → List Nat
  | [] => []
  | .removeValidator sender :: requests => sender :: Request.removals requests
  | _ :: requests => Request.removals requests

/-! ## `sort_removal_list` -/

/-- The inner loop of `sort_removal_list`: `j` steps down from `i`, and the
    entry `cur` moves one place down while the entry below it is larger. -/
def sortRemovalInner (cur : Nat) : Nat → List Nat → List Nat
  | 0, withdrawList => withdrawList
  | j + 1, withdrawList =>
    if withdrawList.getD j 0 > cur then sortRemovalInner cur j (BinaryHeap.swap withdrawList j (j + 1))
    else withdrawList

/-- The outer loop of `sort_removal_list` from index `i`, with `fuel` bounding
    the iterations left. -/
def sortRemovalOuter (length : Nat) : Nat → Nat → List Nat → List Nat
  | 0, _, withdrawList => withdrawList
  | fuel + 1, i, withdrawList =>
    if i < length then
      sortRemovalOuter length fuel (i + 1) (sortRemovalInner (withdrawList.getD i 0) i withdrawList)
    else withdrawList

/-- `sort_removal_list`: an insertion sort. -/
def sortRemovalList (withdrawList : List Nat) : List Nat :=
  sortRemovalOuter withdrawList.length withdrawList.length 1 withdrawList

section RemovalSort

/-- Swapping two neighbours. -/
theorem swap_append_cons_cons (A C : List Nat) (x y : Nat) :
    BinaryHeap.swap (A ++ x :: y :: C) A.length (A.length + 1) = A ++ y :: x :: C := by
  simp [BinaryHeap.swap, List.set_append_right]

theorem getD_append_length (A C : List Nat) (x : Nat) : (A ++ x :: C).getD A.length 0 = x := by
  simp

/-- **The inner loop inserts `cur`** into the sorted entries below it: with
    `A ++ B` sorted and every entry of `B` above `cur`, the loop from
    `A.length` leaves a sorted permutation of `cur :: (A ++ B)` before the rest.
    Induction on `A` from its end: each step either swaps `cur` below the last
    entry of `A`, which joins `B`, or stops. -/
theorem sortRemovalInner_spec (cur : Nat) (rest : List Nat) (A : List Nat) :
    ∀ B : List Nat, (A ++ B).Pairwise (· ≤ ·) → (∀ b ∈ B, cur < b) →
      ∃ S, sortRemovalInner cur A.length (A ++ cur :: (B ++ rest)) = S ++ rest ∧
        S.Pairwise (· ≤ ·) ∧ S.Perm (cur :: (A ++ B)) := by
  induction A using List.reverseRec with
  | nil =>
    intro B hs hB
    refine ⟨cur :: B, rfl, List.pairwise_cons.mpr ⟨fun b hb => (hB b hb).le, hs⟩, .refl _⟩
  | append_singleton A p ih =>
    intro B hs hB
    have hlen : (A ++ [p]).length = A.length + 1 := by simp
    have hlist : A ++ [p] ++ cur :: (B ++ rest) = A ++ p :: cur :: (B ++ rest) := by simp
    rw [hlen, hlist, sortRemovalInner, getD_append_length]
    by_cases hp : p > cur
    · -- `p` moves above `cur` and joins the entries above it
      rw [if_pos hp, swap_append_cons_cons]
      have hs' : (A ++ p :: B).Pairwise (· ≤ ·) := by simpa using hs
      have hB' : ∀ b ∈ p :: B, cur < b := by
        intro b hb
        rcases List.mem_cons.mp hb with rfl | hb
        · exact hp
        · exact hB b hb
      obtain ⟨S, hS, hsorted, hperm⟩ := ih (p :: B) hs' hB'
      refine ⟨S, by simpa using hS, hsorted, ?_⟩
      simpa using hperm
    · -- the loop stops with `cur` just above `p`
      rw [if_neg hp]
      refine ⟨A ++ p :: cur :: B, by simp, ?_, ?_⟩
      · have hs' : (A ++ p :: B).Pairwise (· ≤ ·) := by simpa using hs
        rw [List.pairwise_append] at hs' ⊢
        obtain ⟨hA, hpB, hApB⟩ := hs'
        obtain ⟨hpB', hB''⟩ := List.pairwise_cons.mp hpB
        refine ⟨hA, ?_, ?_⟩
        · refine List.pairwise_cons.mpr ⟨?_, List.pairwise_cons.mpr ⟨fun b hb => (hB b hb).le, hB''⟩⟩
          intro b hb
          rcases List.mem_cons.mp hb with rfl | hb
          · omega
          · exact hpB' b hb
        · intro a ha b hb
          rcases List.mem_cons.mp hb with rfl | hb
          · exact hApB a ha _ List.mem_cons_self
          · rcases List.mem_cons.mp hb with rfl | hb
            · exact Nat.le_trans (hApB a ha _ List.mem_cons_self) (by omega)
            · exact hApB a ha b (List.mem_cons_of_mem _ hb)
      · have : A ++ p :: cur :: B = (A ++ [p]) ++ cur :: B := by simp
        rw [this]
        exact List.perm_middle

/-- **The outer loop sorts**: from a sorted prefix `S` of its index, with fuel
    for the entries left, the loop returns a sorted permutation. Induction on
    the fuel; each round inserts the next entry with the inner loop. -/
theorem sortRemovalOuter_spec (length : Nat) (fuel : Nat) :
    ∀ S rest : List Nat, S.Pairwise (· ≤ ·) → S.length + rest.length = length →
      rest.length ≤ fuel →
      (sortRemovalOuter length fuel S.length (S ++ rest)).Pairwise (· ≤ ·) ∧
        (sortRemovalOuter length fuel S.length (S ++ rest)).Perm (S ++ rest) := by
  induction fuel with
  | zero =>
    intro S rest hS _ hfuel
    have : rest = [] := List.eq_nil_of_length_eq_zero (by omega)
    subst this
    rw [List.append_nil, sortRemovalOuter]
    exact ⟨hS, .refl _⟩
  | succ fuel ih =>
    intro S rest hS hlen hfuel
    rw [sortRemovalOuter]
    split
    case isTrue hlt =>
      obtain ⟨cur, rest', rfl⟩ : ∃ cur rest', rest = cur :: rest' := by
        cases rest with
        | nil => simp at hlen; omega
        | cons cur rest' => exact ⟨cur, rest', rfl⟩
      rw [getD_append_length]
      obtain ⟨S', hS', hsorted, hperm⟩ := sortRemovalInner_spec cur rest' S [] (by simpa using hS)
        (by simp)
      rw [List.nil_append] at hS'
      rw [List.append_nil] at hperm
      have hlen' : S'.length = S.length + 1 := by simp [hperm.length_eq]
      rw [hS', ← hlen']
      obtain ⟨hsorted', hperm'⟩ := ih S' rest' hsorted (by simp at hlen; omega) (by simp at hfuel; omega)
      exact ⟨hsorted', hperm'.trans ((hperm.append_right rest').trans List.perm_middle.symm)⟩
    case isFalse hge =>
      have : rest = [] := List.eq_nil_of_length_eq_zero (by omega)
      subst this
      rw [List.append_nil]
      exact ⟨hS, .refl _⟩

/-- **`sort_removal_list` sorts**: its result is sorted and a permutation of
    its input. -/
theorem sortRemovalList_spec (withdrawList : List Nat) :
    (sortRemovalList withdrawList).Pairwise (· ≤ ·) ∧ (sortRemovalList withdrawList).Perm withdrawList := by
  unfold sortRemovalList
  cases withdrawList with
  | nil => exact ⟨List.Pairwise.nil, .refl _⟩
  | cons x rest =>
    have h := sortRemovalOuter_spec (x :: rest).length (x :: rest).length [x] rest
      (List.pairwise_singleton _ x) (by simp [Nat.add_comm]) (by simp)
    simpa using h

end RemovalSort

/-! ## Joining and leaving at an epoch change -/

/-- `process_pending_validators`: the pending validators, popped from the back,
    are activated at `newEpoch` and appended to the active ones. -/
def processPendingValidators (newEpoch : Nat) : Except SetAbort ValidatorSet :=
  self.pendingActiveValidators.reverse.foldlM (fun acc validator => do
      let validator ← orThrow .validator (validator.activate newEpoch)
      pure { acc with activeValidators := acc.activeValidators ++ [validator] })
    { self with pendingActiveValidators := [] }

/-- `if (vec_map::contains(m, k)) vec_map::remove(m, k)`. -/
def removeIfPresent {V : Type} (m : VecMap Nat V) (k : Nat) : Except SetAbort (VecMap Nat V) :=
  if m.contains k then (·.2) <$> orThrow .keyDoesNotExist (m.remove k) else pure m

/-- `clean_report_records_leaving_validator`: the records about the leaving
    validator go, and so do its reports, with the records left without a
    reporter. -/
def cleanReportRecordsLeavingValidator (validatorReportRecords : VecMap Nat (List Nat))
    (leavingValidatorAddr : Nat) : Except SetAbort (VecMap Nat (List Nat)) := do
  let validatorReportRecords ← removeIfPresent validatorReportRecords leavingValidatorAddr
  validatorReportRecords.keys.foldlM (fun records reportedValidatorAddr => do
      let reporters ← orThrow .keyDoesNotExist (records.get reportedValidatorAddr)
      if leavingValidatorAddr ∈ reporters then
        let reporters := reporters.erase leavingValidatorAddr
        let records ← orThrow .keyDoesNotExist (records.modify reportedValidatorAddr fun _ => reporters)
        if reporters.isEmpty then (·.2) <$> orThrow .keyDoesNotExist (records.remove reportedValidatorAddr)
        else pure records
      else pure records)
    validatorReportRecords

/-- `process_validator_departure` in `epoch`: the validator leaves the pool
    mappings and the at-risk map, its stake leaves `total_stake` (a `u64`
    subtraction, which aborts below zero), its reports are cleaned, and it is
    deactivated into `inactive_validators`. -/
def processValidatorDeparture (validator : SetValidator) (validatorReportRecords : VecMap Nat (List Nat))
    (epoch : Nat) : Except SetAbort (ValidatorSet × VecMap Nat (List Nat)) := do
  let newEpoch := epoch + 1
  let validatorAddress := validator.mgoAddress
  let validatorPoolId := validator.stakingPoolId
  let (_, stakingPoolMappings) ← orThrow .fieldDoesNotExist
    (tableRemove self.stakingPoolMappings validatorPoolId)
  let atRiskValidators ← removeIfPresent self.atRiskValidators validatorAddress
  if self.totalStake < validator.totalStakeAmount then throw .arithmeticError
  let totalStake := self.totalStake - validator.totalStakeAmount
  let validatorReportRecords ← cleanReportRecordsLeavingValidator validatorReportRecords validatorAddress
  let validator ← orThrow .validator (validator.deactivate newEpoch)
  let inactiveValidators ← orThrow .fieldAlreadyExists
    (tableAdd self.inactiveValidators validatorPoolId validator)
  pure ({ self with stakingPoolMappings, atRiskValidators, totalStake, inactiveValidators },
    validatorReportRecords)

/-- `vector::remove(&mut self.active_validators, index)`, and the departure
    in `epoch` of the validator removed. -/
def departAt (index : Nat) (validatorReportRecords : VecMap Nat (List Nat)) (epoch : Nat) :
    Except SetAbort (ValidatorSet × VecMap Nat (List Nat)) := do
  let validator ← orThrow .indexOutOfBounds self.activeValidators[index]?
  processValidatorDeparture { self with activeValidators := self.activeValidators.eraseIdx index }
    validator validatorReportRecords epoch

/-- `process_pending_removals` in `epoch`: the removal indices are sorted and
    popped from the back, the largest first, and the validator at each departs. -/
def processPendingRemovals (validatorReportRecords : VecMap Nat (List Nat)) (epoch : Nat) :
    Except SetAbort (ValidatorSet × VecMap Nat (List Nat)) :=
  (sortRemovalList self.pendingRemovals).reverse.foldlM (fun acc index => acc.1.departAt index acc.2 epoch)
    ({ self with pendingRemovals := [] }, validatorReportRecords)

/-! ## What each step can do -/

theorem requestAddValidatorCandidate_eq_ok {validator : SetValidator} {self' : ValidatorSet}
    (h : self.requestAddValidatorCandidate validator = .ok self') :
    isDuplicateValidator self.activeValidators validator = false ∧
      isDuplicateValidator self.pendingActiveValidators validator = false ∧
      vget self.validatorCandidates validator.mgoAddress = none ∧ validator.isPreactive = true ∧
      vget self.stakingPoolMappings validator.stakingPoolId = none ∧
      self' = { self with
        stakingPoolMappings := vset self.stakingPoolMappings validator.stakingPoolId validator.mgoAddress
        validatorCandidates := vset self.validatorCandidates validator.mgoAddress validator } := by
  unfold requestAddValidatorCandidate at h
  dsimp only at h
  obtain ⟨hdup, h⟩ := Except.ite_throw_bind_eq_ok.mp h
  obtain ⟨hcand, h⟩ := Except.ite_throw_bind_eq_ok.mp h
  obtain ⟨hpre, h⟩ := Except.ite_throw_bind_eq_ok.mp h
  obtain ⟨spm, hspm, h⟩ := Except.bind_eq_ok.mp h
  obtain ⟨vc, hvc, h⟩ := Except.bind_eq_ok.mp h
  obtain ⟨hfresh, rfl⟩ := tableAdd_eq_some_iff.mp (orThrow_eq_ok.mp hspm)
  obtain ⟨-, rfl⟩ := tableAdd_eq_some_iff.mp (orThrow_eq_ok.mp hvc)
  simp only [Bool.or_eq_true, not_or, Bool.not_eq_true, Option.isSome_eq_false_iff,
    Option.isNone_iff_eq_none] at hdup hcand
  exact ⟨hdup.1, hdup.2, hcand, by simpa using hpre, hfresh, (Except.pure_eq_ok.mp h).symm⟩

theorem requestRemoveValidatorCandidate_eq_ok {sender epoch : Nat} {self' : ValidatorSet}
    (h : self.requestRemoveValidatorCandidate sender epoch = .ok self') :
    ∃ validator deactivated, vget self.validatorCandidates sender = some validator ∧
      validator.isPreactive = true ∧ (vget self.stakingPoolMappings validator.stakingPoolId).isSome ∧
      validator.deactivate epoch = some deactivated ∧
      vget self.inactiveValidators validator.stakingPoolId = none ∧
      self' = { self with
        validatorCandidates := verase self.validatorCandidates sender
        stakingPoolMappings := verase self.stakingPoolMappings validator.stakingPoolId
        inactiveValidators := vset self.inactiveValidators validator.stakingPoolId deactivated } := by
  unfold requestRemoveValidatorCandidate at h
  dsimp only at h
  obtain ⟨-, h⟩ := Except.ite_throw_bind_eq_ok.mp h
  obtain ⟨⟨validator, vc⟩, hvc, h⟩ := Except.bind_eq_ok.mp h
  obtain ⟨hcand, rfl⟩ := tableRemove_eq_some_iff.mp (orThrow_eq_ok.mp hvc)
  dsimp only at h
  obtain ⟨hpre, h⟩ := Except.ite_throw_bind_eq_ok.mp h
  obtain ⟨⟨addr, spm⟩, hspm, h⟩ := Except.bind_eq_ok.mp h
  obtain ⟨hmapped, rfl⟩ := tableRemove_eq_some_iff.mp (orThrow_eq_ok.mp hspm)
  dsimp only at h
  obtain ⟨deactivated, hdeact, h⟩ := Except.bind_eq_ok.mp h
  obtain ⟨inactive, hinactive, h⟩ := Except.bind_eq_ok.mp h
  have hdeact := orThrow_eq_ok.mp hdeact
  obtain ⟨hfresh, rfl⟩ := tableAdd_eq_some_iff.mp (orThrow_eq_ok.mp hinactive)
  rw [(SetValidator.of_deactivate hdeact).2] at hfresh
  refine ⟨validator, deactivated, hcand, by simpa using hpre, by simp [hmapped], hdeact, hfresh, ?_⟩
  rw [← Except.pure_eq_ok.mp h, (SetValidator.of_deactivate hdeact).2]

theorem requestAddValidator_eq_ok {minJoiningStakeAmount sender : Nat} {self' : ValidatorSet}
    (h : self.requestAddValidator minJoiningStakeAmount sender = .ok self') :
    ∃ validator, vget self.validatorCandidates sender = some validator ∧
      isDuplicateValidator self.activeValidators validator = false ∧
      isDuplicateValidator self.pendingActiveValidators validator = false ∧
      validator.isPreactive = true ∧ minJoiningStakeAmount ≤ validator.totalStakeAmount ∧
      self' = { self with
        validatorCandidates := verase self.validatorCandidates sender
        pendingActiveValidators := self.pendingActiveValidators ++ [validator] } := by
  unfold requestAddValidator at h
  dsimp only at h
  obtain ⟨-, h⟩ := Except.ite_throw_bind_eq_ok.mp h
  obtain ⟨⟨validator, vc⟩, hvc, h⟩ := Except.bind_eq_ok.mp h
  obtain ⟨hcand, rfl⟩ := tableRemove_eq_some_iff.mp (orThrow_eq_ok.mp hvc)
  dsimp only at h
  obtain ⟨hdup, h⟩ := Except.ite_throw_bind_eq_ok.mp h
  obtain ⟨hpre, h⟩ := Except.ite_throw_bind_eq_ok.mp h
  obtain ⟨hmin, h⟩ := Except.ite_throw_bind_eq_ok.mp h
  simp only [Bool.or_eq_true, not_or, Bool.not_eq_true] at hdup
  exact ⟨validator, hcand, hdup.1, hdup.2, by simpa using hpre, Nat.not_lt.mp hmin,
    (Except.pure_eq_ok.mp h).symm⟩

theorem requestRemoveValidator_eq_ok {sender : Nat} {self' : ValidatorSet}
    (h : self.requestRemoveValidator sender = .ok self') :
    ∃ i, findValidator (toActive self.activeValidators) sender = some i ∧ i ∉ self.pendingRemovals ∧
      self' = { self with pendingRemovals := self.pendingRemovals ++ [i] } := by
  unfold requestRemoveValidator at h
  dsimp only at h
  obtain ⟨i, hi, h⟩ := Except.bind_eq_ok.mp h
  obtain ⟨hnew, h⟩ := Except.ite_throw_bind_eq_ok.mp h
  exact ⟨i, orThrow_eq_ok.mp hi, hnew, (Except.pure_eq_ok.mp h).symm⟩

theorem requestAddStake_eq_ok {validatorAddress stake epoch : Nat} {result : ValidatorSet × StakedMgo}
    (h : self.requestAddStake validatorAddress stake epoch = .ok result) :
    minStakingThreshold ≤ stake ∧
      ((∃ validator added, vget self.validatorCandidates validatorAddress = some validator ∧
          validator.requestAddStake stake epoch = some added ∧
          result = ({ self with
            validatorCandidates := vset self.validatorCandidates validatorAddress added.1 }, added.2)) ∨
        (vget self.validatorCandidates validatorAddress = none ∧
          ∃ i validator added, findValidator (toActive self.activeValidators) validatorAddress = some i ∧
            self.activeValidators[i]? = some validator ∧ validator.requestAddStake stake epoch = some added ∧
            result = ({ self with activeValidators := self.activeValidators.set i added.1 }, added.2))) := by
  unfold requestAddStake at h
  dsimp only at h
  obtain ⟨hmin, h⟩ := Except.ite_throw_bind_eq_ok.mp h
  refine ⟨Nat.not_lt.mp hmin, ?_⟩
  split at h
  case h_1 validator hcand =>
    obtain ⟨added, hadded, h⟩ := Except.bind_eq_ok.mp h
    exact .inl ⟨validator, added, hcand, orThrow_eq_ok.mp hadded, (Except.pure_eq_ok.mp h).symm⟩
  case h_2 hcand =>
    obtain ⟨i, hi, h⟩ := Except.bind_eq_ok.mp h
    obtain ⟨validator, hv, h⟩ := Except.bind_eq_ok.mp h
    obtain ⟨added, hadded, h⟩ := Except.bind_eq_ok.mp h
    exact .inr ⟨hcand, i, validator, added, orThrow_eq_ok.mp hi, orThrow_eq_ok.mp hv,
      orThrow_eq_ok.mp hadded, (Except.pure_eq_ok.mp h).symm⟩

theorem requestSetCommissionRate_eq_ok {newCommissionRate sender : Nat} {self' : ValidatorSet}
    (h : self.requestSetCommissionRate newCommissionRate sender = .ok self') :
    ∃ i validator validator', findValidator (toActive self.activeValidators) sender = some i ∧
      self.activeValidators[i]? = some validator ∧
      validator.requestSetCommissionRate newCommissionRate = some validator' ∧
      self' = { self with activeValidators := self.activeValidators.set i validator' } := by
  unfold requestSetCommissionRate at h
  obtain ⟨i, hi, h⟩ := Except.bind_eq_ok.mp h
  obtain ⟨validator, hv, h⟩ := Except.bind_eq_ok.mp h
  obtain ⟨validator', hv', h⟩ := Except.bind_eq_ok.mp h
  exact ⟨i, validator, validator', orThrow_eq_ok.mp hi, orThrow_eq_ok.mp hv, orThrow_eq_ok.mp hv',
    (Except.pure_eq_ok.mp h).symm⟩

theorem processValidatorDeparture_eq_ok {validator : SetValidator} {records : VecMap Nat (List Nat)}
    {epoch : Nat} {result : ValidatorSet × VecMap Nat (List Nat)}
    (h : self.processValidatorDeparture validator records epoch = .ok result) :
    validator.totalStakeAmount ≤ self.totalStake ∧
      (vget self.stakingPoolMappings validator.stakingPoolId).isSome ∧
      ∃ atRiskValidators deactivated,
        cleanReportRecordsLeavingValidator records validator.mgoAddress = .ok result.2 ∧
        validator.deactivate (epoch + 1) = some deactivated ∧
        vget self.inactiveValidators validator.stakingPoolId = none ∧
        result.1 = { self with
          stakingPoolMappings := verase self.stakingPoolMappings validator.stakingPoolId
          atRiskValidators := atRiskValidators
          totalStake := self.totalStake - validator.totalStakeAmount
          inactiveValidators := vset self.inactiveValidators validator.stakingPoolId deactivated } := by
  unfold processValidatorDeparture at h
  dsimp only at h
  obtain ⟨⟨addr, spm⟩, hspm, h⟩ := Except.bind_eq_ok.mp h
  obtain ⟨hmapped, rfl⟩ := tableRemove_eq_some_iff.mp (orThrow_eq_ok.mp hspm)
  dsimp only at h
  obtain ⟨atRisk, -, h⟩ := Except.bind_eq_ok.mp h
  obtain ⟨hstake, h⟩ := Except.ite_throw_bind_eq_ok.mp h
  obtain ⟨records', hrecords, h⟩ := Except.bind_eq_ok.mp h
  obtain ⟨deactivated, hdeact, h⟩ := Except.bind_eq_ok.mp h
  obtain ⟨inactive, hinactive, h⟩ := Except.bind_eq_ok.mp h
  obtain ⟨hfresh, rfl⟩ := tableAdd_eq_some_iff.mp (orThrow_eq_ok.mp hinactive)
  rw [← Except.pure_eq_ok.mp h]
  exact ⟨Nat.not_lt.mp hstake, by simp [hmapped], atRisk, deactivated, hrecords, orThrow_eq_ok.mp hdeact,
    hfresh, rfl⟩

theorem departAt_eq_ok {index : Nat} {records : VecMap Nat (List Nat)} {epoch : Nat}
    {result : ValidatorSet × VecMap Nat (List Nat)} (h : self.departAt index records epoch = .ok result) :
    ∃ validator, self.activeValidators[index]? = some validator ∧
      processValidatorDeparture { self with activeValidators := self.activeValidators.eraseIdx index }
        validator records epoch = .ok result := by
  obtain ⟨validator, hv, h⟩ := Except.bind_eq_ok.mp h
  exact ⟨validator, orThrow_eq_ok.mp hv, h⟩

/-- A departure takes the validator at its position out of the active ones. -/
theorem departAt_active {index : Nat} {records : VecMap Nat (List Nat)} {epoch : Nat}
    {result : ValidatorSet × VecMap Nat (List Nat)} (h : self.departAt index records epoch = .ok result) :
    result.1.activeValidators = self.activeValidators.eraseIdx index := by
  obtain ⟨validator, -, h⟩ := self.departAt_eq_ok h
  obtain ⟨-, -, _, _, -, -, -, hresult⟩ := processValidatorDeparture_eq_ok _ h
  rw [hresult]

/-- The removals only take validators out of the active ones. -/
theorem processPendingRemovals_active_subset {records : VecMap Nat (List Nat)} {epoch : Nat}
    {result : ValidatorSet × VecMap Nat (List Nat)} (h : self.processPendingRemovals records epoch = .ok result) :
    result.1.activeValidators ⊆ self.activeValidators :=
  foldlM_ok_rel (fun a b : ValidatorSet × VecMap Nat (List Nat) => b.1.activeValidators ⊆ a.1.activeValidators)
    _ (fun _ => List.Subset.refl _) (fun _ _ _ hab hbc => List.Subset.trans hbc hab) _ _ _
    (fun _ _ _ _ hstep => by
      rw [departAt_active _ hstep]
      exact (List.eraseIdx_sublist _ _).subset) h

theorem processPendingValidators_eq_ok {newEpoch : Nat} {self' : ValidatorSet}
    (h : self.processPendingValidators newEpoch = .ok self') :
    ∃ activated, List.Forall₂ (fun v w => v.activate newEpoch = some w) self.pendingActiveValidators.reverse
        activated ∧
      self' = { self with
        activeValidators := self.activeValidators ++ activated
        pendingActiveValidators := [] } := by
  unfold processPendingValidators at h
  refine foldlM_ok_prefix_inv (fun done acc => ∃ activated,
      List.Forall₂ (fun v w => v.activate newEpoch = some w) done activated ∧
      acc = { self with activeValidators := self.activeValidators ++ activated, pendingActiveValidators := [] })
    _ _ ?_ ⟨[], .nil, by simp⟩ h
  rintro done v rest acc acc' - ⟨activated, hforall, rfl⟩ hstep
  obtain ⟨w, hw, hstep⟩ := Except.bind_eq_ok.mp hstep
  refine ⟨activated ++ [w], List.rel_append hforall (.cons (orThrow_eq_ok.mp hw) .nil), ?_⟩
  rw [← Except.pure_eq_ok.mp hstep, List.append_assoc]

/-! ## Validators for the runs of the modules that follow -/

/-- A validator whose identifiers are all `a`, with the staking pool given. -/
def namedValidator (a : Nat) (stakingPool : StakingPool) : SetValidator where
  stakingPool := stakingPool
  nextEpochStake := stakingPool.mgoBalance
  mgoAddress := a
  votingPower := 0
  gasPrice := 0
  commissionRate := 0
  metadata := ⟨a, a, a, a, a, a, none, none, none, none, none⟩
  stakingPoolId := a
  nextEpochGasPrice := 0
  nextEpochCommissionRate := 0

/-- A pool activated at genesis with `stake` staked. -/
def genesisPool (stake : Nat) : StakingPool := ⟨some 0, none, stake, 0, stake, [(0, initialExchangeRate)], 0, 0, 0⟩

/-- The preactive pool of a candidate with `stake` staked. -/
def candidatePool (stake : Nat) : StakingPool := ⟨none, none, stake, 0, stake, [], 0, 0, 0⟩

end ValidatorSet

end Mango.Framework
