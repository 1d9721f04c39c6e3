/-
  Mango.Framework.VotingPower

  `mgo-system/sources/voting_power.move`: the voting power of the validators of
  an epoch, out of `TOTAL_VOTING_POWER = 10_000`. Each validator starts at its
  share of the stake, rounded down and capped at a threshold; the power the
  floors and the cap leave over is handed out greedily, in the order of stake
  descending, to validators below the cap; `check_invariants` then asserts that
  every power is positive, that they add up to 10 000 and that they are ordered
  as the stakes are.

  `set_voting_power` reads `validator::total_stake` of each validator and
  writes its `voting_power`; a validator is modelled by these two fields. An
  abort is an `Abort`: the four codes of the module, and the arithmetic and
  vector aborts of the Move VM. The `u64` overflows the code could abort on are
  not modelled: amounts are natural numbers.
-/
import Mathlib
import Mango.Lib.Rounding
import Mango.Lib.Except
import Mango.Lib.List

namespace Mango.Framework

open Mango.Lib

/-- `mgo::math::divide_and_round_up` (it aborts for `y = 0`, which its callers
    here rule out first). -/
def divideAndRoundUp (x y : Nat) : Nat :=
  if x % y = 0 then x / y else x / y + 1

section DivideAndRoundUp

variable {x y : Nat}

end DivideAndRoundUp

namespace VotingPower

/-- `TOTAL_VOTING_POWER`. -/
def totalVotingPower : Nat := 10000

/-- `QUORUM_THRESHOLD`. -/
def quorumThreshold : Nat := 6667

/-- `MAX_VOTING_POWER`. -/
def maxVotingPower : Nat := 1000

/-- Why `set_voting_power` aborts. -/
inductive Abort where
  | totalPowerMismatch
  | relativePowerMismatch
  | votingPowerOverThreshold
  | invalidVotingPower
  /-- A division by zero or a subtraction below zero. -/
  | arithmeticError
  /-- A vector index out of bounds. -/
  | indexOutOfBounds
  deriving DecidableEq, Repr

/-- A validator as `voting_power` sees it: `validator::total_stake` and the
    `voting_power` field. -/
structure VotingValidator where
  stake : Nat
  votingPower : Nat
  deriving DecidableEq, Repr

/-- `VotingPowerInfoV2`. -/
structure VotingPowerInfoV2 where
  validatorIndex : Nat
  votingPower : Nat
  stake : Nat
  deriving DecidableEq, Repr

/-- `total_stake`. -/
def totalStake (validators : List VotingValidator) : Nat :=
  (validators.map (·.stake)).sum

/-- The cap `set_voting_power` computes for `n` validators:
    `min(TOTAL_VOTING_POWER, max(MAX_VOTING_POWER, divide_and_round_up(TOTAL_VOTING_POWER, n)))`. -/
def threshold (n : Nat) : Nat :=
  min totalVotingPower (max maxVotingPower (divideAndRoundUp totalVotingPower n))

/-- `insert`: the loop skips the entries of larger stake and inserts before the
    first one whose stake is not larger. -/
def insert : List VotingPowerInfoV2 → VotingPowerInfoV2 → List VotingPowerInfoV2
  | [], newInfo => [newInfo]
  | info :: rest, newInfo =>
    if newInfo.stake < info.stake then info :: insert rest newInfo else newInfo :: info :: rest

/-- The power a validator of stake `stake` starts at: its share of
    `TOTAL_VOTING_POWER`, rounded down (the `u128` division), capped at `threshold`. -/
def initialPower (totalStake threshold stake : Nat) : Nat :=
  min (stake * totalVotingPower / totalStake) threshold

/-- `init_voting_power_info`: the initial powers in the order of stake
    descending, and what is left of `TOTAL_VOTING_POWER`. -/
def initVotingPowerInfo (validators : List VotingValidator) (threshold : Nat) :
    Except Abort (List VotingPowerInfoV2 × Nat) := do
  let totalStake := totalStake validators
  -- The division of the loop aborts on its first turn when the total is zero.
  if validators ≠ [] ∧ totalStake = 0 then throw .arithmeticError
  let (result, totalPower) := validators.zipIdx.foldl
    (fun (acc : List VotingPowerInfoV2 × Nat) (p : VotingValidator × Nat) =>
      let votingPower := initialPower totalStake threshold p.1.stake
      (insert acc.1 ⟨p.2, votingPower, p.1.stake⟩, acc.2 + votingPower)) ([], 0)
  if totalVotingPower < totalPower then throw .arithmeticError
  pure (result, totalVotingPower - totalPower)

/-- The loop of `adjust_voting_power`, over the entries from `i` on, so that
    `len - i` is the length of the list; it stops when nothing is left. -/
def adjustLoop (threshold : Nat) :
    List VotingPowerInfoV2 → Nat → Except Abort (List VotingPowerInfoV2 × Nat)
  | [], remainingPower => pure ([], remainingPower)
  | v :: rest, remainingPower =>
    if remainingPower = 0 then pure (v :: rest, 0)
    else do
      let planned := divideAndRoundUp remainingPower (rest.length + 1)
      let target := min threshold (v.votingPower + planned)
      if target < v.votingPower then throw .arithmeticError
      let actual := min remainingPower (target - v.votingPower)
      let v := { v with votingPower := v.votingPower + actual }
      if threshold < v.votingPower then throw .votingPowerOverThreshold
      let (rest, remainingPower) ← adjustLoop threshold rest (remainingPower - actual)
      pure (v :: rest, remainingPower)

/-- `adjust_voting_power`. -/
def adjustVotingPower (infoList : List VotingPowerInfoV2) (threshold remainingPower : Nat) :
    Except Abort (List VotingPowerInfoV2) := do
  let (infoList, remainingPower) ← adjustLoop threshold infoList remainingPower
  if remainingPower ≠ 0 then throw .totalPowerMismatch
  pure infoList

/-- `update_voting_power`: pop the entries from the back and write each power
    to the validator of its index. -/
def updateVotingPower (validators : List VotingValidator) (infoList : List VotingPowerInfoV2) :
    Except Abort (List VotingValidator) :=
  infoList.reverse.foldlM (fun validators info =>
    if info.validatorIndex < validators.length then
      pure (validators.modify info.validatorIndex fun v => { v with votingPower := info.votingPower })
    else throw .indexOutOfBounds) validators

/-- The order `check_invariants` asserts of two validators: the larger stake
    has no less voting power. -/
def PowerOrdered (a b : VotingValidator) : Prop :=
  (b.stake < a.stake → b.votingPower ≤ a.votingPower) ∧
    (a.stake < b.stake → a.votingPower ≤ b.votingPower)

instance (a b : VotingValidator) : Decidable (PowerOrdered a b) :=
  inferInstanceAs (Decidable (_ ∧ _))

/-- `check_invariants`: every power positive, then the total, then the order
    over every pair `a < b`. -/
def checkInvariants (validators : List VotingValidator) : Except Abort Unit := do
  if validators.any (·.votingPower = 0) then throw .invalidVotingPower
  if (validators.map (·.votingPower)).sum ≠ totalVotingPower then throw .totalPowerMismatch
  if ¬validators.Pairwise PowerOrdered then throw .relativePowerMismatch
  pure ()

/-- `set_voting_power`. -/
def setVotingPower (validators : List VotingValidator) : Except Abort (List VotingValidator) := do
  -- `divide_and_round_up(TOTAL_VOTING_POWER, 0)` aborts on an empty set.
  if validators = [] then throw .arithmeticError
  let threshold := threshold validators.length
  let (infoList, remainingPower) ← initVotingPowerInfo validators threshold
  let infoList ← adjustVotingPower infoList threshold remainingPower
  let validators ← updateVotingPower validators infoList
  checkInvariants validators
  pure validators

/-! ## The cap -/

theorem insert_perm (newInfo : VotingPowerInfoV2) :
    ∀ l : List VotingPowerInfoV2, (insert l newInfo).Perm (newInfo :: l)
  | [] => List.Perm.refl _
  | info :: rest => by
    unfold insert
    split
    · exact ((insert_perm newInfo rest).cons info).trans (List.Perm.swap newInfo info rest)
    · exact List.Perm.refl _

theorem mem_insert {newInfo x : VotingPowerInfoV2} {l : List VotingPowerInfoV2} :
    x ∈ insert l newInfo ↔ x = newInfo ∨ x ∈ l := by
  rw [(insert_perm newInfo l).mem_iff, List.mem_cons]

section Distribute

variable {threshold : Nat}

end Distribute

/-! ## `init_voting_power_info` -/

section Init

variable {totalStake threshold : Nat}

end Init

/-! ## `update_voting_power` -/

/-- The validator of index `i` after the powers of `infoList` are written: the
    power of the entry of its index, if there is one. -/
def updatedValidator (infoList : List VotingPowerInfoV2) (i : Nat) (v : VotingValidator) :
    VotingValidator :=
  match infoList.find? (·.validatorIndex == i) with
  | some info => { v with votingPower := info.votingPower }
  | none => v

@[simp] theorem updatedValidator_stake (infoList : List VotingPowerInfoV2) (i : Nat)
    (v : VotingValidator) : (updatedValidator infoList i v).stake = v.stake := by
  unfold updatedValidator
  split <;> rfl

section Update

end Update

/-! ## `set_voting_power` -/

theorem PowerOrdered.symm {a b : VotingValidator} (h : PowerOrdered a b) : PowerOrdered b a :=
  ⟨h.2, h.1⟩

theorem PowerOrdered.refl (a : VotingValidator) : PowerOrdered a a :=
  ⟨fun h => absurd h (lt_irrefl _), fun h => absurd h (lt_irrefl _)⟩

instance : Std.Symm PowerOrdered := ⟨fun _ _ h => h.symm⟩

/-- What `check_invariants` lets through: every power positive, the powers
    adding up to `TOTAL_VOTING_POWER`, ordered as the stakes are. -/
theorem checkInvariants_eq_ok {validators : List VotingValidator} (h : checkInvariants validators = .ok ()) :
    (∀ v ∈ validators, 0 < v.votingPower) ∧ (validators.map (·.votingPower)).sum = totalVotingPower ∧
      validators.Pairwise PowerOrdered := by
  unfold checkInvariants at h
  obtain ⟨hzero, h⟩ := Except.ite_throw_bind_eq_ok.mp h
  obtain ⟨hsum, h⟩ := Except.ite_throw_bind_eq_ok.mp h
  obtain ⟨hordered, -⟩ := Except.ite_throw_bind_eq_ok.mp h
  refine ⟨fun v hv => Nat.pos_of_ne_zero fun h0 => hzero ?_, not_not.mp hsum, not_not.mp hordered⟩
  exact List.any_eq_true.mpr ⟨v, hv, decide_eq_true h0⟩

/-- `update_voting_power` writes powers in place: one validator out for each in. -/
theorem updateVotingPower_length {validators out : List VotingValidator} {infoList : List VotingPowerInfoV2}
    (h : updateVotingPower validators infoList = .ok out) : out.length = validators.length := by
  refine foldlM_ok_inv (fun vs : List VotingValidator => vs.length = validators.length) _ _ _ _ rfl ?_ h
  intro info _ vs vs' hlen hstep
  split at hstep
  · rw [← Except.pure_eq_ok.mp hstep, List.length_modify, hlen]
  · exact absurd hstep Except.throw_ne_ok

/-- **Whatever `set_voting_power` returns passed `check_invariants`**, one
    validator for each it was given. -/
theorem setVotingPower_eq_ok {validators out : List VotingValidator} (h : setVotingPower validators = .ok out) :
    out.length = validators.length ∧ checkInvariants out = .ok () := by
  unfold setVotingPower at h
  obtain ⟨-, h⟩ := Except.ite_throw_bind_eq_ok.mp h
  obtain ⟨⟨infoList, remainingPower⟩, -, h⟩ := Except.bind_eq_ok.mp h
  dsimp only at h
  obtain ⟨adjusted, -, h⟩ := Except.bind_eq_ok.mp h
  obtain ⟨updated, hupdated, h⟩ := Except.bind_eq_ok.mp h
  obtain ⟨u, hcheck, h⟩ := Except.bind_eq_ok.mp h
  cases Except.pure_eq_ok.mp h
  exact ⟨updateVotingPower_length hupdated, hcheck⟩

-- `test_small_validator_sets` and `test_medium_validator_sets`.
example : setVotingPower [⟨1, 0⟩, ⟨1, 0⟩, ⟨2, 0⟩] = .ok [⟨1, 3333⟩, ⟨1, 3333⟩, ⟨2, 3334⟩] := by
  rfl

example : setVotingPower [⟨10000, 0⟩, ⟨10001, 0⟩, ⟨10000, 0⟩] =
    .ok [⟨10000, 3333⟩, ⟨10001, 3334⟩, ⟨10000, 3333⟩] := by
  rfl

example : (setVotingPower ((List.range 11).map fun i => ⟨i + 1, 0⟩)).map (·.map (·.votingPower)) =
    .ok [522, 674, 826, 978, 1000, 1000, 1000, 1000, 1000, 1000, 1000] := by
  rfl

-- Below one part in `TOTAL_VOTING_POWER` of the stake, which no caller passes,
-- a validator can be left at power zero: ten validators of stake 1000 and one
-- of stake 1 start at 999 each and 0, for a cap of 1000; the ten left over go
-- one each to the first ten, and `check_invariants` rejects the last one with
-- `EInvalidVotingPower`.
example : setVotingPower (List.replicate 10 ⟨1000, 0⟩ ++ [⟨1, 0⟩]) = .error .invalidVotingPower := by
  rfl

end VotingPower

end Mango.Framework
