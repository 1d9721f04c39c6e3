/-
  Mango.Framework.TransferPolicy

  `mgo::transfer_policy` (`mgo-framework/sources/kiosk/transfer_policy.move`):
  the rules the publisher of a type sets for its trades, and the confirmation
  of the `TransferRequest` that a kiosk sale hands out and that no transaction
  can end holding.

  A policy holds a balance, the set `rules` of the witness types of its rules,
  and for each rule a dynamic field `RuleKey<Rule>` with the rule's
  configuration. A rule is its witness type's `TypeName`, here a value of a
  type `Rule`; a configuration, of whatever type the rule chooses, is a value
  of a type `Cfg` that the policy stores and never reads. A request carries
  the item, the amount paid, the kiosk it comes from and the set of receipts
  of the rules that approved it. Only a rule's own module can build its
  witness, so `add_receipt` and `add_to_balance` take the rule as a value
  here. The publisher check of `new` is its result, `fromPackage`. Coins are
  their values, and events are not modelled.

  `confirm_request` accepts a request exactly when its receipts are the
  policy's rules (`confirmRequest_eq_ok_iff`): the sizes agree and the loop
  finds every receipt among the rules, which for two sets of distinct keys
  is equality. A request built by `new_request` and given receipts one by
  one is confirmed exactly when each rule of the policy, and no other, added
  its receipt once (`confirm_new_request_iff`). Along every run of the
  policy's calls the rule set and the rule fields agree (`synced_run`), so
  `add_to_balance` is open exactly to the rules in the set, and the balance
  grows by what the rules added and shrinks by what was withdrawn
  (`policy_balance_run`). Only the holder of the policy's cap changes its
  rules (`rules_run_without_cap`).
-/
import Mango.Core.Object
import Mango.Lib.Except
import Mango.Lib.VecMap
import Mango.Lib.VecSet

namespace Mango.Framework

open Mango.Core Mango.Lib

namespace TransferPolicy

/-- Why a call aborts: the module's codes, then those of the modules it calls. -/
inductive Abort where
  /-- `EPolicyNotSatisfied`; `new` aborts with the same code 0 when the
      publisher is not `T`'s. -/
  | policyNotSatisfied
  /-- `EIllegalRule`. -/
  | illegalRule
  /-- `EUnknownRequrement`. -/
  | unknownRequirement
  /-- `ERuleAlreadySet`. -/
  | ruleAlreadySet
  /-- `ENotOwner`. -/
  | notOwner
  /-- `ENotEnough`. -/
  | notEnough
  /-- `dynamic_field::EFieldAlreadyExists`. -/
  | fieldAlreadyExists
  /-- `dynamic_field::EFieldDoesNotExist`. -/
  | fieldDoesNotExist
  /-- `vec_set::EKeyAlreadyExists`. -/
  | keyAlreadyExists
  /-- `vec_set::EKeyDoesNotExist`. -/
  | keyDoesNotExist
  /-- `vector::pop_back` of an empty vector. -/
  | indexOutOfBounds
  /-- `balance::ENotEnough`, from `balance::split`. -/
  | balanceNotEnough
  /-- A `u64` operation out of range. -/
  | arithmeticError
  deriving DecidableEq, Repr

/-- `TransferRequest<T>`. -/
structure TransferRequest (Rule : Type) where
  item : Nat
  paid : Nat
  from_ : Nat
  receipts : VecSet Rule

/-- `TransferPolicyCap<T>`, by the policy it is for. -/
structure TransferPolicyCap where
  policyId : Nat
  deriving DecidableEq, Repr

end TransferPolicy

open TransferPolicy

/-- `TransferPolicy<T>`, with its rule fields. -/
structure TransferPolicy (Rule Cfg : Type) where
  id : Nat
  /-- The value of `balance: Balance<MGO>`. -/
  balance : Nat
  rules : VecSet Rule
  /-- The dynamic fields `RuleKey<Rule>`, each with its rule's configuration. -/
  configs : VecMap Rule Cfg

namespace TransferPolicy

variable {Rule Cfg : Type} [DecidableEq Rule]

-- ============================================================================
-- Move's primitives
-- ============================================================================

/-- `assert!`. -/
def assert (cond : Bool) (code : Abort) : Except Abort Unit :=
  if cond then pure () else throw code

/-- A primitive that aborts where the map or set operation finds no room or no key. -/
def orAbort {α : Type} (r : Option α) (code : Abort) : Except Abort α :=
  match r with
  | some a => pure a
  | none => throw code

/-- `dynamic_field::add`. -/
def fieldAdd (fields : VecMap Rule Cfg) (k : Rule) (v : Cfg) : Except Abort (VecMap Rule Cfg) :=
  orAbort (fields.insert k v) .fieldAlreadyExists

/-- `dynamic_field::remove`: the value and the fields without it. -/
def fieldRemove (fields : VecMap Rule Cfg) (k : Rule) : Except Abort (Cfg × VecMap Rule Cfg) :=
  orAbort (fields.remove k) .fieldDoesNotExist

/-- `dynamic_field::borrow`. -/
def fieldBorrow (fields : VecMap Rule Cfg) (k : Rule) : Except Abort Cfg :=
  orAbort (fields.get k) .fieldDoesNotExist

/-- `vec_set::insert`. -/
def setInsert (s : VecSet Rule) (k : Rule) : Except Abort (VecSet Rule) :=
  orAbort (s.insert k) .keyAlreadyExists

/-- `vec_set::remove`. -/
def setRemove (s : VecSet Rule) (k : Rule) : Except Abort (VecSet Rule) :=
  orAbort (s.remove k) .keyDoesNotExist

/-- `vector::pop_back`: the last element and the vector without it. -/
def popBack (v : List Rule) : Except Abort (Rule × List Rule) :=
  orAbort (v.getLast?.map fun e => (e, v.dropLast)) .indexOutOfBounds

-- ============================================================================
-- The calls
-- ============================================================================

/-- `new_request`: no receipts yet. -/
def newRequest (item paid from_ : Nat) : TransferRequest Rule := ⟨item, paid, from_, VecSet.empty⟩

/-- `new`: the policy, with its `UID`, and its cap. -/
def new (fromPackage : Bool) (id : Nat) : Except Abort (TransferPolicy Rule Cfg × TransferPolicyCap) := do
  assert fromPackage .policyNotSatisfied
  pure (⟨id, 0, VecSet.empty, VecMap.empty⟩, ⟨id⟩)

/-- `withdraw`: a coin of the amount asked, or of the whole balance. -/
def withdraw (self : TransferPolicy Rule Cfg) (cap : TransferPolicyCap) (amount : Option Nat) :
    Except Abort (TransferPolicy Rule Cfg × Nat) := do
  assert (self.id == cap.policyId) .notOwner
  let amount ← match amount with
    | some amt => do
      assert (decide (amt ≤ self.balance)) .notEnough
      pure amt
    | none => pure self.balance
  -- `coin::take` splits the balance, which asserts the amount is there
  assert (decide (self.balance ≥ amount)) .balanceNotEnough
  pure ({ self with balance := self.balance - amount }, amount)

/-- `destroy_and_withdraw`: the balance; the policy and the cap are deleted. -/
def destroyAndWithdraw (self : TransferPolicy Rule Cfg) (cap : TransferPolicyCap) : Except Abort Nat := do
  assert (self.id == cap.policyId) .notOwner
  pure self.balance

/-- The loop of `confirm_request`, with `total` receipts left: each one popped
    from the back must be a rule. -/
def confirmLoop (rules : VecSet Rule) : List Rule → Nat → Except Abort Unit
  | _, 0 => pure ()
  | completed, total + 1 => do
    let (ruleType, completed) ← popBack completed
    assert (rules.contains ruleType) .illegalRule
    confirmLoop rules completed total

/-- `confirm_request`: the item, the amount paid and the kiosk it comes from. -/
def confirmRequest (self : TransferPolicy Rule Cfg) (request : TransferRequest Rule) :
    Except Abort (Nat × Nat × Nat) := do
  let completed := request.receipts.intoKeys
  let total := completed.length
  assert (total == self.rules.size) .policyNotSatisfied
  confirmLoop self.rules completed total
  pure (request.item, request.paid, request.from_)

/-- `has_rule`: the rule's field is there. -/
def hasRule (self : TransferPolicy Rule Cfg) (rule : Rule) : Bool := self.configs.contains rule

/-- `add_rule`. -/
def addRule (self : TransferPolicy Rule Cfg) (cap : TransferPolicyCap) (rule : Rule) (cfg : Cfg) :
    Except Abort (TransferPolicy Rule Cfg) := do
  assert (self.id == cap.policyId) .notOwner
  assert (!self.hasRule rule) .ruleAlreadySet
  let configs ← fieldAdd self.configs rule cfg
  let rules ← setInsert self.rules rule
  pure { self with configs, rules }

/-- `get_rule`. -/
def getRule (self : TransferPolicy Rule Cfg) (rule : Rule) : Except Abort Cfg :=
  fieldBorrow self.configs rule

/-- `add_to_balance`: `coin::put` joins the coin, which aborts past `u64::MAX`. -/
def addToBalance (self : TransferPolicy Rule Cfg) (rule : Rule) (coin : Nat) :
    Except Abort (TransferPolicy Rule Cfg) := do
  assert (self.hasRule rule) .unknownRequirement
  if u64Max < self.balance + coin then throw .arithmeticError
  pure { self with balance := self.balance + coin }

/-- `add_receipt`. -/
def addReceipt (request : TransferRequest Rule) (rule : Rule) : Except Abort (TransferRequest Rule) := do
  let receipts ← setInsert request.receipts rule
  pure { request with receipts }

/-- `remove_rule`. -/
def removeRule (self : TransferPolicy Rule Cfg) (cap : TransferPolicyCap) (rule : Rule) :
    Except Abort (TransferPolicy Rule Cfg) := do
  assert (self.id == cap.policyId) .notOwner
  let (_, configs) ← fieldRemove self.configs rule
  let rules ← setRemove self.rules rule
  pure { self with configs, rules }

/-- `uid_mut_as_owner`: its check. -/
def uidMutAsOwner (self : TransferPolicy Rule Cfg) (cap : TransferPolicyCap) : Except Abort Unit :=
  assert (self.id == cap.policyId) .notOwner


-- ============================================================================
-- Move's primitives, inverted
-- ============================================================================

@[simp] theorem assert_eq_ok {c : Bool} {e : Abort} {u : Unit} : assert c e = .ok u ↔ c = true := by
  cases c <;> simp [assert]

@[simp] theorem orAbort_eq_ok {α : Type} {r : Option α} {code : Abort} {a : α} :
    orAbort r code = .ok a ↔ r = some a := by
  cases r <;> simp [orAbort]

omit [DecidableEq Rule] in
/-- `pop_back` of a vector that is not empty. -/
theorem popBack_of_ne_nil {v : List Rule} (h : v ≠ []) : popBack v = .ok (v.getLast h, v.dropLast) := by
  simp [popBack, orAbort, List.getLast?_eq_some_getLast h]

/-- The loop of `confirm_request` goes through exactly when every receipt is a rule. -/
theorem confirmLoop_eq_ok (rules : VecSet Rule) :
    ∀ (n : Nat) (completed : List Rule), completed.length = n →
      (confirmLoop rules completed n = .ok () ↔ ∀ r ∈ completed, r ∈ rules.contents) := by
  intro n
  induction n with
  | zero =>
    intro completed hlen
    rw [List.length_eq_zero_iff.mp hlen]
    simp [confirmLoop]
  | succ n ih =>
    intro completed hlen
    -- the receipt popped is the last one, and the loop goes on with the others
    have hne : completed ≠ [] := fun h => by simp [h] at hlen
    have hsplit : completed = completed.dropLast ++ [completed.getLast hne] :=
      (List.dropLast_append_getLast hne).symm
    have hrest : completed.dropLast.length = n := by
      rw [List.length_dropLast, hlen]
      rfl
    rw [confirmLoop, popBack_of_ne_nil hne, Except.ok_bind, Except.bind_eq_ok]
    simp only [assert_eq_ok, VecSet.contains_iff, exists_const, ih _ hrest]
    conv_rhs => rw [hsplit]
    simp only [List.mem_append, List.mem_singleton]
    constructor
    · rintro ⟨hlast, hothers⟩ r (hr | rfl)
      · exact hothers r hr
      · exact hlast
    · intro h
      exact ⟨h _ (.inr rfl), fun r hr => h r (.inl hr)⟩

/-- `confirm_request` accepts a request exactly when its receipts are the
    policy's rules, and hands back the item, the amount paid and the kiosk. -/
theorem confirmRequest_eq_ok_iff {self : TransferPolicy Rule Cfg} {request : TransferRequest Rule}
    {r : Nat × Nat × Nat} :
    self.confirmRequest request = .ok r ↔
      (∀ rule, rule ∈ request.receipts.contents ↔ rule ∈ self.rules.contents) ∧
        r = (request.item, request.paid, request.from_) := by
  have hloop := confirmLoop_eq_ok self.rules _ request.receipts.intoKeys rfl
  unfold confirmRequest
  constructor
  · intro h
    obtain ⟨_, hsize, h⟩ := Except.bind_eq_ok.mp h
    obtain ⟨_, hok, h⟩ := Except.bind_eq_ok.mp h
    rw [assert_eq_ok, beq_iff_eq] at hsize
    -- receipts, all rules, as many as the rules, are the rules
    exact ⟨VecSet.mem_iff_of_subset (hloop.mp hok) (le_of_eq hsize.symm), (Except.pure_eq_ok.mp h).symm⟩
  · rintro ⟨hmem, rfl⟩
    have hsize : request.receipts.intoKeys.length = self.rules.size := VecSet.size_eq_of_mem_iff hmem
    have hok := hloop.mpr fun rule hr => (hmem rule).mp hr
    have hassert : assert (request.receipts.intoKeys.length == self.rules.size) .policyNotSatisfied = .ok () :=
      assert_eq_ok.mpr (beq_iff_eq.mpr hsize)
    dsimp only
    rw [hassert, Except.ok_bind, hok, Except.ok_bind]
    rfl


-- ============================================================================
-- Receipts
-- ============================================================================

theorem addReceipt_eq_ok {request request' : TransferRequest Rule} {rule : Rule} :
    addReceipt request rule = .ok request' ↔
      ∃ s, request.receipts.insert rule = some s ∧ request' = { request with receipts := s } := by
  unfold addReceipt setInsert
  rw [Except.bind_eq_ok]
  simp only [orAbort_eq_ok, Except.pure_eq_ok]
  exact exists_congr fun s => and_congr_right fun _ => eq_comm

/-- Adding receipts one by one goes through exactly when no receipt comes
    twice, and appends them. -/
theorem foldlM_addReceipt_eq_ok : ∀ {rs : List Rule} {request request' : TransferRequest Rule},
    rs.foldlM addReceipt request = .ok request' ↔ (request.receipts.contents ++ rs).Nodup ∧
      ∃ s : VecSet Rule, s.contents = request.receipts.contents ++ rs ∧ request' = { request with receipts := s } := by
  intro rs
  induction rs with
  | nil =>
    intro request request'
    simp only [List.foldlM_nil, Except.pure_eq_ok, List.append_nil, request.receipts.nodup, true_and]
    constructor
    · rintro rfl
      exact ⟨request.receipts, rfl, rfl⟩
    · rintro ⟨s, hs, rfl⟩
      rw [VecSet.ext hs]
  | cons r rs ih =>
    intro request request'
    rw [List.foldlM_cons, Except.bind_eq_ok]
    constructor
    · rintro ⟨req, hadd, hfold⟩
      obtain ⟨s1, hins, rfl⟩ := addReceipt_eq_ok.mp hadd
      obtain ⟨hnodup, s, hs, rfl⟩ := ih.mp hfold
      have hs1 := (VecSet.insert_eq_some_iff.mp hins).2
      simp only [hs1, List.append_assoc, List.singleton_append] at hnodup hs
      exact ⟨hnodup, s, hs, rfl⟩
    · rintro ⟨hnodup, s, hs, rfl⟩
      -- the first receipt is new, so its insertion goes through
      have hr : r ∉ request.receipts.contents := fun hm =>
        (List.nodup_append.mp hnodup).2.2 r hm r List.mem_cons_self rfl
      obtain ⟨s1, hins⟩ := Option.ne_none_iff_exists'.mp (mt VecSet.insert_eq_none_iff.mp hr)
      have hs1 := (VecSet.insert_eq_some_iff.mp hins).2
      refine ⟨{ request with receipts := s1 }, addReceipt_eq_ok.mpr ⟨s1, hins, rfl⟩, ih.mpr ?_⟩
      simp only [hs1, List.append_assoc, List.singleton_append]
      exact ⟨hnodup, s, hs, rfl⟩

/-- A request that `new_request` builds and to which receipts are added one by
    one is confirmed exactly when each rule of the policy, and no other, added
    its receipt once; the sale then goes through with the item, the amount
    paid and the kiosk of the request. -/
theorem confirm_new_request_iff {self : TransferPolicy Rule Cfg} {item paid from_ : Nat} {rs : List Rule}
    {r : Nat × Nat × Nat} :
    (rs.foldlM addReceipt (newRequest item paid from_) >>= self.confirmRequest) = .ok r ↔
      rs.Nodup ∧ (∀ rule, rule ∈ rs ↔ rule ∈ self.rules.contents) ∧ r = (item, paid, from_) := by
  rw [Except.bind_eq_ok]
  constructor
  · rintro ⟨request, hfold, hconfirm⟩
    obtain ⟨hnodup, s, hs, rfl⟩ := foldlM_addReceipt_eq_ok.mp hfold
    obtain ⟨hmem, rfl⟩ := confirmRequest_eq_ok_iff.mp hconfirm
    simp only [newRequest, VecSet.empty, List.nil_append] at hnodup hs
    exact ⟨hnodup, fun rule => by rw [← hs]; exact hmem rule, rfl⟩
  · rintro ⟨hnodup, hmem, rfl⟩
    -- the receipts added are a set of distinct keys, the policy's rules
    refine ⟨{ newRequest item paid from_ with receipts := ⟨rs, hnodup⟩ },
      foldlM_addReceipt_eq_ok.mpr ⟨hnodup, ⟨rs, hnodup⟩, rfl, rfl⟩, confirmRequest_eq_ok_iff.mpr ⟨hmem, rfl⟩⟩


-- ============================================================================
-- What each call that changes the policy does
-- ============================================================================

section Calls

variable {self self' : TransferPolicy Rule Cfg} {cap : TransferPolicyCap}

omit [DecidableEq Rule] in
theorem withdraw_eq_ok {amount : Option Nat} {coin : Nat} (h : self.withdraw cap amount = .ok (self', coin)) :
    self.id = cap.policyId ∧ coin ≤ self.balance ∧ self' = { self with balance := self.balance - coin } := by
  unfold withdraw at h
  obtain ⟨_, hid, h⟩ := Except.bind_eq_ok.mp h
  rw [assert_eq_ok, beq_iff_eq] at hid
  -- whichever amount is taken, `coin::take` checks that the balance holds it
  have htake : ∀ amt, (assert (decide (self.balance ≥ amt)) .balanceNotEnough >>= fun _ =>
      pure ({ self with balance := self.balance - amt }, amt)) = Except.ok (self', coin) →
      coin ≤ self.balance ∧ self' = { self with balance := self.balance - coin } := by
    intro amt h
    obtain ⟨_, hle, h⟩ := Except.bind_eq_ok.mp h
    obtain ⟨rfl, rfl⟩ := Prod.mk.inj (Except.pure_eq_ok.mp h).symm
    rw [assert_eq_ok, decide_eq_true_eq] at hle
    exact ⟨hle, rfl⟩
  dsimp only at h
  cases amount with
  | some amt =>
    obtain ⟨_, -, h⟩ := Except.bind_eq_ok.mp h
    exact ⟨hid, htake amt h⟩
  | none => exact ⟨hid, htake _ h⟩

theorem addRule_eq_ok {rule : Rule} {cfg : Cfg} (h : self.addRule cap rule cfg = .ok self') :
    self.id = cap.policyId ∧ ∃ configs rules, self.configs.insert rule cfg = some configs ∧
      self.rules.insert rule = some rules ∧ self' = { self with configs, rules } := by
  unfold addRule at h
  obtain ⟨_, hid, h⟩ := Except.bind_eq_ok.mp h
  obtain ⟨_, -, h⟩ := Except.bind_eq_ok.mp h
  obtain ⟨configs, hconfigs, h⟩ := Except.bind_eq_ok.mp h
  obtain ⟨rules, hrules, h⟩ := Except.bind_eq_ok.mp h
  rw [assert_eq_ok, beq_iff_eq] at hid
  exact ⟨hid, configs, rules, orAbort_eq_ok.mp hconfigs, orAbort_eq_ok.mp hrules, (Except.pure_eq_ok.mp h).symm⟩

theorem addToBalance_eq_ok {rule : Rule} {coin : Nat} (h : self.addToBalance rule coin = .ok self') :
    self.hasRule rule = true ∧ self.balance + coin ≤ u64Max ∧ self' = { self with balance := self.balance + coin } := by
  unfold addToBalance at h
  obtain ⟨_, hrule, h⟩ := Except.bind_eq_ok.mp h
  rw [assert_eq_ok] at hrule
  by_cases hover : u64Max < self.balance + coin
  · simp [hover] at h
  · rw [if_neg hover] at h
    exact ⟨hrule, by omega, (Except.pure_eq_ok.mp h).symm⟩

theorem removeRule_eq_ok {rule : Rule} (h : self.removeRule cap rule = .ok self') :
    self.id = cap.policyId ∧ ∃ cfg configs rules, self.configs.remove rule = some (cfg, configs) ∧
      self.rules.remove rule = some rules ∧ self' = { self with configs, rules } := by
  unfold removeRule at h
  obtain ⟨_, hid, h⟩ := Except.bind_eq_ok.mp h
  obtain ⟨⟨cfg, configs⟩, hconfigs, h⟩ := Except.bind_eq_ok.mp h
  obtain ⟨rules, hrules, h⟩ := Except.bind_eq_ok.mp h
  rw [assert_eq_ok, beq_iff_eq] at hid
  exact ⟨hid, cfg, configs, rules, orAbort_eq_ok.mp hconfigs, orAbort_eq_ok.mp hrules, (Except.pure_eq_ok.mp h).symm⟩

end Calls

-- ============================================================================
-- Runs of a policy
-- ============================================================================

/-- The calls that change a policy. -/
inductive Call (Rule Cfg : Type) where
  | withdraw (cap : TransferPolicyCap) (amount : Option Nat)
  | addRule (cap : TransferPolicyCap) (rule : Rule) (cfg : Cfg)
  | addToBalance (rule : Rule) (coin : Nat)
  | removeRule (cap : TransferPolicyCap) (rule : Rule)

/-- The `TransferPolicyCap` a call presents. -/
def Call.cap : Call Rule Cfg → Option TransferPolicyCap
  | .withdraw cap _ | .addRule cap _ _ | .removeRule cap _ => some cap
  | .addToBalance .. => none

/-- What a call adds to the balance. -/
def Call.added : Call Rule Cfg → Nat
  | .addToBalance _ coin => coin
  | _ => 0

/-- One call, with the value of the coin it hands out. -/
def step (self : TransferPolicy Rule Cfg) : Call Rule Cfg → Except Abort (TransferPolicy Rule Cfg × Nat)
  | .withdraw cap amount => self.withdraw cap amount
  | .addRule cap rule cfg => do
    let self ← self.addRule cap rule cfg
    pure (self, 0)
  | .addToBalance rule coin => do
    let self ← self.addToBalance rule coin
    pure (self, 0)
  | .removeRule cap rule => do
    let self ← self.removeRule cap rule
    pure (self, 0)

/-- Calls one after another, each in a transaction of its own: a call that
    aborts leaves the policy as it was. The log lists each call that went
    through, with the coin it handed out. -/
def run (self : TransferPolicy Rule Cfg) : List (Call Rule Cfg) →
    TransferPolicy Rule Cfg × List (Call Rule Cfg × Nat)
  | [] => (self, [])
  | c :: cs =>
    match self.step c with
    | .ok (self', coin) => ((self'.run cs).1, (c, coin) :: (self'.run cs).2)
    | .error _ => self.run cs

omit [DecidableEq Rule] in
/-- The calls but `withdraw` hand out no coin: their step is the call's own result. -/
theorem bind_pure_eq_ok {r : Except Abort (TransferPolicy Rule Cfg)} {self' : TransferPolicy Rule Cfg} {coin : Nat}
    (h : (r >>= fun self => pure (self, 0)) = .ok (self', coin)) : r = .ok self' ∧ coin = 0 := by
  obtain ⟨self'', hk, h⟩ := Except.bind_eq_ok.mp h
  obtain ⟨rfl, rfl⟩ := Prod.mk.inj (Except.pure_eq_ok.mp h).symm
  exact ⟨hk, rfl⟩

section Runs

variable (S : Call Rule Cfg → Prop) (P : TransferPolicy Rule Cfg → List (Call Rule Cfg × Nat) → Prop)

/-- What every call allowed by `S` keeps, with the call and its coin appended
    to the log, a run of such calls keeps. -/
theorem run_preserves
    (hstep : ∀ {self self' : TransferPolicy Rule Cfg} {c coin log}, S c → P self log →
      self.step c = .ok (self', coin) → P self' (log ++ [(c, coin)])) :
    ∀ (cs : List (Call Rule Cfg)) (self : TransferPolicy Rule Cfg) (log : List (Call Rule Cfg × Nat)),
      (∀ c ∈ cs, S c) → P self log → P (self.run cs).1 (log ++ (self.run cs).2) := by
  intro cs
  induction cs with
  | nil =>
    intro self log _ hp
    simpa [run] using hp
  | cons c cs ih =>
    intro self log hS hp
    have hS' := fun c' hc' => hS c' (List.mem_cons_of_mem c hc')
    unfold run
    split
    · rename_i self' coin hs
      simpa using ih self' (log ++ [(c, coin)]) hS' (hstep (hS c List.mem_cons_self) hp hs)
    · exact ih self log hS' hp

end Runs

/-- The rule set and the rule fields agree. -/
def Synced (self : TransferPolicy Rule Cfg) : Prop := ∀ rule, rule ∈ self.rules.contents ↔ rule ∈ self.configs.keys

section Synced

variable {self self' : TransferPolicy Rule Cfg} {c : Call Rule Cfg} {coin : Nat}

/-- In a synced policy `has_rule` is membership in the rule set. -/
theorem Synced.hasRule_iff (h : Synced self) {rule : Rule} : self.hasRule rule = true ↔ rule ∈ self.rules.contents := by
  rw [h rule, hasRule, VecMap.contains_iff]
  rfl

/-- Every call keeps the rule set and the rule fields in step. -/
theorem Synced.step (h : Synced self) (hs : self.step c = .ok (self', coin)) : Synced self' := by
  cases c with
  | withdraw cap amount =>
    obtain ⟨-, -, rfl⟩ := withdraw_eq_ok hs
    exact h
  | addRule cap rule cfg =>
    obtain ⟨hk, rfl⟩ := bind_pure_eq_ok hs
    obtain ⟨-, configs, rules, hconfigs, hrules, rfl⟩ := addRule_eq_ok hk
    -- both gain the rule
    intro r
    rw [VecSet.mem_of_insert hrules, VecMap.mem_keys_of_insert hconfigs, h r]
  | addToBalance rule coin =>
    obtain ⟨hk, rfl⟩ := bind_pure_eq_ok hs
    obtain ⟨-, -, rfl⟩ := addToBalance_eq_ok hk
    exact h
  | removeRule cap rule =>
    obtain ⟨hk, rfl⟩ := bind_pure_eq_ok hs
    obtain ⟨-, cfg, configs, rules, hconfigs, hrules, rfl⟩ := removeRule_eq_ok hk
    -- both lose the rule
    intro r
    rw [VecSet.mem_of_remove hrules, VecMap.mem_keys_of_remove hconfigs, h r]

omit [DecidableEq Rule] in
theorem Synced.new {fromPackage : Bool} {id : Nat} {cap : TransferPolicyCap}
    (h : (new fromPackage id : Except Abort (TransferPolicy Rule Cfg × TransferPolicyCap)) = .ok (self, cap)) :
    Synced self := by
  unfold TransferPolicy.new at h
  obtain ⟨_, -, h⟩ := Except.bind_eq_ok.mp h
  obtain ⟨rfl, -⟩ := Prod.mk.inj (Except.pure_eq_ok.mp h).symm
  intro r
  exact ⟨fun hr => (by cases hr), fun hr => (by cases hr)⟩

end Synced

/-- Along every run of a policy that `new` made, the rule set and the rule
    fields agree: `add_to_balance` is open exactly to the rules in the set,
    the rules whose receipts `confirm_request` asks for. -/
theorem synced_run {fromPackage : Bool} {id : Nat} {self : TransferPolicy Rule Cfg} {cap : TransferPolicyCap}
    (hnew : new fromPackage id = .ok (self, cap)) (cs : List (Call Rule Cfg)) :
    ∀ rule, (self.run cs).1.hasRule rule = true ↔ rule ∈ (self.run cs).1.rules.contents := by
  have hrun := run_preserves (fun _ => True) (fun self _ => Synced self) (fun _ hp hs => Synced.step hp hs)
    cs self [] (fun _ _ => trivial) (Synced.new hnew)
  exact fun _ => Synced.hasRule_iff hrun

theorem synced_run_new :
    (new true 3 : Except Abort (TransferPolicy Nat Unit × TransferPolicyCap)) =
        .ok (⟨3, 0, VecSet.empty, VecMap.empty⟩, ⟨3⟩) ∧
      ∀ rule, ((⟨3, 0, VecSet.empty, VecMap.empty⟩ : TransferPolicy Nat Unit).run
        [.addRule ⟨3⟩ 1 (), .addRule ⟨3⟩ 2 (), .removeRule ⟨3⟩ 1]).1.hasRule rule = true ↔
        rule ∈ ((⟨3, 0, VecSet.empty, VecMap.empty⟩ : TransferPolicy Nat Unit).run
          [.addRule ⟨3⟩ 1 (), .addRule ⟨3⟩ 2 (), .removeRule ⟨3⟩ 1]).1.rules.contents :=
  ⟨rfl, @synced_run Nat Unit _ true 3 _ _ rfl _⟩

/-- A call adds to the balance what the rule paid in, and takes from it the coin it hands out. -/
theorem step_balance {self self' : TransferPolicy Rule Cfg} {c : Call Rule Cfg} {coin : Nat}
    (hs : self.step c = .ok (self', coin)) : self'.balance + coin = self.balance + c.added := by
  cases c with
  | withdraw cap amount =>
    obtain ⟨-, hle, rfl⟩ := withdraw_eq_ok hs
    simp only [Call.added]
    omega
  | addRule cap rule cfg =>
    obtain ⟨hk, rfl⟩ := bind_pure_eq_ok hs
    obtain ⟨-, configs, rules, -, -, rfl⟩ := addRule_eq_ok hk
    rfl
  | addToBalance rule coin' =>
    obtain ⟨hk, rfl⟩ := bind_pure_eq_ok hs
    obtain ⟨-, -, rfl⟩ := addToBalance_eq_ok hk
    rfl
  | removeRule cap rule =>
    obtain ⟨hk, rfl⟩ := bind_pure_eq_ok hs
    obtain ⟨-, cfg, configs, rules, -, -, rfl⟩ := removeRule_eq_ok hk
    rfl

/-- The policy's balance is conserved: after a run it holds what it held,
    plus what the rules added, less the coins withdrawn. -/
theorem policy_balance_run (self : TransferPolicy Rule Cfg) (cs : List (Call Rule Cfg)) :
    (self.run cs).1.balance + ((self.run cs).2.map fun p => p.2).sum =
      self.balance + ((self.run cs).2.map fun p => p.1.added).sum := by
  have hrun := run_preserves (fun _ => True)
    (fun self' log => self'.balance + (log.map fun p => p.2).sum = self.balance + (log.map fun p => p.1.added).sum)
    (fun _ hp hs => by
      have hstep := step_balance hs
      simp only [List.map_append, List.map_cons, List.map_nil, List.sum_append, List.sum_cons, List.sum_nil]
      omega)
    cs self [] (fun _ _ => trivial) (by simp)
  simpa using hrun

/-- A call that presents no cap of the policy goes through only as
    `add_to_balance`, which leaves the rules and hands out no coin. -/
theorem step_without_cap {self self' : TransferPolicy Rule Cfg} {c : Call Rule Cfg} {coin : Nat}
    (hc : c.cap ≠ some ⟨self.id⟩) (hs : self.step c = .ok (self', coin)) :
    self'.id = self.id ∧ self'.rules = self.rules ∧ self'.configs = self.configs ∧ coin = 0 := by
  cases c with
  | withdraw cap amount =>
    obtain ⟨hcap, -, -⟩ := withdraw_eq_ok hs
    exact absurd (congrArg some (show cap = ⟨self.id⟩ by rw [hcap])) hc
  | addRule cap rule cfg =>
    obtain ⟨hk, -⟩ := bind_pure_eq_ok hs
    exact absurd (congrArg some (show cap = ⟨self.id⟩ by rw [(addRule_eq_ok hk).1])) hc
  | removeRule cap rule =>
    obtain ⟨hk, -⟩ := bind_pure_eq_ok hs
    exact absurd (congrArg some (show cap = ⟨self.id⟩ by rw [(removeRule_eq_ok hk).1])) hc
  | addToBalance rule coin' =>
    obtain ⟨hk, rfl⟩ := bind_pure_eq_ok hs
    obtain ⟨-, -, rfl⟩ := addToBalance_eq_ok hk
    exact ⟨rfl, rfl, rfl, rfl⟩

/-- Only the holder of the policy's cap changes its rules or takes from its
    balance: a run whose calls present no cap of the policy leaves the rules
    and their configurations as they were and hands out no coin. -/
theorem rules_run_without_cap (self : TransferPolicy Rule Cfg) (cs : List (Call Rule Cfg))
    (hS : ∀ c ∈ cs, c.cap ≠ some ⟨self.id⟩) :
    (self.run cs).1.rules = self.rules ∧ (self.run cs).1.configs = self.configs ∧
      ∀ p ∈ (self.run cs).2, p.2 = 0 := by
  have hrun := run_preserves (fun c : Call Rule Cfg => c.cap ≠ some ⟨self.id⟩)
    (fun self' log => self'.id = self.id ∧ self'.rules = self.rules ∧ self'.configs = self.configs ∧
      ∀ p ∈ log, p.2 = 0)
    (fun hc ⟨hid, hrules, hconfigs, hcoins⟩ hs => by
      rw [← hid] at hc
      obtain ⟨hid', hrules', hconfigs', rfl⟩ := step_without_cap hc hs
      refine ⟨hid'.trans hid, hrules'.trans hrules, hconfigs'.trans hconfigs, fun p hp => ?_⟩
      rcases List.mem_append.mp hp with hp | hp
      · exact hcoins p hp
      · rw [List.mem_singleton.mp hp])
    cs self [] hS ⟨rfl, rfl, rfl, fun _ hp => by cases hp⟩
  simp only [List.nil_append] at hrun
  exact ⟨hrun.2.1, hrun.2.2.1, hrun.2.2.2⟩

theorem rules_run_without_cap_foreign :
    (∀ c ∈ ([.addToBalance 1 5, .withdraw ⟨4⟩ none, .removeRule ⟨4⟩ 1] : List (Call Nat Unit)),
      c.cap ≠ some ⟨3⟩) ∧
      ((⟨3, 0, ⟨[1], by decide⟩, ⟨[(1, ())], by decide⟩⟩ : TransferPolicy Nat Unit).run
        [.addToBalance 1 5, .withdraw ⟨4⟩ none, .removeRule ⟨4⟩ 1]).1.rules = ⟨[1], by decide⟩ :=
  ⟨by decide, (rules_run_without_cap _ _ (by decide)).1⟩

end TransferPolicy

end Mango.Framework
