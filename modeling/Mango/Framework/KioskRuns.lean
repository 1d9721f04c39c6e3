/-
  Mango.Framework.KioskRuns

  The kiosk across transactions (`mgo-framework/sources/kiosk/kiosk.move`).

  A kiosk's calls hand out values that outlive the call: a `PurchaseCap`,
  which has no `drop` or `copy` and is destroyed only by `purchase_with_cap`
  and `return_purchase_cap`, and a `Borrow`, a hot potato with no ability at
  all, which only `return_val` consumes and which no transaction can end
  holding. The world of one kiosk is the kiosk, the `PurchaseCap`s it issued
  that exist, the `Borrow`s not yet returned, and whether it has been closed
  (`close_and_withdraw` deletes it). A call that takes a cap or a `Borrow`
  takes one the caller holds; one that aborts fails its transaction, and a
  transaction that fails leaves the world as it was. Objects and coins come
  from outside and are not tracked: the world allows every call on any
  object, more runs than Move allows, so what holds of every run here holds
  of Move's. Calls of `kiosk_extension`, the only friend, reach the kiosk
  through `place_internal` and `lock_internal`, modelled as calls of their own.

  Every property is proved from one inversion of `step` (`step_spec`, what a
  call that goes through did) and one induction from calls to runs
  (`run_preserves_of_step`). `Inv` is what every call keeps (`Inv.step`): the
  item count is the number of items plus the borrows out, every listing is of
  an item, every lock is of an item or of one borrowed, no item is listed both
  ways, the caps of an item number one while it is listed exclusively and zero
  otherwise, and the item of a cap is in the kiosk with the cap's type. With no
  borrow out it is the kiosk's representation invariant, `RepInv`, which holds
  at every reachable world (`repInv_reachable`). A lock goes away only with a
  sale of its item and `take` refuses a locked one, so a locked item leaves
  only by a sale (`locked_item_leaves_by_sale`), and any item only by a sale
  or a `take` (`item_leaves_by_take_or_sale`). The profits are conserved
  (`balance_run`), and calls that do not present the owner's cap change
  nothing of the owner's but the profits, by what sales paid
  (`run_without_ownerCap`). A kiosk can be closed only when nothing is left in
  it or out of it (`closeAndWithdraw_leaves_nothing`), and the holder of a
  `PurchaseCap` can always return it or buy its item
  (`returnPurchaseCap_of_held`, `purchaseWithCap_of_held`).
-/
import Mango.Framework.Kiosk

namespace Mango.Framework

open Mango.Core Mango.Lib

namespace Kiosk

/-- The kiosk, the `PurchaseCap`s it issued that exist, the `Borrow`s not yet
    returned, and whether it was closed. -/
structure World (Ty : Type) where
  kiosk : Kiosk Ty
  caps : List (PurchaseCap Ty)
  borrows : List Borrow
  closed : Bool

/-- The public calls of the module, with what the caller hands them. -/
inductive Call (Ty : Type) where
  | closeAndWithdraw (cap : KioskOwnerCap)
  | setOwner (cap : KioskOwnerCap) (sender : Nat)
  | setOwnerCustom (cap : KioskOwnerCap) (owner : Nat)
  | place (cap : KioskOwnerCap) (item : Object Ty)
  | lock (cap : KioskOwnerCap) (item : Object Ty)
  | take (cap : KioskOwnerCap) (id : Nat) (ty : Ty)
  | list (cap : KioskOwnerCap) (id : Nat) (ty : Ty) (price : Nat)
  | placeAndList (cap : KioskOwnerCap) (item : Object Ty) (price : Nat)
  | delist (cap : KioskOwnerCap) (id : Nat) (ty : Ty)
  | purchase (id : Nat) (ty : Ty) (payment : Nat)
  | listWithPurchaseCap (cap : KioskOwnerCap) (id : Nat) (ty : Ty) (minPrice : Nat)
  | purchaseWithCap (purchaseCap : PurchaseCap Ty) (payment : Nat)
  | returnPurchaseCap (purchaseCap : PurchaseCap Ty)
  | withdraw (cap : KioskOwnerCap) (amount : Option Nat)
  | placeInternal (item : Object Ty)
  | lockInternal (item : Object Ty)
  | setAllowExtensions (cap : KioskOwnerCap) (allowExtensions : Bool)
  | uidMutAsOwner (cap : KioskOwnerCap)
  | uidMut
  | profitsMut (cap : KioskOwnerCap) (value : Nat)
  | borrow (cap : KioskOwnerCap) (id : Nat) (ty : Ty)
  | borrowMut (cap : KioskOwnerCap) (id : Nat) (ty : Ty)
  | borrowVal (cap : KioskOwnerCap) (id : Nat) (ty : Ty)
  | returnVal (item : Object Ty) (borrow : Borrow)

/-- What a call returns to its caller. -/
inductive Output (Ty : Type) where
  | none
  | coin (value : Nat)
  | item (item : Object Ty)
  | sale (item : Object Ty) (request : TransferRequest Ty)
  | purchaseCap (purchaseCap : PurchaseCap Ty)
  | borrowed (item : Object Ty) (borrow : Borrow)

/-- Why a call does not go through. -/
inductive Failure where
  /-- The kiosk's call aborts. -/
  | abort (e : Abort)
  /-- The caller holds no such `PurchaseCap` or `Borrow`. -/
  | notHeld
  /-- The kiosk was closed: there is no kiosk to call. -/
  | closed
  /-- The transaction ends with a `Borrow` not returned. -/
  | borrowOutstanding

variable {Ty : Type} [DecidableEq Ty]

/-- The `KioskOwnerCap` a call presents. -/
def Call.ownerCap : Call Ty → Option KioskOwnerCap
  | .closeAndWithdraw cap | .setOwner cap _ | .setOwnerCustom cap _ | .place cap _ | .lock cap _
  | .take cap _ _ | .list cap _ _ _ | .placeAndList cap _ _ | .delist cap _ _
  | .listWithPurchaseCap cap _ _ _ | .withdraw cap _ | .setAllowExtensions cap _ | .uidMutAsOwner cap
  | .profitsMut cap _ | .borrow cap _ _ | .borrowMut cap _ _ | .borrowVal cap _ _ => some cap
  | .purchase .. | .purchaseWithCap .. | .returnPurchaseCap _ | .placeInternal _ | .lockInternal _ | .uidMut
  | .returnVal .. => none

/-- What a sale paid, and nothing for any other output. -/
def Output.paid : Output Ty → Nat
  | .sale _ request => request.paid
  | _ => 0

/-- The value of the coin a call hands out, and nothing for any other output. -/
def Output.withdrawn : Output Ty → Nat
  | .coin value => value
  | _ => 0

/-- The item a sale hands out. -/
def Output.sold : Output Ty → Option Nat
  | .sale obj _ => some obj.id
  | _ => Option.none

/-- The item `take` hands out. -/
def Output.taken : Output Ty → Option Nat
  | .item obj => some obj.id
  | _ => Option.none

/-- `profits_mut`, the one call that sets the profits to anything. -/
def Call.isProfitsMut : Call Ty → Bool
  | .profitsMut .. => true
  | _ => false

namespace World

/-- The world after `new`. -/
def new (id sender : Nat) : World Ty := ⟨(Kiosk.new id sender).1, [], [], false⟩

/-- An abort of a kiosk call fails the call. -/
def lift {α : Type} (r : Except Abort α) : Except Failure α := r.mapError .abort

/-- A call that returns only the new kiosk. -/
def update (w : World Ty) (r : Except Abort (Kiosk Ty)) : Except Failure (World Ty × Output Ty) := do
  let kiosk ← lift r
  pure ({ w with kiosk }, .none)

/-- A call that only checks. -/
def check (w : World Ty) (r : Except Abort Unit) : Except Failure (World Ty × Output Ty) := do
  lift r
  pure (w, .none)

/-- One call. -/
def step (w : World Ty) (c : Call Ty) : Except Failure (World Ty × Output Ty) :=
  if w.closed then throw .closed
  else match c with
  | .closeAndWithdraw cap => do
    let profits ← lift (w.kiosk.closeAndWithdraw cap)
    pure ({ w with closed := true }, .coin profits)
  | .setOwner cap sender => w.update (w.kiosk.setOwner cap sender)
  | .setOwnerCustom cap owner => w.update (w.kiosk.setOwnerCustom cap owner)
  | .place cap item => w.update (w.kiosk.place cap item)
  | .lock cap item => w.update (w.kiosk.lock cap item)
  | .take cap id ty => do
    let (kiosk, item) ← lift (w.kiosk.take cap id ty)
    pure ({ w with kiosk }, .item item)
  | .list cap id ty price => w.update (w.kiosk.list cap id ty price)
  | .placeAndList cap item price => w.update (w.kiosk.placeAndList cap item price)
  | .delist cap id ty => w.update (w.kiosk.delist cap id ty)
  | .purchase id ty payment => do
    let (kiosk, item, request) ← lift (w.kiosk.purchase id ty payment)
    pure ({ w with kiosk }, .sale item request)
  | .listWithPurchaseCap cap id ty minPrice => do
    let (kiosk, purchaseCap) ← lift (w.kiosk.listWithPurchaseCap cap id ty minPrice)
    pure ({ w with kiosk, caps := w.caps ++ [purchaseCap] }, .purchaseCap purchaseCap)
  | .purchaseWithCap purchaseCap payment =>
    if purchaseCap ∈ w.caps then do
      let (kiosk, item, request) ← lift (w.kiosk.purchaseWithCap purchaseCap payment)
      pure ({ w with kiosk, caps := w.caps.erase purchaseCap }, .sale item request)
    else throw .notHeld
  | .returnPurchaseCap purchaseCap =>
    if purchaseCap ∈ w.caps then do
      let kiosk ← lift (w.kiosk.returnPurchaseCap purchaseCap)
      pure ({ w with kiosk, caps := w.caps.erase purchaseCap }, .none)
    else throw .notHeld
  | .withdraw cap amount => do
    let (kiosk, coin) ← lift (w.kiosk.withdraw cap amount)
    pure ({ w with kiosk }, .coin coin)
  | .placeInternal item => w.update (w.kiosk.placeInternal item)
  | .lockInternal item => w.update (w.kiosk.lockInternal item)
  | .setAllowExtensions cap allowExtensions => w.update (w.kiosk.setAllowExtensions cap allowExtensions)
  | .uidMutAsOwner cap => w.check (w.kiosk.uidMutAsOwner cap)
  | .uidMut => w.check w.kiosk.uidMut
  | .profitsMut cap value => w.update (w.kiosk.profitsMut cap value)
  | .borrow cap id ty => w.check (w.kiosk.borrow cap id ty)
  | .borrowMut cap id ty => w.check (w.kiosk.borrowMut cap id ty)
  | .borrowVal cap id ty => do
    let (kiosk, item, b) ← lift (w.kiosk.borrowVal cap id ty)
    pure ({ w with kiosk, borrows := w.borrows ++ [b] }, .borrowed item b)
  | .returnVal item b =>
    if b ∈ w.borrows then do
      let kiosk ← lift (w.kiosk.returnVal item b)
      pure ({ w with kiosk, borrows := w.borrows.erase b }, .none)
    else throw .notHeld

/-- The calls of one transaction, one after another, with what each returned. -/
def exec (w : World Ty) : List (Call Ty) → Except Failure (World Ty × List (Output Ty))
  | [] => pure (w, [])
  | c :: cs => do
    let (w, out) ← w.step c
    let (w, outs) ← w.exec cs
    pure (w, out :: outs)

/-- A transaction: its calls, and no `Borrow` left at its end. -/
def transact (w : World Ty) (tx : List (Call Ty)) : Except Failure (World Ty × List (Output Ty)) := do
  let (w', outs) ← w.exec tx
  if w'.borrows ≠ [] then throw .borrowOutstanding
  pure (w', outs)

/-- Transactions one after another: one that fails leaves the world as it
    was. The log lists each call of the transactions that went through, with
    what it returned. -/
def run (w : World Ty) : List (List (Call Ty)) → World Ty × List (Call Ty × Output Ty)
  | [] => (w, [])
  | tx :: txs =>
    match w.transact tx with
    | .ok (w', outs) => ((w'.run txs).1, tx.zip outs ++ (w'.run txs).2)
    | .error _ => w.run txs

end World


-- ============================================================================
-- What a call of the world does
-- ============================================================================

namespace World

variable {w w' : World Ty} {out : Output Ty}

theorem lift_eq_ok {α : Type} {r : Except Abort α} {a : α} : lift r = .ok a ↔ r = .ok a :=
  Except.mapError_eq_ok

omit [DecidableEq Ty] in
theorem update_eq_ok {r : Except Abort (Kiosk Ty)} :
    w.update r = .ok (w', out) ↔ ∃ kiosk, r = .ok kiosk ∧ w' = { w with kiosk } ∧ out = .none := by
  unfold update
  rw [Except.bind_eq_ok]
  simp only [lift_eq_ok, Except.pure_eq_ok, Prod.mk.injEq]
  exact exists_congr fun kiosk => and_congr_right fun _ => ⟨fun h => ⟨h.1.symm, h.2.symm⟩,
    fun h => ⟨h.1.symm, h.2.symm⟩⟩

omit [DecidableEq Ty] in
theorem check_eq_ok {r : Except Abort Unit} : w.check r = .ok (w', out) → r = .ok () ∧ w' = w ∧ out = .none := by
  unfold check
  intro h
  obtain ⟨_, hr, h⟩ := Except.bind_eq_ok.mp h
  obtain ⟨rfl, rfl⟩ := Prod.mk.inj (Except.pure_eq_ok.mp h).symm
  exact ⟨lift_eq_ok.mp hr, rfl, rfl⟩

omit [DecidableEq Ty] in
theorem lift_bind_eq_ok {α : Type} {r : Except Abort α} {f : α → Except Failure (World Ty × Output Ty)} :
    (lift r >>= f) = .ok (w', out) ↔ ∃ a, r = .ok a ∧ f a = .ok (w', out) := by
  rw [Except.bind_eq_ok]
  simp only [lift_eq_ok]

/-- A closed kiosk takes no call. -/
theorem closed_eq_false_of_step {c : Call Ty} (h : w.step c = .ok (w', out)) : w.closed = false := by
  unfold step at h
  cases hc : w.closed
  · rfl
  · simp [hc] at h

/-- What a call that goes through did, one case per call: the kiosk's call
    it made, and the world and the output it left. -/
def StepSpec (w : World Ty) : Call Ty → World Ty → Output Ty → Prop
  | .closeAndWithdraw cap, w', out => ∃ profits, w.kiosk.closeAndWithdraw cap = .ok profits ∧
    w' = { w with closed := true } ∧ out = .coin profits
  | .setOwner cap sender, w', out => ∃ kiosk, w.kiosk.setOwner cap sender = .ok kiosk ∧
    w' = { w with kiosk } ∧ out = .none
  | .setOwnerCustom cap owner, w', out => ∃ kiosk, w.kiosk.setOwnerCustom cap owner = .ok kiosk ∧
    w' = { w with kiosk } ∧ out = .none
  | .place cap item, w', out => ∃ kiosk, w.kiosk.place cap item = .ok kiosk ∧ w' = { w with kiosk } ∧ out = .none
  | .lock cap item, w', out => ∃ kiosk, w.kiosk.lock cap item = .ok kiosk ∧ w' = { w with kiosk } ∧ out = .none
  | .take cap id ty, w', out => ∃ kiosk item, w.kiosk.take cap id ty = .ok (kiosk, item) ∧
    w' = { w with kiosk } ∧ out = .item item
  | .list cap id ty price, w', out => ∃ kiosk, w.kiosk.list cap id ty price = .ok kiosk ∧
    w' = { w with kiosk } ∧ out = .none
  | .placeAndList cap item price, w', out => ∃ kiosk, w.kiosk.placeAndList cap item price = .ok kiosk ∧
    w' = { w with kiosk } ∧ out = .none
  | .delist cap id ty, w', out => ∃ kiosk, w.kiosk.delist cap id ty = .ok kiosk ∧ w' = { w with kiosk } ∧ out = .none
  | .purchase id ty payment, w', out => ∃ kiosk item request,
    w.kiosk.purchase id ty payment = .ok (kiosk, item, request) ∧ w' = { w with kiosk } ∧ out = .sale item request
  | .listWithPurchaseCap cap id ty minPrice, w', out => ∃ kiosk purchaseCap,
    w.kiosk.listWithPurchaseCap cap id ty minPrice = .ok (kiosk, purchaseCap) ∧
    w' = { w with kiosk, caps := w.caps ++ [purchaseCap] } ∧ out = .purchaseCap purchaseCap
  | .purchaseWithCap purchaseCap payment, w', out => purchaseCap ∈ w.caps ∧ ∃ kiosk item request,
    w.kiosk.purchaseWithCap purchaseCap payment = .ok (kiosk, item, request) ∧
    w' = { w with kiosk, caps := w.caps.erase purchaseCap } ∧ out = .sale item request
  | .returnPurchaseCap purchaseCap, w', out => purchaseCap ∈ w.caps ∧ ∃ kiosk,
    w.kiosk.returnPurchaseCap purchaseCap = .ok kiosk ∧ w' = { w with kiosk, caps := w.caps.erase purchaseCap } ∧
    out = .none
  | .withdraw cap amount, w', out => ∃ kiosk coin, w.kiosk.withdraw cap amount = .ok (kiosk, coin) ∧
    w' = { w with kiosk } ∧ out = .coin coin
  | .placeInternal item, w', out => ∃ kiosk, w.kiosk.placeInternal item = .ok kiosk ∧
    w' = { w with kiosk } ∧ out = .none
  | .lockInternal item, w', out => ∃ kiosk, w.kiosk.lockInternal item = .ok kiosk ∧
    w' = { w with kiosk } ∧ out = .none
  | .setAllowExtensions cap allowExtensions, w', out => ∃ kiosk,
    w.kiosk.setAllowExtensions cap allowExtensions = .ok kiosk ∧ w' = { w with kiosk } ∧ out = .none
  | .uidMutAsOwner cap, w', out => w.kiosk.uidMutAsOwner cap = .ok () ∧ w' = w ∧ out = .none
  | .uidMut, w', out => w.kiosk.uidMut = .ok () ∧ w' = w ∧ out = .none
  | .profitsMut cap value, w', out => ∃ kiosk, w.kiosk.profitsMut cap value = .ok kiosk ∧
    w' = { w with kiosk } ∧ out = .none
  | .borrow cap id ty, w', out => w.kiosk.borrow cap id ty = .ok () ∧ w' = w ∧ out = .none
  | .borrowMut cap id ty, w', out => w.kiosk.borrowMut cap id ty = .ok () ∧ w' = w ∧ out = .none
  | .borrowVal cap id ty, w', out => ∃ kiosk item b, w.kiosk.borrowVal cap id ty = .ok (kiosk, item, b) ∧
    w' = { w with kiosk, borrows := w.borrows ++ [b] } ∧ out = .borrowed item b
  | .returnVal item b, w', out => b ∈ w.borrows ∧ ∃ kiosk, w.kiosk.returnVal item b = .ok kiosk ∧
    w' = { w with kiosk, borrows := w.borrows.erase b } ∧ out = .none

/-- Every call that goes through did what `StepSpec` says: the one inversion
    of `step` that the properties below are proved from. -/
theorem step_spec {c : Call Ty} (h : w.step c = .ok (w', out)) : StepSpec w c w' out := by
  have hopen := closed_eq_false_of_step h
  unfold step at h
  rw [if_neg (by rw [hopen]; exact Bool.false_ne_true)] at h
  cases c with
  | closeAndWithdraw cap =>
    obtain ⟨profits, hk, h⟩ := lift_bind_eq_ok.mp h
    obtain ⟨rfl, rfl⟩ := Prod.mk.inj (Except.pure_eq_ok.mp h).symm
    exact ⟨profits, hk, rfl, rfl⟩
  | setOwner | setOwnerCustom | place | lock | list | placeAndList | delist | placeInternal | lockInternal
  | setAllowExtensions | profitsMut => exact update_eq_ok.mp h
  | uidMutAsOwner | uidMut | borrow | borrowMut => exact check_eq_ok h
  | take cap id ty =>
    obtain ⟨⟨kiosk, item⟩, hk, h⟩ := lift_bind_eq_ok.mp h
    obtain ⟨rfl, rfl⟩ := Prod.mk.inj (Except.pure_eq_ok.mp h).symm
    exact ⟨kiosk, item, hk, rfl, rfl⟩
  | purchase id ty payment =>
    obtain ⟨⟨kiosk, item, request⟩, hk, h⟩ := lift_bind_eq_ok.mp h
    obtain ⟨rfl, rfl⟩ := Prod.mk.inj (Except.pure_eq_ok.mp h).symm
    exact ⟨kiosk, item, request, hk, rfl, rfl⟩
  | listWithPurchaseCap cap id ty minPrice =>
    obtain ⟨⟨kiosk, purchaseCap⟩, hk, h⟩ := lift_bind_eq_ok.mp h
    obtain ⟨rfl, rfl⟩ := Prod.mk.inj (Except.pure_eq_ok.mp h).symm
    exact ⟨kiosk, purchaseCap, hk, rfl, rfl⟩
  | purchaseWithCap purchaseCap payment =>
    -- the call takes a cap the caller holds
    dsimp only at h
    by_cases hpc : purchaseCap ∈ w.caps
    · rw [if_pos hpc] at h
      obtain ⟨⟨kiosk, item, request⟩, hk, h⟩ := lift_bind_eq_ok.mp h
      obtain ⟨rfl, rfl⟩ := Prod.mk.inj (Except.pure_eq_ok.mp h).symm
      exact ⟨hpc, kiosk, item, request, hk, rfl, rfl⟩
    · rw [if_neg hpc] at h
      exact absurd h Except.throw_ne_ok
  | returnPurchaseCap purchaseCap =>
    dsimp only at h
    by_cases hpc : purchaseCap ∈ w.caps
    · rw [if_pos hpc] at h
      obtain ⟨kiosk, hk, h⟩ := lift_bind_eq_ok.mp h
      obtain ⟨rfl, rfl⟩ := Prod.mk.inj (Except.pure_eq_ok.mp h).symm
      exact ⟨hpc, kiosk, hk, rfl, rfl⟩
    · rw [if_neg hpc] at h
      exact absurd h Except.throw_ne_ok
  | withdraw cap amount =>
    obtain ⟨⟨kiosk, coin⟩, hk, h⟩ := lift_bind_eq_ok.mp h
    obtain ⟨rfl, rfl⟩ := Prod.mk.inj (Except.pure_eq_ok.mp h).symm
    exact ⟨kiosk, coin, hk, rfl, rfl⟩
  | borrowVal cap id ty =>
    obtain ⟨⟨kiosk, item, b⟩, hk, h⟩ := lift_bind_eq_ok.mp h
    obtain ⟨rfl, rfl⟩ := Prod.mk.inj (Except.pure_eq_ok.mp h).symm
    exact ⟨kiosk, item, b, hk, rfl, rfl⟩
  | returnVal item b =>
    dsimp only at h
    by_cases hb : b ∈ w.borrows
    · rw [if_pos hb] at h
      obtain ⟨kiosk, hk, h⟩ := lift_bind_eq_ok.mp h
      obtain ⟨rfl, rfl⟩ := Prod.mk.inj (Except.pure_eq_ok.mp h).symm
      exact ⟨hb, kiosk, hk, rfl, rfl⟩
    · rw [if_neg hb] at h
      exact absurd h Except.throw_ne_ok

/-- A transaction that goes through ran its calls and returned every `Borrow`. -/
theorem transact_eq_ok {tx : List (Call Ty)} {outs : List (Output Ty)} (h : w.transact tx = .ok (w', outs)) :
    w.exec tx = .ok (w', outs) ∧ w'.borrows = [] := by
  unfold transact at h
  obtain ⟨⟨w1, outs1⟩, he, h⟩ := Except.bind_eq_ok.mp h
  obtain ⟨hb, heq⟩ := Except.ite_throw_pure_eq_ok.mp h
  obtain ⟨rfl, rfl⟩ := Prod.mk.inj heq
  exact ⟨he, not_not.mp hb⟩

-- ============================================================================
-- From one call to runs
-- ============================================================================

section Runs

variable (S : Call Ty → Prop) (P : World Ty → List (Call Ty × Output Ty) → Prop)

/-- What every call allowed by `S` keeps, with the call and its output
    appended to the log, a sequence of such calls keeps. -/
theorem exec_preserves
    (hstep : ∀ {w w' : World Ty} {c out log}, S c → P w log → w.step c = .ok (w', out) →
      P w' (log ++ [(c, out)])) (log : List (Call Ty × Output Ty)) :
    ∀ {cs : List (Call Ty)} {w w' : World Ty} {outs : List (Output Ty)}, (∀ c ∈ cs, S c) → P w log →
      w.exec cs = .ok (w', outs) → P w' (log ++ cs.zip outs) := by
  intro cs
  induction cs generalizing log with
  | nil =>
    intro w w' outs _ hp he
    unfold exec at he
    obtain ⟨rfl, rfl⟩ := Prod.mk.inj (Except.pure_eq_ok.mp he).symm
    simpa using hp
  | cons c cs ih =>
    intro w w' outs hS hp he
    unfold exec at he
    obtain ⟨⟨w1, out⟩, hs, he⟩ := Except.bind_eq_ok.mp he
    obtain ⟨⟨w2, outs'⟩, he', he⟩ := Except.bind_eq_ok.mp he
    obtain ⟨rfl, rfl⟩ := Prod.mk.inj (Except.pure_eq_ok.mp he).symm
    have hp' := hstep (hS c List.mem_cons_self) hp hs
    simpa using ih (log ++ [(c, out)]) (fun c' hc' => hS c' (List.mem_cons_of_mem c hc')) hp' he'

/-- What every transaction of calls allowed by `S` keeps, a run keeps: a
    transaction that fails leaves world and log as they were. -/
theorem run_preserves
    (htx : ∀ {w w' : World Ty} {tx outs log}, (∀ c ∈ tx, S c) → P w log → w.transact tx = .ok (w', outs) →
      P w' (log ++ tx.zip outs)) :
    ∀ (txs : List (List (Call Ty))) (w : World Ty) (log : List (Call Ty × Output Ty)),
      (∀ tx ∈ txs, ∀ c ∈ tx, S c) → P w log → P (w.run txs).1 (log ++ (w.run txs).2) := by
  intro txs
  induction txs with
  | nil =>
    intro w log _ hp
    simpa [run] using hp
  | cons tx txs ih =>
    intro w log hS hp
    have hS' := fun tx' htx' => hS tx' (List.mem_cons_of_mem tx htx')
    unfold run
    split
    · rename_i w' outs htr
      simpa using ih w' (log ++ tx.zip outs) hS' (htx (hS tx List.mem_cons_self) hp htr)
    · exact ih w log hS' hp

/-- What every call keeps inside a transaction (`P`), entered from and
    giving back, where no `Borrow` is out, what holds between transactions
    (`Q`), a run keeps. -/
theorem run_preserves_of_step (Q : World Ty → List (Call Ty × Output Ty) → Prop)
    (hstep : ∀ {w w' : World Ty} {c out log}, S c → P w log → w.step c = .ok (w', out) →
      P w' (log ++ [(c, out)]))
    (hin : ∀ {w log}, Q w log → P w log) (hout : ∀ {w log}, w.borrows = [] → P w log → Q w log) :
    ∀ (txs : List (List (Call Ty))) (w : World Ty) (log : List (Call Ty × Output Ty)),
      (∀ tx ∈ txs, ∀ c ∈ tx, S c) → Q w log → Q (w.run txs).1 (log ++ (w.run txs).2) :=
  run_preserves S Q fun hS hq ht =>
    hout (transact_eq_ok ht).2 (exec_preserves S P hstep _ hS (hin hq) (transact_eq_ok ht).1)

end Runs

end World


-- ============================================================================
-- The invariant
-- ============================================================================

/-- What every call keeps: the kiosk's representation invariant, with the
    items borrowed out counted as if they were in. -/
structure Inv (w : World Ty) : Prop where
  /-- `item_count` counts the items and the borrows out. -/
  count : w.kiosk.itemCount = w.kiosk.items.size + w.borrows.length
  borrows_kiosk : ∀ b ∈ w.borrows, b.kioskId = w.kiosk.id
  caps_kiosk : ∀ c ∈ w.caps, c.kioskId = w.kiosk.id
  listing_item : ∀ l ∈ w.kiosk.listings.keys, (⟨l.id⟩ : Item) ∈ w.kiosk.items.keys
  /-- A locked item is in the kiosk or borrowed out. -/
  lock_item : ∀ l ∈ w.kiosk.locks.keys,
    (⟨l.id⟩ : Item) ∈ w.kiosk.items.keys ∨ l.id ∈ w.borrows.map Borrow.itemId
  listed_once : ∀ id, (⟨id, false⟩ : Listing) ∈ w.kiosk.listings.keys →
    (⟨id, true⟩ : Listing) ∉ w.kiosk.listings.keys
  /-- The caps of an item: one while it is listed exclusively, none otherwise. -/
  caps_listing : ∀ id, w.caps.countP (fun c => c.itemId = id) =
    if (⟨id, true⟩ : Listing) ∈ w.kiosk.listings.keys then 1 else 0
  /-- The item of a cap is in the kiosk, of the cap's type. -/
  caps_item : ∀ c ∈ w.caps, ((⟨c.itemId⟩ : Item), c.ty) ∈ w.kiosk.items.contents

/-- The kiosk's representation invariant at a transaction boundary. -/
structure RepInv (w : World Ty) : Prop where
  /-- `item_count` is the number of `Item` fields. -/
  itemCount_eq : w.kiosk.itemCount = w.kiosk.items.size
  /-- Every `Listing` is of an item in the kiosk. -/
  listing_item : ∀ l ∈ w.kiosk.listings.keys, (⟨l.id⟩ : Item) ∈ w.kiosk.items.keys
  /-- Every `Lock` is of an item in the kiosk. -/
  lock_item : ∀ l ∈ w.kiosk.locks.keys, (⟨l.id⟩ : Item) ∈ w.kiosk.items.keys
  /-- No item is listed both openly and exclusively. -/
  listed_once : ∀ id, (⟨id, false⟩ : Listing) ∈ w.kiosk.listings.keys →
    (⟨id, true⟩ : Listing) ∉ w.kiosk.listings.keys
  /-- The `PurchaseCap`s of this kiosk for an item: exactly one while it is
      listed exclusively, none otherwise. -/
  one_cap : ∀ id, w.caps.countP (fun c => c.kioskId = w.kiosk.id ∧ c.itemId = id) =
    if (⟨id, true⟩ : Listing) ∈ w.kiosk.listings.keys then 1 else 0

/-- A listing of an item is its open or its exclusive one. -/
theorem Listing.eq_of_id {l : Listing} {id : Nat} (h : l.id = id) : l = ⟨id, false⟩ ∨ l = ⟨id, true⟩ := by
  obtain ⟨lid, exclusive⟩ := l
  cases h
  cases exclusive
  · exact .inl rfl
  · exact .inr rfl

/-- An item listed neither way has no listing. -/
theorem Listing.id_ne {listings : VecMap Listing Nat} {id : Nat}
    (hopen : (⟨id, false⟩ : Listing) ∉ listings.keys) (hexcl : (⟨id, true⟩ : Listing) ∉ listings.keys) :
    ∀ l ∈ listings.keys, l.id ≠ id := by
  intro l hl heq
  rcases Listing.eq_of_id heq with rfl | rfl
  · exact hopen hl
  · exact hexcl hl

/-- A borrow other than the one returned is still out. -/
theorem mem_map_itemId_erase {borrows : List Borrow} {b : Borrow} {x : Nat}
    (hx : x ∈ borrows.map Borrow.itemId) (hne : x ≠ b.itemId) : x ∈ (borrows.erase b).map Borrow.itemId := by
  obtain ⟨b', hb', rfl⟩ := List.mem_map.mp hx
  have hb'b : b' ≠ b := fun heq => hne (heq ▸ rfl)
  exact List.mem_map_of_mem ((List.mem_erase_of_ne hb'b).mpr hb')

omit [DecidableEq Ty] in
/-- An item not listed exclusively has no cap. -/
theorem itemId_ne_of_countP {caps : List (PurchaseCap Ty)} {listings : VecMap Listing Nat}
    (h : ∀ id, caps.countP (fun c => c.itemId = id) = if (⟨id, true⟩ : Listing) ∈ listings.keys then 1 else 0)
    {id : Nat} (hexcl : (⟨id, true⟩ : Listing) ∉ listings.keys) : ∀ c ∈ caps, c.itemId ≠ id := by
  have hzero := h id
  rw [if_neg hexcl, List.countP_eq_zero] at hzero
  exact fun c hc => by simpa using hzero c hc

namespace Inv

variable {w : World Ty} {k : Kiosk Ty}

omit [DecidableEq Ty] in
/-- A change of the owner, the profits or the extensions flag keeps the invariant. -/
theorem frame (h : Inv w) (hid : k.id = w.kiosk.id) (hcount : k.itemCount = w.kiosk.itemCount)
    (hitems : k.items = w.kiosk.items) (hlistings : k.listings = w.kiosk.listings)
    (hlocks : k.locks = w.kiosk.locks) : Inv { w with kiosk := k } where
  count := by simp only [hcount, hitems]; exact h.count
  borrows_kiosk := by simp only [hid]; exact h.borrows_kiosk
  caps_kiosk := by simp only [hid]; exact h.caps_kiosk
  listing_item := by simp only [hitems, hlistings]; exact h.listing_item
  lock_item := by simp only [hitems, hlocks]; exact h.lock_item
  listed_once := by simp only [hlistings]; exact h.listed_once
  caps_listing := by simp only [hlistings]; exact h.caps_listing
  caps_item := by simp only [hitems]; exact h.caps_item

omit [DecidableEq Ty] in
theorem placeInternal (h : Inv w) {item : Object Ty} (hk : w.kiosk.placeInternal item = .ok k) :
    Inv { w with kiosk := k } := by
  obtain ⟨-, items, hitems, rfl⟩ := placeInternal_eq_ok hk
  -- the new item adds a key and keeps every other
  have hmem : ∀ i ∈ w.kiosk.items.keys, i ∈ items.keys := fun i hi =>
    (VecMap.mem_keys_of_insert hitems).mpr (.inl hi)
  have hsize := VecMap.size_of_insert hitems
  exact {
    count := by simp only [hsize, h.count]; omega
    borrows_kiosk := h.borrows_kiosk
    caps_kiosk := h.caps_kiosk
    listing_item := fun l hl => hmem _ (h.listing_item l hl)
    lock_item := fun l hl => (h.lock_item l hl).imp_left (hmem _)
    listed_once := h.listed_once
    caps_listing := h.caps_listing
    caps_item := fun c hc => VecMap.mem_contents_of_insert hitems (h.caps_item c hc) }

omit [DecidableEq Ty] in
theorem lockInternal (h : Inv w) {item : Object Ty} (hk : w.kiosk.lockInternal item = .ok k) :
    Inv { w with kiosk := k } := by
  obtain ⟨locks, hlocks, hk⟩ := lockInternal_eq_ok hk
  obtain ⟨-, items, hitems, rfl⟩ := placeInternal_eq_ok hk
  have hmem : ∀ i ∈ w.kiosk.items.keys, i ∈ items.keys := fun i hi =>
    (VecMap.mem_keys_of_insert hitems).mpr (.inl hi)
  have hsize := VecMap.size_of_insert hitems
  exact {
    count := by simp only [hsize, h.count]; omega
    borrows_kiosk := h.borrows_kiosk
    caps_kiosk := h.caps_kiosk
    listing_item := fun l hl => hmem _ (h.listing_item l hl)
    -- the new lock is of the item placed with it
    lock_item := fun l hl => by
      rcases (VecMap.mem_keys_of_insert hlocks).mp hl with hl | rfl
      · exact (h.lock_item l hl).imp_left (hmem _)
      · exact .inl ((VecMap.mem_keys_of_insert hitems).mpr (.inr rfl))
    listed_once := h.listed_once
    caps_listing := h.caps_listing
    caps_item := fun c hc => VecMap.mem_contents_of_insert hitems (h.caps_item c hc) }

omit [DecidableEq Ty] in
/-- Removing an item that no cap is for keeps the items of the caps. -/
theorem caps_item_of_remove (h : Inv w) {id : Nat} {ty : Ty} {items : VecMap Item Ty}
    (hexcl : (⟨id, true⟩ : Listing) ∉ w.kiosk.listings.keys) (hitems : w.kiosk.items.remove ⟨id⟩ = some (ty, items)) :
    ∀ c ∈ w.caps, ((⟨c.itemId⟩ : Item), c.ty) ∈ items.contents := fun c hc =>
  VecMap.mem_contents_of_remove hitems (h.caps_item c hc) fun heq =>
    itemId_ne_of_countP h.caps_listing hexcl c hc (congrArg Item.id heq)

theorem take (h : Inv w) {cap : KioskOwnerCap} {id : Nat} {ty : Ty} {obj : Object Ty}
    (hk : w.kiosk.take cap id ty = .ok (k, obj)) : Inv { w with kiosk := k } := by
  obtain ⟨-, hlock, hexcl, -, items, hitems, rfl, -⟩ := take_eq_ok hk
  have hkeys := fun (i : Item) => (VecMap.mem_keys_of_remove hitems : i ∈ _ ↔ _)
  have hsize := VecMap.size_of_remove hitems
  -- the exclusive listings are those of before: only the open one of `id` goes
  have hexclusive : ∀ x, (⟨x, true⟩ : Listing) ∈ (fieldRemoveIfExists w.kiosk.listings ⟨id, false⟩).keys ↔
      (⟨x, true⟩ : Listing) ∈ w.kiosk.listings.keys := fun x => by
    rw [mem_keys_fieldRemoveIfExists]
    simp
  refine ⟨?_, h.borrows_kiosk, h.caps_kiosk, ?_, ?_, ?_, ?_, h.caps_item_of_remove hexcl hitems⟩
  · have := h.count
    simp only
    omega
  · -- a listing left is not of `id`: the open one went, the exclusive one was not there
    intro l hl
    rw [mem_keys_fieldRemoveIfExists] at hl
    refine (hkeys _).mpr ⟨h.listing_item l hl.1, fun heq => ?_⟩
    rcases Listing.eq_of_id (congrArg Item.id heq) with rfl | rfl
    · exact hl.2 rfl
    · exact hexcl hl.1
  · -- `id` is not locked, so every lock keeps its item
    intro l hl
    refine (h.lock_item l hl).imp_left fun hi => (hkeys _).mpr ⟨hi, fun heq => hlock ?_⟩
    rw [show id = l.id from (congrArg Item.id heq).symm]
    exact hl
  · intro x hx
    rw [mem_keys_fieldRemoveIfExists] at hx
    rw [hexclusive]
    exact h.listed_once x hx.1
  · intro x
    simp only [hexclusive]
    exact h.caps_listing x

theorem list (h : Inv w) {cap : KioskOwnerCap} {id : Nat} {ty : Ty} {price : Nat}
    (hk : w.kiosk.list cap id ty price = .ok k) : Inv { w with kiosk := k } := by
  obtain ⟨-, hitem, hexcl, listings, hlistings, rfl⟩ := list_eq_ok hk
  have hkeys := fun (l : Listing) => (VecMap.mem_keys_of_insert hlistings : l ∈ _ ↔ _)
  -- the exclusive listings are those of before
  have hexclusive : ∀ x, (⟨x, true⟩ : Listing) ∈ listings.keys ↔ (⟨x, true⟩ : Listing) ∈ w.kiosk.listings.keys :=
    fun x => by rw [hkeys]; simp
  refine ⟨h.count, h.borrows_kiosk, h.caps_kiosk, ?_, h.lock_item, ?_, ?_, h.caps_item⟩
  · intro l hl
    rcases (hkeys l).mp hl with hl | rfl
    · exact h.listing_item l hl
    · exact VecMap.mem_keys.mpr ⟨ty, hitem⟩
  · intro x hx
    rw [hexclusive]
    rcases (hkeys _).mp hx with hx | heq
    · exact h.listed_once x hx
    · cases heq
      exact hexcl
  · intro x
    simp only [hexclusive]
    exact h.caps_listing x

theorem delist (h : Inv w) {cap : KioskOwnerCap} {id : Nat} {ty : Ty}
    (hk : w.kiosk.delist cap id ty = .ok k) : Inv { w with kiosk := k } := by
  obtain ⟨-, price, listings, hlistings, rfl⟩ := delist_eq_ok hk
  have hkeys := fun (l : Listing) => (VecMap.mem_keys_of_remove hlistings : l ∈ _ ↔ _)
  have hexclusive : ∀ x, (⟨x, true⟩ : Listing) ∈ listings.keys ↔ (⟨x, true⟩ : Listing) ∈ w.kiosk.listings.keys :=
    fun x => by rw [hkeys]; simp
  refine ⟨h.count, h.borrows_kiosk, h.caps_kiosk, fun l hl => h.listing_item l ((hkeys l).mp hl).1,
    h.lock_item, fun x hx => ?_, fun x => ?_, h.caps_item⟩
  · rw [hexclusive]
    exact h.listed_once x ((hkeys _).mp hx).1
  · simp only [hexclusive]
    exact h.caps_listing x

theorem purchase (h : Inv w) {id : Nat} {ty : Ty} {payment : Nat} {obj : Object Ty}
    {request : TransferRequest Ty} (hk : w.kiosk.purchase id ty payment = .ok (k, obj, request)) :
    Inv { w with kiosk := k } := by
  obtain ⟨-, -, ⟨listings, hlistings, items, hitems, rfl⟩, -, -⟩ := purchase_eq_ok hk
  have hlkeys := fun (l : Listing) => (VecMap.mem_keys_of_remove hlistings : l ∈ _ ↔ _)
  have hikeys := fun (i : Item) => (VecMap.mem_keys_of_remove hitems : i ∈ _ ↔ _)
  have hsize := VecMap.size_of_remove hitems
  -- the item was listed openly, so not exclusively
  have hopen : (⟨id, false⟩ : Listing) ∈ w.kiosk.listings.keys :=
    VecMap.mem_keys.mpr ⟨payment, (VecMap.remove_eq_some_iff.mp hlistings).1⟩
  have hexcl := h.listed_once id hopen
  have hexclusive : ∀ x, (⟨x, true⟩ : Listing) ∈ listings.keys ↔ (⟨x, true⟩ : Listing) ∈ w.kiosk.listings.keys :=
    fun x => by rw [hlkeys]; simp
  refine ⟨?_, h.borrows_kiosk, h.caps_kiosk, ?_, ?_, fun x hx => ?_, fun x => ?_, h.caps_item_of_remove hexcl hitems⟩
  · have := h.count
    simp only
    omega
  · intro l hl
    obtain ⟨hl, hne⟩ := (hlkeys l).mp hl
    refine (hikeys _).mpr ⟨h.listing_item l hl, fun heq => ?_⟩
    rcases Listing.eq_of_id (congrArg Item.id heq) with rfl | rfl
    · exact hne rfl
    · exact hexcl hl
  · -- the lock of `id` goes with it
    intro l hl
    rw [mem_keys_fieldRemoveIfExists] at hl
    refine (h.lock_item l hl.1).imp_left fun hi => (hikeys _).mpr ⟨hi, fun heq => hl.2 ?_⟩
    rw [show id = l.id from (congrArg Item.id heq).symm]
  · rw [hexclusive]
    exact h.listed_once x ((hlkeys _).mp hx).1
  · simp only [hexclusive]
    exact h.caps_listing x

omit [DecidableEq Ty] in
/-- Closing keeps the kiosk as it is. -/
theorem close (h : Inv w) : Inv { w with closed := true } :=
  ⟨h.count, h.borrows_kiosk, h.caps_kiosk, h.listing_item, h.lock_item, h.listed_once, h.caps_listing, h.caps_item⟩

theorem listWithPurchaseCap (h : Inv w) {cap : KioskOwnerCap} {id : Nat} {ty : Ty} {minPrice : Nat}
    {pc : PurchaseCap Ty} (hk : w.kiosk.listWithPurchaseCap cap id ty minPrice = .ok (k, pc)) :
    Inv { w with kiosk := k, caps := w.caps ++ [pc] } := by
  obtain ⟨-, hitem, hopen, hexcl, ⟨listings, hlistings, rfl⟩, rfl⟩ := listWithPurchaseCap_eq_ok hk
  have hkeys := fun (l : Listing) => (VecMap.mem_keys_of_insert hlistings : l ∈ _ ↔ _)
  refine ⟨h.count, h.borrows_kiosk, ?_, ?_, h.lock_item, ?_, ?_, ?_⟩
  · intro c hc
    rcases List.mem_append.mp hc with hc | hc
    · exact h.caps_kiosk c hc
    · rw [List.mem_singleton.mp hc]
  · intro l hl
    rcases (hkeys l).mp hl with hl | rfl
    · exact h.listing_item l hl
    · exact VecMap.mem_keys.mpr ⟨ty, hitem⟩
  · -- the new listing is exclusive, and `id` had no open one
    intro x hx hx'
    rcases (hkeys _).mp hx with hx | hx
    · rcases (hkeys _).mp hx' with hx' | heq
      · exact h.listed_once x hx hx'
      · cases heq
        exact hopen hx
    · cases hx
  · -- the new cap is the one of the new listing
    intro x
    rw [List.countP_append, h.caps_listing x, List.countP_singleton]
    simp only [hkeys]
    by_cases hx : id = x
    · subst hx
      simp [hexcl]
    · simp [hx, Ne.symm hx]
  · intro c hc
    rcases List.mem_append.mp hc with hc | hc
    · exact h.caps_item c hc
    · rw [List.mem_singleton.mp hc]
      exact hitem

/-- Removing a listing keeps every item listed at most once. -/
theorem listed_once_of_subset {listings listings' : VecMap Listing Nat}
    (hsub : ∀ l ∈ listings'.keys, l ∈ listings.keys)
    (h : ∀ id, (⟨id, false⟩ : Listing) ∈ listings.keys → (⟨id, true⟩ : Listing) ∉ listings.keys) :
    ∀ id, (⟨id, false⟩ : Listing) ∈ listings'.keys → (⟨id, true⟩ : Listing) ∉ listings'.keys :=
  fun id hopen hexcl => h id (hsub _ hopen) (hsub _ hexcl)

omit [DecidableEq Ty] in
/-- A `PurchaseCap` spent on its listing leaves the other items' caps as they were. -/
theorem caps_listing_erase {caps : List (PurchaseCap Ty)} {listings listings' : VecMap Listing Nat}
    {pc : PurchaseCap Ty} {price : Nat} [DecidableEq (PurchaseCap Ty)]
    (h : ∀ id, caps.countP (fun c => c.itemId = id) = if (⟨id, true⟩ : Listing) ∈ listings.keys then 1 else 0)
    (hpc : pc ∈ caps) (hlistings : listings.remove ⟨pc.itemId, true⟩ = some (price, listings')) :
    ∀ id, (caps.erase pc).countP (fun c => c.itemId = id) =
      if (⟨id, true⟩ : Listing) ∈ listings'.keys then 1 else 0 := by
  have hexcl : (⟨pc.itemId, true⟩ : Listing) ∈ listings.keys :=
    VecMap.mem_keys.mpr ⟨price, (VecMap.remove_eq_some_iff.mp hlistings).1⟩
  intro x
  rw [List.countP_erase, h x]
  simp only [VecMap.mem_keys_of_remove hlistings]
  by_cases hx : pc.itemId = x
  · subst hx
    simp [hexcl, hpc]
  · simp [hx, Ne.symm hx]

theorem purchaseWithCap (h : Inv w) {pc : PurchaseCap Ty} {payment : Nat} {obj : Object Ty}
    {request : TransferRequest Ty} (hpc : pc ∈ w.caps)
    (hk : w.kiosk.purchaseWithCap pc payment = .ok (k, obj, request)) :
    Inv { w with kiosk := k, caps := w.caps.erase pc } := by
  obtain ⟨-, -, -, -, ⟨price, listings, hlistings, items, hitems, rfl⟩, -, -⟩ := purchaseWithCap_eq_ok hk
  have hlkeys := fun (l : Listing) => (VecMap.mem_keys_of_remove hlistings : l ∈ _ ↔ _)
  have hikeys := fun (i : Item) => (VecMap.mem_keys_of_remove hitems : i ∈ _ ↔ _)
  have hsize := VecMap.size_of_remove hitems
  have hexcl : (⟨pc.itemId, true⟩ : Listing) ∈ w.kiosk.listings.keys :=
    VecMap.mem_keys.mpr ⟨price, (VecMap.remove_eq_some_iff.mp hlistings).1⟩
  have hcaps := caps_listing_erase h.caps_listing hpc hlistings
  refine ⟨?_, h.borrows_kiosk, fun c hc => h.caps_kiosk c (List.mem_of_mem_erase hc), ?_, ?_,
    listed_once_of_subset (fun l hl => ((hlkeys l).mp hl).1) h.listed_once, hcaps, ?_⟩
  · have := h.count
    simp only
    omega
  · -- a listing left is not of the item sold: its open one cannot exist beside the exclusive one
    intro l hl
    obtain ⟨hl, hne⟩ := (hlkeys l).mp hl
    refine (hikeys _).mpr ⟨h.listing_item l hl, fun heq => ?_⟩
    rcases Listing.eq_of_id (congrArg Item.id heq) with rfl | rfl
    · exact h.listed_once _ hl hexcl
    · exact hne rfl
  · -- the lock of the item sold goes with it
    intro l hl
    rw [mem_keys_fieldRemoveIfExists] at hl
    refine (h.lock_item l hl.1).imp_left fun hi => (hikeys _).mpr ⟨hi, fun heq => hl.2 ?_⟩
    rw [show pc.itemId = l.id from (congrArg Item.id heq).symm]
  · -- the caps left are of other items, which stay
    intro c hc
    refine VecMap.mem_contents_of_remove hitems (h.caps_item c (List.mem_of_mem_erase hc)) fun heq => ?_
    exact itemId_ne_of_countP hcaps (fun hm => ((hlkeys _).mp hm).2 rfl) c hc (congrArg Item.id heq)

theorem returnPurchaseCap (h : Inv w) {pc : PurchaseCap Ty} (hpc : pc ∈ w.caps)
    (hk : w.kiosk.returnPurchaseCap pc = .ok k) : Inv { w with kiosk := k, caps := w.caps.erase pc } := by
  obtain ⟨-, price, listings, hlistings, rfl⟩ := returnPurchaseCap_eq_ok hk
  have hlkeys := fun (l : Listing) => (VecMap.mem_keys_of_remove hlistings : l ∈ _ ↔ _)
  exact ⟨h.count, h.borrows_kiosk, fun c hc => h.caps_kiosk c (List.mem_of_mem_erase hc),
    fun l hl => h.listing_item l ((hlkeys l).mp hl).1, h.lock_item,
    listed_once_of_subset (fun l hl => ((hlkeys l).mp hl).1) h.listed_once,
    caps_listing_erase h.caps_listing hpc hlistings, fun c hc => h.caps_item c (List.mem_of_mem_erase hc)⟩

theorem borrowVal (h : Inv w) {cap : KioskOwnerCap} {id : Nat} {ty : Ty} {obj : Object Ty} {b : Borrow}
    (hk : w.kiosk.borrowVal cap id ty = .ok (k, obj, b)) :
    Inv { w with kiosk := k, borrows := w.borrows ++ [b] } := by
  obtain ⟨-, hopen, hexcl, ⟨items, hitems, rfl⟩, -, rfl⟩ := borrowVal_eq_ok hk
  have hikeys := fun (i : Item) => (VecMap.mem_keys_of_remove hitems : i ∈ _ ↔ _)
  have hsize := VecMap.size_of_remove hitems
  have hne := Listing.id_ne hopen hexcl
  refine ⟨?_, ?_, h.caps_kiosk, ?_, ?_, h.listed_once, h.caps_listing, h.caps_item_of_remove hexcl hitems⟩
  · have := h.count
    simp only [List.length_append, List.length_singleton]
    omega
  · intro b hb
    rcases List.mem_append.mp hb with hb | hb
    · exact h.borrows_kiosk b hb
    · rw [List.mem_singleton.mp hb]
  · intro l hl
    exact (hikeys _).mpr ⟨h.listing_item l hl, fun heq => hne l hl (congrArg Item.id heq)⟩
  · -- a lock of the item borrowed now finds it among the borrows
    intro l hl
    by_cases hid : l.id = id
    · exact .inr (List.mem_map.mpr ⟨⟨w.kiosk.id, id⟩, List.mem_append_right _ (List.mem_singleton_self _),
        hid.symm⟩)
    · rcases h.lock_item l hl with hi | hb
      · exact .inl ((hikeys _).mpr ⟨hi, fun heq => hid (congrArg Item.id heq)⟩)
      · rw [List.map_append]
        exact .inr (List.mem_append_left _ hb)

omit [DecidableEq Ty] in
theorem returnVal (h : Inv w) {item : Object Ty} {b : Borrow} (hb : b ∈ w.borrows)
    (hk : w.kiosk.returnVal item b = .ok k) : Inv { w with kiosk := k, borrows := w.borrows.erase b } := by
  obtain ⟨-, -, items, hitems, rfl⟩ := returnVal_eq_ok hk
  have hikeys := fun (i : Item) => (VecMap.mem_keys_of_insert hitems : i ∈ _ ↔ _)
  have hsize := VecMap.size_of_insert hitems
  have hlen := List.length_erase_of_mem hb
  refine ⟨?_, fun b' hb' => h.borrows_kiosk b' (List.mem_of_mem_erase hb'), h.caps_kiosk,
    fun l hl => (hikeys _).mpr (.inl (h.listing_item l hl)), ?_, h.listed_once, h.caps_listing,
    fun c hc => VecMap.mem_contents_of_insert hitems (h.caps_item c hc)⟩
  · have := h.count
    have := List.length_pos_of_mem hb
    simp only
    omega
  · -- the item returned is back, every other borrow is still out
    intro l hl
    by_cases hid : l.id = b.itemId
    · exact .inl ((hikeys _).mpr (.inr (congrArg Item.mk hid)))
    · exact (h.lock_item l hl).imp (fun hi => (hikeys _).mpr (.inl hi)) (fun hx => mem_map_itemId_erase hx hid)

/-- Every call keeps the invariant. -/
theorem step (h : Inv w) {c : Call Ty} {w' : World Ty} {out : Output Ty} (hs : w.step c = .ok (w', out)) :
    Inv w' := by
  have hs := World.step_spec hs
  cases c with
  | closeAndWithdraw cap =>
    obtain ⟨_, -, rfl, -⟩ := hs
    exact h.close
  | setOwner cap owner | setOwnerCustom cap owner =>
    obtain ⟨kiosk, hk, rfl, -⟩ := hs
    obtain ⟨-, rfl⟩ := setOwnerCustom_eq_ok hk
    exact h.frame rfl rfl rfl rfl rfl
  | place cap item =>
    obtain ⟨kiosk, hk, rfl, -⟩ := hs
    exact h.placeInternal (place_eq_ok hk).2
  | lock cap item =>
    obtain ⟨kiosk, hk, rfl, -⟩ := hs
    exact h.lockInternal (lock_eq_ok hk).2
  | take cap id ty =>
    obtain ⟨kiosk, item, hk, rfl, -⟩ := hs
    exact h.take hk
  | list cap id ty price =>
    obtain ⟨kiosk, hk, rfl, -⟩ := hs
    exact h.list hk
  | placeAndList cap item price =>
    obtain ⟨kiosk, hk, rfl, -⟩ := hs
    obtain ⟨k, hplace, hlist⟩ := placeAndList_eq_ok hk
    exact (h.placeInternal (place_eq_ok hplace).2).list hlist
  | delist cap id ty =>
    obtain ⟨kiosk, hk, rfl, -⟩ := hs
    exact h.delist hk
  | purchase id ty payment =>
    obtain ⟨kiosk, item, request, hk, rfl, -⟩ := hs
    exact h.purchase hk
  | listWithPurchaseCap cap id ty minPrice =>
    obtain ⟨kiosk, pc, hk, rfl, -⟩ := hs
    exact h.listWithPurchaseCap hk
  | purchaseWithCap pc payment =>
    obtain ⟨hpc, kiosk, item, request, hk, rfl, -⟩ := hs
    exact h.purchaseWithCap hpc hk
  | returnPurchaseCap pc =>
    obtain ⟨hpc, kiosk, hk, rfl, -⟩ := hs
    exact h.returnPurchaseCap hpc hk
  | withdraw cap amount =>
    obtain ⟨kiosk, coin, hk, rfl, -⟩ := hs
    obtain ⟨-, -, rfl⟩ := withdraw_eq_ok hk
    exact h.frame rfl rfl rfl rfl rfl
  | placeInternal item =>
    obtain ⟨kiosk, hk, rfl, -⟩ := hs
    exact h.placeInternal hk
  | lockInternal item =>
    obtain ⟨kiosk, hk, rfl, -⟩ := hs
    exact h.lockInternal hk
  | setAllowExtensions cap allowExtensions =>
    obtain ⟨kiosk, hk, rfl, -⟩ := hs
    obtain ⟨-, rfl⟩ := setAllowExtensions_eq_ok hk
    exact h.frame rfl rfl rfl rfl rfl
  | uidMutAsOwner | uidMut | borrow | borrowMut =>
    obtain ⟨-, rfl, -⟩ := hs
    exact h
  | profitsMut cap value =>
    obtain ⟨kiosk, hk, rfl, -⟩ := hs
    obtain ⟨-, -, rfl⟩ := profitsMut_eq_ok hk
    exact h.frame rfl rfl rfl rfl rfl
  | borrowVal cap id ty =>
    obtain ⟨kiosk, item, b, hk, rfl, -⟩ := hs
    exact h.borrowVal hk
  | returnVal item b =>
    obtain ⟨hb, kiosk, hk, rfl, -⟩ := hs
    exact h.returnVal hb hk

omit [DecidableEq Ty] in
/-- A new kiosk is empty. -/
theorem new (id sender : Nat) : Inv (World.new id sender : World Ty) where
  count := rfl
  borrows_kiosk := fun _ hb => by cases hb
  caps_kiosk := fun _ hc => by cases hc
  listing_item := fun _ hl => by cases hl
  lock_item := fun _ hl => by cases hl
  listed_once := fun _ hl => by cases hl
  caps_listing := fun _ => rfl
  caps_item := fun _ hc => by cases hc

end Inv

/-- A world that a run from `new` reaches, at a transaction boundary. -/
def Reachable (w : World Ty) : Prop := ∃ id sender txs, ((World.new id sender : World Ty).run txs).1 = w

/-- A reachable world keeps the invariant, with no `Borrow` out. -/
theorem Reachable.inv {w : World Ty} (h : Reachable w) : Inv w ∧ w.borrows = [] := by
  obtain ⟨id, sender, txs, rfl⟩ := h
  exact World.run_preserves_of_step (fun _ => True) (fun w _ => Inv w) (fun w _ => Inv w ∧ w.borrows = [])
    (fun _ hp hs => Inv.step hp hs) And.left (fun hb hp => ⟨hp, hb⟩) txs _ [] (fun _ _ _ _ => trivial)
    ⟨Inv.new id sender, rfl⟩

omit [DecidableEq Ty] in
/-- With no `Borrow` out, the invariant is the kiosk's representation invariant. -/
theorem RepInv.of_inv {w : World Ty} (h : Inv w) (hb : w.borrows = []) : RepInv w where
  itemCount_eq := by simpa [hb] using h.count
  listing_item := h.listing_item
  lock_item := fun l hl => (h.lock_item l hl).resolve_right (by simp [hb])
  listed_once := h.listed_once
  one_cap := fun id => by
    -- every cap is of this kiosk, so this kiosk's caps of an item are all its caps
    have hcount : w.caps.countP (fun c => c.kioskId = w.kiosk.id ∧ c.itemId = id) =
        w.caps.countP (fun c => c.itemId = id) :=
      List.countP_congr fun c hc => by simp [h.caps_kiosk c hc]
    rw [hcount, h.caps_listing id]

/-- Every world a run from `new` reaches satisfies the kiosk's representation invariant. -/
theorem repInv_reachable {w : World Ty} (h : Reachable w) : RepInv w :=
  RepInv.of_inv h.inv.1 h.inv.2

theorem repInv_reachable_lock_list :
    RepInv ((World.new 1 7 : World Bool).run [[.lock ⟨1⟩ ⟨5, true⟩, .listWithPurchaseCap ⟨1⟩ 5 true 100]]).1 :=
  repInv_reachable ⟨1, 7, _, rfl⟩

-- ============================================================================
-- Where items and locks go
-- ============================================================================

/-- Item `x` is the kiosk's: in it, or borrowed out of it. -/
def Holds (x : Nat) (w : World Ty) : Prop :=
  (⟨x⟩ : Item) ∈ w.kiosk.items.keys ∨ x ∈ w.borrows.map Borrow.itemId

namespace Holds

variable {x : Nat} {w w' : World Ty} {k : Kiosk Ty}

omit [DecidableEq Ty] in
/-- A call that keeps every item key and every borrow keeps every item held. -/
theorem mono (h : Holds x w) (hitems : ∀ i ∈ w.kiosk.items.keys, i ∈ w'.kiosk.items.keys)
    (hborrows : ∀ b ∈ w.borrows, b ∈ w'.borrows) : Holds x w' := by
  rcases h with hx | hx
  · exact .inl (hitems _ hx)
  · obtain ⟨b, hb, rfl⟩ := List.mem_map.mp hx
    exact .inr (List.mem_map_of_mem (hborrows b hb))

omit [DecidableEq Ty] in
/-- Removing another item keeps `x` held. -/
theorem remove (h : Holds x w) {id : Nat} {ty : Ty} (hitems : w.kiosk.items.remove ⟨id⟩ = some (ty, w'.kiosk.items))
    (hborrows : ∀ b ∈ w.borrows, b ∈ w'.borrows) (hne : x ≠ id) : Holds x w' := by
  rcases h with hx | hx
  · exact .inl ((VecMap.mem_keys_of_remove hitems).mpr ⟨hx, fun heq => hne (congrArg Item.id heq)⟩)
  · obtain ⟨b, hb, rfl⟩ := List.mem_map.mp hx
    exact .inr (List.mem_map_of_mem (hborrows b hb))

omit [DecidableEq Ty] in
theorem placeInternal (h : Holds x w) {item : Object Ty} (hk : w.kiosk.placeInternal item = .ok k) :
    Holds x { w with kiosk := k } := by
  obtain ⟨-, items, hitems, rfl⟩ := placeInternal_eq_ok hk
  exact h.mono (fun i hi => (VecMap.mem_keys_of_insert hitems).mpr (.inl hi)) fun _ hb => hb

omit [DecidableEq Ty] in
theorem lockInternal (h : Holds x w) {item : Object Ty} (hk : w.kiosk.lockInternal item = .ok k) :
    Holds x { w with kiosk := k } := by
  obtain ⟨locks, -, hk⟩ := lockInternal_eq_ok hk
  obtain ⟨-, items, hitems, rfl⟩ := placeInternal_eq_ok hk
  exact h.mono (fun i hi => (VecMap.mem_keys_of_insert hitems).mpr (.inl hi)) fun _ hb => hb

end Holds

namespace World

variable {w w' : World Ty} {out : Output Ty}

/-- An item the kiosk holds stays held, unless the call sells it or takes it
    out; `take` takes only an item that is not locked. -/
theorem step_holds {x : Nat} (h : Holds x w) {c : Call Ty} (hs : w.step c = .ok (w', out)) :
    Holds x w' ∨ out.sold = some x ∨ (out.taken = some x ∧ (⟨x⟩ : Lock) ∉ w.kiosk.locks.keys) := by
  have hs := step_spec hs
  cases c with
  | closeAndWithdraw cap =>
    obtain ⟨_, -, rfl, -⟩ := hs
    exact .inl h
  | setOwner cap owner | setOwnerCustom cap owner =>
    obtain ⟨kiosk, hk, rfl, -⟩ := hs
    obtain ⟨-, rfl⟩ := setOwnerCustom_eq_ok hk
    exact .inl h
  | place cap item =>
    obtain ⟨kiosk, hk, rfl, -⟩ := hs
    exact .inl (h.placeInternal (place_eq_ok hk).2)
  | lock cap item =>
    obtain ⟨kiosk, hk, rfl, -⟩ := hs
    exact .inl (h.lockInternal (lock_eq_ok hk).2)
  | take cap id ty =>
    obtain ⟨kiosk, item, hk, rfl, rfl⟩ := hs
    obtain ⟨-, hlock, -, -, items, hitems, rfl, rfl⟩ := take_eq_ok hk
    by_cases hx : x = id
    · subst hx
      exact .inr (.inr ⟨rfl, hlock⟩)
    · exact .inl (h.remove hitems (fun _ hb => hb) hx)
  | list cap id ty price =>
    obtain ⟨kiosk, hk, rfl, -⟩ := hs
    obtain ⟨-, -, -, listings, -, rfl⟩ := list_eq_ok hk
    exact .inl h
  | placeAndList cap item price =>
    obtain ⟨kiosk, hk, rfl, -⟩ := hs
    obtain ⟨k, hplace, hlist⟩ := placeAndList_eq_ok hk
    obtain ⟨-, -, -, listings, -, rfl⟩ := list_eq_ok hlist
    have hplaced := h.placeInternal (place_eq_ok hplace).2
    exact .inl hplaced
  | delist cap id ty =>
    obtain ⟨kiosk, hk, rfl, -⟩ := hs
    obtain ⟨-, price, listings, -, rfl⟩ := delist_eq_ok hk
    exact .inl h
  | purchase id ty payment =>
    obtain ⟨kiosk, item, request, hk, rfl, rfl⟩ := hs
    obtain ⟨-, -, ⟨listings, -, items, hitems, rfl⟩, rfl, -⟩ := purchase_eq_ok hk
    by_cases hx : x = id
    · subst hx
      exact .inr (.inl rfl)
    · exact .inl (h.remove hitems (fun _ hb => hb) hx)
  | listWithPurchaseCap cap id ty minPrice =>
    obtain ⟨kiosk, pc, hk, rfl, -⟩ := hs
    obtain ⟨-, -, -, -, ⟨listings, -, rfl⟩, -⟩ := listWithPurchaseCap_eq_ok hk
    exact .inl h
  | purchaseWithCap pc payment =>
    obtain ⟨-, kiosk, item, request, hk, rfl, rfl⟩ := hs
    obtain ⟨-, -, -, -, ⟨price, listings, -, items, hitems, rfl⟩, rfl, -⟩ := purchaseWithCap_eq_ok hk
    by_cases hx : x = pc.itemId
    · subst hx
      exact .inr (.inl rfl)
    · exact .inl (h.remove hitems (fun _ hb => hb) hx)
  | returnPurchaseCap pc =>
    obtain ⟨-, kiosk, hk, rfl, -⟩ := hs
    obtain ⟨-, price, listings, -, rfl⟩ := returnPurchaseCap_eq_ok hk
    exact .inl h
  | withdraw cap amount =>
    obtain ⟨kiosk, coin, hk, rfl, -⟩ := hs
    obtain ⟨-, -, rfl⟩ := withdraw_eq_ok hk
    exact .inl h
  | placeInternal item =>
    obtain ⟨kiosk, hk, rfl, -⟩ := hs
    exact .inl (h.placeInternal hk)
  | lockInternal item =>
    obtain ⟨kiosk, hk, rfl, -⟩ := hs
    exact .inl (h.lockInternal hk)
  | setAllowExtensions cap allowExtensions =>
    obtain ⟨kiosk, hk, rfl, -⟩ := hs
    obtain ⟨-, rfl⟩ := setAllowExtensions_eq_ok hk
    exact .inl h
  | uidMutAsOwner | uidMut | borrow | borrowMut =>
    obtain ⟨-, rfl, -⟩ := hs
    exact .inl h
  | profitsMut cap value =>
    obtain ⟨kiosk, hk, rfl, -⟩ := hs
    obtain ⟨-, -, rfl⟩ := profitsMut_eq_ok hk
    exact .inl h
  | borrowVal cap id ty =>
    obtain ⟨kiosk, item, b, hk, rfl, -⟩ := hs
    obtain ⟨-, -, -, ⟨items, hitems, rfl⟩, -, rfl⟩ := borrowVal_eq_ok hk
    -- the item borrowed is held through its `Borrow`
    by_cases hx : x = id
    · subst hx
      exact .inl (.inr (List.mem_map.mpr ⟨_, List.mem_append_right _ (List.mem_singleton_self _), rfl⟩))
    · exact .inl (h.remove hitems (fun _ hb => List.mem_append_left _ hb) hx)
  | returnVal item b =>
    obtain ⟨hb, kiosk, hk, rfl, -⟩ := hs
    obtain ⟨-, -, items, hitems, rfl⟩ := returnVal_eq_ok hk
    have hikeys := fun (i : Item) => (VecMap.mem_keys_of_insert hitems : i ∈ _ ↔ _)
    left
    rcases h with hx | hx
    · exact .inl ((hikeys _).mpr (.inl hx))
    · by_cases hxb : x = b.itemId
      · exact .inl ((hikeys _).mpr (.inr (congrArg Item.mk hxb)))
      · exact .inr (mem_map_itemId_erase hx hxb)

/-- A lock stays, unless the call sells its item. -/
theorem step_locks {x : Nat} (h : (⟨x⟩ : Lock) ∈ w.kiosk.locks.keys) {c : Call Ty}
    (hs : w.step c = .ok (w', out)) : (⟨x⟩ : Lock) ∈ w'.kiosk.locks.keys ∨ out.sold = some x := by
  have hs := step_spec hs
  -- a lock added keeps the others
  have hlockInternal : ∀ {k : Kiosk Ty} {item : Object Ty}, w.kiosk.lockInternal item = .ok k →
      (⟨x⟩ : Lock) ∈ k.locks.keys := fun hk => by
    obtain ⟨locks, hlocks, hk⟩ := lockInternal_eq_ok hk
    obtain ⟨-, items, -, rfl⟩ := placeInternal_eq_ok hk
    exact (VecMap.mem_keys_of_insert hlocks).mpr (.inl h)
  cases c with
  | closeAndWithdraw cap =>
    obtain ⟨_, -, rfl, -⟩ := hs
    exact .inl h
  | setOwner cap owner | setOwnerCustom cap owner =>
    obtain ⟨kiosk, hk, rfl, -⟩ := hs
    obtain ⟨-, rfl⟩ := setOwnerCustom_eq_ok hk
    exact .inl h
  | place cap item =>
    obtain ⟨kiosk, hk, rfl, -⟩ := hs
    obtain ⟨-, items, -, rfl⟩ := placeInternal_eq_ok (place_eq_ok hk).2
    exact .inl h
  | lock cap item =>
    obtain ⟨kiosk, hk, rfl, -⟩ := hs
    exact .inl (hlockInternal (lock_eq_ok hk).2)
  | take cap id ty =>
    obtain ⟨kiosk, item, hk, rfl, -⟩ := hs
    obtain ⟨-, -, -, -, items, -, rfl, -⟩ := take_eq_ok hk
    exact .inl h
  | list cap id ty price =>
    obtain ⟨kiosk, hk, rfl, -⟩ := hs
    obtain ⟨-, -, -, listings, -, rfl⟩ := list_eq_ok hk
    exact .inl h
  | placeAndList cap item price =>
    obtain ⟨kiosk, hk, rfl, -⟩ := hs
    obtain ⟨k, hplace, hlist⟩ := placeAndList_eq_ok hk
    obtain ⟨-, -, -, listings, -, rfl⟩ := list_eq_ok hlist
    obtain ⟨-, items, -, rfl⟩ := placeInternal_eq_ok (place_eq_ok hplace).2
    exact .inl h
  | delist cap id ty =>
    obtain ⟨kiosk, hk, rfl, -⟩ := hs
    obtain ⟨-, price, listings, -, rfl⟩ := delist_eq_ok hk
    exact .inl h
  | purchase id ty payment =>
    obtain ⟨kiosk, item, request, hk, rfl, rfl⟩ := hs
    obtain ⟨-, -, ⟨listings, -, items, -, rfl⟩, rfl, -⟩ := purchase_eq_ok hk
    by_cases hx : x = id
    · subst hx
      exact .inr rfl
    · exact .inl (mem_keys_fieldRemoveIfExists.mpr ⟨h, fun heq => hx (congrArg Lock.id heq)⟩)
  | listWithPurchaseCap cap id ty minPrice =>
    obtain ⟨kiosk, pc, hk, rfl, -⟩ := hs
    obtain ⟨-, -, -, -, ⟨listings, -, rfl⟩, -⟩ := listWithPurchaseCap_eq_ok hk
    exact .inl h
  | purchaseWithCap pc payment =>
    obtain ⟨-, kiosk, item, request, hk, rfl, rfl⟩ := hs
    obtain ⟨-, -, -, -, ⟨price, listings, -, items, -, rfl⟩, rfl, -⟩ := purchaseWithCap_eq_ok hk
    by_cases hx : x = pc.itemId
    · subst hx
      exact .inr rfl
    · exact .inl (mem_keys_fieldRemoveIfExists.mpr ⟨h, fun heq => hx (congrArg Lock.id heq)⟩)
  | returnPurchaseCap pc =>
    obtain ⟨-, kiosk, hk, rfl, -⟩ := hs
    obtain ⟨-, price, listings, -, rfl⟩ := returnPurchaseCap_eq_ok hk
    exact .inl h
  | withdraw cap amount =>
    obtain ⟨kiosk, coin, hk, rfl, -⟩ := hs
    obtain ⟨-, -, rfl⟩ := withdraw_eq_ok hk
    exact .inl h
  | placeInternal item =>
    obtain ⟨kiosk, hk, rfl, -⟩ := hs
    obtain ⟨-, items, -, rfl⟩ := placeInternal_eq_ok hk
    exact .inl h
  | lockInternal item =>
    obtain ⟨kiosk, hk, rfl, -⟩ := hs
    exact .inl (hlockInternal hk)
  | setAllowExtensions cap allowExtensions =>
    obtain ⟨kiosk, hk, rfl, -⟩ := hs
    obtain ⟨-, rfl⟩ := setAllowExtensions_eq_ok hk
    exact .inl h
  | uidMutAsOwner | uidMut | borrow | borrowMut =>
    obtain ⟨-, rfl, -⟩ := hs
    exact .inl h
  | profitsMut cap value =>
    obtain ⟨kiosk, hk, rfl, -⟩ := hs
    obtain ⟨-, -, rfl⟩ := profitsMut_eq_ok hk
    exact .inl h
  | borrowVal cap id ty =>
    obtain ⟨kiosk, item, b, hk, rfl, -⟩ := hs
    obtain ⟨-, -, -, ⟨items, -, rfl⟩, -, -⟩ := borrowVal_eq_ok hk
    exact .inl h
  | returnVal item b =>
    obtain ⟨-, kiosk, hk, rfl, -⟩ := hs
    obtain ⟨-, -, items, -, rfl⟩ := returnVal_eq_ok hk
    exact .inl h

end World

-- ============================================================================
-- Where the profits go, and what needs the owner's cap
-- ============================================================================

namespace World

variable {w w' : World Ty} {out : Output Ty}

/-- The profits the kiosk holds; a closed kiosk holds none. -/
def balance (w : World Ty) : Nat := if w.closed then 0 else w.kiosk.profits

/-- Apart from `profits_mut`, the balance changes by what a sale paid in and
    what a coin handed out. -/
theorem step_balance {c : Call Ty} (hc : c.isProfitsMut = false) (hs : w.step c = .ok (w', out)) :
    w'.balance + out.withdrawn = w.balance + out.paid := by
  have hopen := closed_eq_false_of_step hs
  have hs := step_spec hs
  cases c with
  | closeAndWithdraw cap =>
    -- the coin is all the profits, and nothing is left
    obtain ⟨profits, hk, rfl, rfl⟩ := hs
    obtain ⟨-, -, rfl⟩ := closeAndWithdraw_eq_ok hk
    simp [balance, hopen, Output.withdrawn, Output.paid]
  | setOwner cap owner | setOwnerCustom cap owner =>
    obtain ⟨kiosk, hk, rfl, rfl⟩ := hs
    obtain ⟨-, rfl⟩ := setOwnerCustom_eq_ok hk
    rfl
  | place cap item =>
    obtain ⟨kiosk, hk, rfl, rfl⟩ := hs
    obtain ⟨-, items, -, rfl⟩ := placeInternal_eq_ok (place_eq_ok hk).2
    rfl
  | lock cap item =>
    obtain ⟨kiosk, hk, rfl, rfl⟩ := hs
    obtain ⟨locks, -, hk⟩ := lockInternal_eq_ok (lock_eq_ok hk).2
    obtain ⟨-, items, -, rfl⟩ := placeInternal_eq_ok hk
    rfl
  | take cap id ty =>
    obtain ⟨kiosk, item, hk, rfl, rfl⟩ := hs
    obtain ⟨-, -, -, -, items, -, rfl, -⟩ := take_eq_ok hk
    rfl
  | list cap id ty price =>
    obtain ⟨kiosk, hk, rfl, rfl⟩ := hs
    obtain ⟨-, -, -, listings, -, rfl⟩ := list_eq_ok hk
    rfl
  | placeAndList cap item price =>
    obtain ⟨kiosk, hk, rfl, rfl⟩ := hs
    obtain ⟨k, hplace, hlist⟩ := placeAndList_eq_ok hk
    obtain ⟨-, -, -, listings, -, rfl⟩ := list_eq_ok hlist
    obtain ⟨-, items, -, rfl⟩ := placeInternal_eq_ok (place_eq_ok hplace).2
    rfl
  | delist cap id ty =>
    obtain ⟨kiosk, hk, rfl, rfl⟩ := hs
    obtain ⟨-, price, listings, -, rfl⟩ := delist_eq_ok hk
    rfl
  | purchase id ty payment =>
    obtain ⟨kiosk, item, request, hk, rfl, rfl⟩ := hs
    obtain ⟨-, -, ⟨listings, -, items, -, rfl⟩, -, rfl⟩ := purchase_eq_ok hk
    simp [balance, hopen, Output.withdrawn, Output.paid]
  | listWithPurchaseCap cap id ty minPrice =>
    obtain ⟨kiosk, pc, hk, rfl, rfl⟩ := hs
    obtain ⟨-, -, -, -, ⟨listings, -, rfl⟩, -⟩ := listWithPurchaseCap_eq_ok hk
    rfl
  | purchaseWithCap pc payment =>
    obtain ⟨-, kiosk, item, request, hk, rfl, rfl⟩ := hs
    obtain ⟨-, -, -, -, ⟨price, listings, -, items, -, rfl⟩, -, rfl⟩ := purchaseWithCap_eq_ok hk
    simp [balance, hopen, Output.withdrawn, Output.paid]
  | returnPurchaseCap pc =>
    obtain ⟨-, kiosk, hk, rfl, rfl⟩ := hs
    obtain ⟨-, price, listings, -, rfl⟩ := returnPurchaseCap_eq_ok hk
    rfl
  | withdraw cap amount =>
    obtain ⟨kiosk, coin, hk, rfl, rfl⟩ := hs
    obtain ⟨-, hle, rfl⟩ := withdraw_eq_ok hk
    simp only [balance, hopen, Bool.false_eq_true, if_false, Output.withdrawn, Output.paid]
    omega
  | placeInternal item =>
    obtain ⟨kiosk, hk, rfl, rfl⟩ := hs
    obtain ⟨-, items, -, rfl⟩ := placeInternal_eq_ok hk
    rfl
  | lockInternal item =>
    obtain ⟨kiosk, hk, rfl, rfl⟩ := hs
    obtain ⟨locks, -, hk⟩ := lockInternal_eq_ok hk
    obtain ⟨-, items, -, rfl⟩ := placeInternal_eq_ok hk
    rfl
  | setAllowExtensions cap allowExtensions =>
    obtain ⟨kiosk, hk, rfl, rfl⟩ := hs
    obtain ⟨-, rfl⟩ := setAllowExtensions_eq_ok hk
    rfl
  | uidMutAsOwner | uidMut | borrow | borrowMut =>
    obtain ⟨-, rfl, rfl⟩ := hs
    rfl
  | profitsMut => cases hc
  | borrowVal cap id ty =>
    obtain ⟨kiosk, item, b, hk, rfl, rfl⟩ := hs
    obtain ⟨-, -, -, ⟨items, -, rfl⟩, -, -⟩ := borrowVal_eq_ok hk
    rfl
  | returnVal item b =>
    obtain ⟨-, kiosk, hk, rfl, rfl⟩ := hs
    obtain ⟨-, -, items, -, rfl⟩ := returnVal_eq_ok hk
    rfl

/-- A call that presents an owner cap goes through only with the kiosk's own. -/
theorem ownerCap_of_step {c : Call Ty} (hs : w.step c = .ok (w', out)) {cap : KioskOwnerCap}
    (hc : c.ownerCap = some cap) : cap = ⟨w.kiosk.id⟩ := by
  have hs := step_spec hs
  -- each such call first compares the cap with the kiosk
  suffices hfor : w.kiosk.id = cap.for_ by rw [hfor]
  cases c with
  | closeAndWithdraw cap' =>
    cases hc
    obtain ⟨_, hk, -, -⟩ := hs
    exact (closeAndWithdraw_eq_ok hk).1
  | setOwner cap' owner | setOwnerCustom cap' owner =>
    cases hc
    obtain ⟨_, hk, -, -⟩ := hs
    exact (setOwnerCustom_eq_ok hk).1
  | place cap' item =>
    cases hc
    obtain ⟨_, hk, -, -⟩ := hs
    exact (place_eq_ok hk).1
  | lock cap' item =>
    cases hc
    obtain ⟨_, hk, -, -⟩ := hs
    exact (lock_eq_ok hk).1
  | take cap' id ty =>
    cases hc
    obtain ⟨_, _, hk, -, -⟩ := hs
    exact (take_eq_ok hk).1
  | list cap' id ty price =>
    cases hc
    obtain ⟨_, hk, -, -⟩ := hs
    exact (list_eq_ok hk).1
  | placeAndList cap' item price =>
    cases hc
    obtain ⟨_, hk, -, -⟩ := hs
    obtain ⟨k, hplace, -⟩ := placeAndList_eq_ok hk
    exact (place_eq_ok hplace).1
  | delist cap' id ty =>
    cases hc
    obtain ⟨_, hk, -, -⟩ := hs
    exact (delist_eq_ok hk).1
  | listWithPurchaseCap cap' id ty minPrice =>
    cases hc
    obtain ⟨_, _, hk, -, -⟩ := hs
    exact (listWithPurchaseCap_eq_ok hk).1
  | withdraw cap' amount =>
    cases hc
    obtain ⟨_, _, hk, -, -⟩ := hs
    exact (withdraw_eq_ok hk).1
  | setAllowExtensions cap' allowExtensions =>
    cases hc
    obtain ⟨_, hk, -, -⟩ := hs
    exact (setAllowExtensions_eq_ok hk).1
  | uidMutAsOwner cap' =>
    cases hc
    exact uidMutAsOwner_eq_ok hs.1
  | profitsMut cap' value =>
    cases hc
    obtain ⟨_, hk, -, -⟩ := hs
    exact (profitsMut_eq_ok hk).1
  | borrow cap' id ty =>
    cases hc
    exact borrow_eq_ok hs.1
  | borrowMut cap' id ty =>
    cases hc
    exact borrowMut_eq_ok hs.1
  | borrowVal cap' id ty =>
    cases hc
    obtain ⟨_, _, _, hk, -, -⟩ := hs
    exact (borrowVal_eq_ok hk).1
  | purchase | purchaseWithCap | returnPurchaseCap | placeInternal | lockInternal | uidMut | returnVal => cases hc

/-- A call that presents no owner cap keeps the kiosk's id, owner and
    extensions flag, adds to its profits only what a sale paid, and takes no
    item out. -/
theorem step_of_ownerCap_none {c : Call Ty} (hc : c.ownerCap = none) (hs : w.step c = .ok (w', out)) :
    w'.kiosk.id = w.kiosk.id ∧ w'.kiosk.owner = w.kiosk.owner ∧
      w'.kiosk.allowExtensions = w.kiosk.allowExtensions ∧ w'.kiosk.profits = w.kiosk.profits + out.paid ∧
      out.taken = none := by
  have hs := step_spec hs
  cases c with
  | purchase id ty payment =>
    obtain ⟨kiosk, item, request, hk, rfl, rfl⟩ := hs
    obtain ⟨-, -, ⟨listings, -, items, -, rfl⟩, rfl, rfl⟩ := purchase_eq_ok hk
    exact ⟨rfl, rfl, rfl, rfl, rfl⟩
  | purchaseWithCap pc payment =>
    obtain ⟨-, kiosk, item, request, hk, rfl, rfl⟩ := hs
    obtain ⟨-, -, -, -, ⟨price, listings, -, items, -, rfl⟩, rfl, rfl⟩ := purchaseWithCap_eq_ok hk
    exact ⟨rfl, rfl, rfl, rfl, rfl⟩
  | returnPurchaseCap pc =>
    obtain ⟨-, kiosk, hk, rfl, rfl⟩ := hs
    obtain ⟨-, price, listings, -, rfl⟩ := returnPurchaseCap_eq_ok hk
    exact ⟨rfl, rfl, rfl, rfl, rfl⟩
  | placeInternal item =>
    obtain ⟨kiosk, hk, rfl, rfl⟩ := hs
    obtain ⟨-, items, -, rfl⟩ := placeInternal_eq_ok hk
    exact ⟨rfl, rfl, rfl, rfl, rfl⟩
  | lockInternal item =>
    obtain ⟨kiosk, hk, rfl, rfl⟩ := hs
    obtain ⟨locks, -, hk⟩ := lockInternal_eq_ok hk
    obtain ⟨-, items, -, rfl⟩ := placeInternal_eq_ok hk
    exact ⟨rfl, rfl, rfl, rfl, rfl⟩
  | uidMut =>
    obtain ⟨-, rfl, rfl⟩ := hs
    exact ⟨rfl, rfl, rfl, rfl, rfl⟩
  | returnVal item b =>
    obtain ⟨-, kiosk, hk, rfl, rfl⟩ := hs
    obtain ⟨-, -, items, -, rfl⟩ := returnVal_eq_ok hk
    exact ⟨rfl, rfl, rfl, rfl, rfl⟩
  | closeAndWithdraw | setOwner | setOwnerCustom | place | lock | take | list | placeAndList | delist
  | listWithPurchaseCap | withdraw | setAllowExtensions | uidMutAsOwner | profitsMut | borrow | borrowMut
  | borrowVal => cases hc

end World

-- ============================================================================
-- Runs of the kiosk
-- ============================================================================

section Properties

variable {w w' : World Ty} {c : Call Ty} {out : Output Ty} {log : List (Call Ty × Output Ty)} {x : Nat}

/-- Item `x` is locked and held, or the log sold it. -/
def LockedOrSold (x : Nat) (w : World Ty) (log : List (Call Ty × Output Ty)) : Prop :=
  ((⟨x⟩ : Lock) ∈ w.kiosk.locks.keys ∧ Holds x w) ∨ ∃ p ∈ log, p.2.sold = some x

/-- A call keeps a locked item locked and held, or sells it: `take` does not
    take a locked item. -/
theorem LockedOrSold.step (h : LockedOrSold x w log) (hs : w.step c = .ok (w', out)) :
    LockedOrSold x w' (log ++ [(c, out)]) := by
  rcases h with ⟨hlock, hheld⟩ | ⟨p, hp, hsold⟩
  · rcases World.step_locks hlock hs with hlock' | hsold
    · rcases World.step_holds hheld hs with hheld' | hsold | ⟨-, hunlocked⟩
      · exact .inl ⟨hlock', hheld'⟩
      · exact .inr ⟨(c, out), by simp, hsold⟩
      · exact absurd hlock hunlocked
    · exact .inr ⟨(c, out), by simp, hsold⟩
  · exact .inr ⟨p, List.mem_append_left _ hp, hsold⟩

/-- Over a run, a locked item in the kiosk stays locked and in it, or a call
    of the run sells it. -/
theorem LockedOrSold.run (w : World Ty) (txs : List (List (Call Ty)))
    (hlock : (⟨x⟩ : Lock) ∈ w.kiosk.locks.keys) (hin : (⟨x⟩ : Item) ∈ w.kiosk.items.keys) :
    ((⟨x⟩ : Lock) ∈ (w.run txs).1.kiosk.locks.keys ∧ (⟨x⟩ : Item) ∈ (w.run txs).1.kiosk.items.keys) ∨
      ∃ p ∈ (w.run txs).2, p.2.sold = some x := by
  -- between transactions no borrow is out, so an item held is in the kiosk
  have hrun := World.run_preserves_of_step (fun _ => True) (LockedOrSold x)
    (fun w log => ((⟨x⟩ : Lock) ∈ w.kiosk.locks.keys ∧ (⟨x⟩ : Item) ∈ w.kiosk.items.keys) ∨
      ∃ p ∈ log, p.2.sold = some x)
    (fun _ hp hs => hp.step hs) (fun hq => hq.imp_left fun ⟨hl, hi⟩ => ⟨hl, .inl hi⟩)
    (fun hb hp => hp.imp_left fun ⟨hl, hheld⟩ => ⟨hl, hheld.resolve_right (by simp [hb])⟩)
    txs w [] (fun _ _ _ _ => trivial) (.inl ⟨hlock, hin⟩)
  simpa using hrun

/-- A locked item leaves the kiosk only by a sale: if it is gone after a run,
    a `purchase` or `purchase_with_cap` of the run sold it. -/
theorem locked_item_leaves_by_sale (w : World Ty) (txs : List (List (Call Ty)))
    (hlock : (⟨x⟩ : Lock) ∈ w.kiosk.locks.keys) (hin : (⟨x⟩ : Item) ∈ w.kiosk.items.keys)
    (hgone : (⟨x⟩ : Item) ∉ (w.run txs).1.kiosk.items.keys) : ∃ p ∈ (w.run txs).2, p.2.sold = some x :=
  (LockedOrSold.run w txs hlock hin).resolve_left fun ⟨_, hin'⟩ => hgone hin'

theorem locked_item_leaves_by_sale_purchase :
    (⟨5⟩ : Lock) ∈ ((World.new 1 7 : World Bool).run [[.lock ⟨1⟩ ⟨5, true⟩, .list ⟨1⟩ 5 true 100]]).1.kiosk.locks.keys ∧
      (⟨5⟩ : Item) ∈ ((World.new 1 7 : World Bool).run
        [[.lock ⟨1⟩ ⟨5, true⟩, .list ⟨1⟩ 5 true 100]]).1.kiosk.items.keys ∧
      (⟨5⟩ : Item) ∉ (((World.new 1 7 : World Bool).run [[.lock ⟨1⟩ ⟨5, true⟩, .list ⟨1⟩ 5 true 100]]).1.run
        [[.take ⟨1⟩ 5 true], [.purchase 5 true 100]]).1.kiosk.items.keys ∧
      ∃ p ∈ (((World.new 1 7 : World Bool).run [[.lock ⟨1⟩ ⟨5, true⟩, .list ⟨1⟩ 5 true 100]]).1.run
        [[.take ⟨1⟩ 5 true], [.purchase 5 true 100]]).2, p.2.sold = some 5 :=
  ⟨by decide, by decide, by decide, locked_item_leaves_by_sale _ _ (by decide) (by decide) (by decide)⟩

/-- Item `x` is held, or the log sold it or took it out. -/
def HeldOrReleased (x : Nat) (w : World Ty) (log : List (Call Ty × Output Ty)) : Prop :=
  Holds x w ∨ ∃ p ∈ log, p.2.sold = some x ∨ p.2.taken = some x

theorem HeldOrReleased.step (h : HeldOrReleased x w log) (hs : w.step c = .ok (w', out)) :
    HeldOrReleased x w' (log ++ [(c, out)]) := by
  rcases h with hheld | ⟨p, hp, hreleased⟩
  · rcases World.step_holds hheld hs with hheld' | hsold | ⟨htaken, -⟩
    · exact .inl hheld'
    · exact .inr ⟨(c, out), by simp, .inl hsold⟩
    · exact .inr ⟨(c, out), by simp, .inr htaken⟩
  · exact .inr ⟨p, List.mem_append_left _ hp, hreleased⟩

/-- No item is lost: an item that is gone from the kiosk after a run was sold
    or taken out by a call of the run. -/
theorem item_leaves_by_take_or_sale (w : World Ty) (txs : List (List (Call Ty)))
    (hin : (⟨x⟩ : Item) ∈ w.kiosk.items.keys) (hgone : (⟨x⟩ : Item) ∉ (w.run txs).1.kiosk.items.keys) :
    ∃ p ∈ (w.run txs).2, p.2.sold = some x ∨ p.2.taken = some x := by
  have hrun := World.run_preserves_of_step (fun _ => True) (HeldOrReleased x)
    (fun w log => (⟨x⟩ : Item) ∈ w.kiosk.items.keys ∨ ∃ p ∈ log, p.2.sold = some x ∨ p.2.taken = some x)
    (fun _ hp hs => hp.step hs) (fun hq => hq.imp_left .inl)
    (fun hb hp => hp.imp_left fun hheld => hheld.resolve_right (by simp [hb]))
    txs w [] (fun _ _ _ _ => trivial) (.inl hin)
  rcases hrun with hin' | ⟨p, hp, hreleased⟩
  · exact absurd hin' hgone
  · exact ⟨p, by simpa using hp, hreleased⟩

theorem item_leaves_by_take_or_sale_take :
    (⟨5⟩ : Item) ∈ ((World.new 1 7 : World Bool).run [[.place ⟨1⟩ ⟨5, true⟩]]).1.kiosk.items.keys ∧
      (⟨5⟩ : Item) ∉ (((World.new 1 7 : World Bool).run [[.place ⟨1⟩ ⟨5, true⟩]]).1.run
        [[.borrowVal ⟨1⟩ 5 true], [.take ⟨1⟩ 5 true]]).1.kiosk.items.keys ∧
      ∃ p ∈ (((World.new 1 7 : World Bool).run [[.place ⟨1⟩ ⟨5, true⟩]]).1.run
        [[.borrowVal ⟨1⟩ 5 true], [.take ⟨1⟩ 5 true]]).2, p.2.sold = some 5 ∨ p.2.taken = some 5 :=
  ⟨by decide, by decide, item_leaves_by_take_or_sale _ _ (by decide) (by decide)⟩

/-- The profits are conserved: apart from `profits_mut`, what the kiosk holds
    after a run and the coins the run handed out are what it held before and
    what the run's sales paid. -/
theorem balance_run (w : World Ty) (txs : List (List (Call Ty)))
    (hS : ∀ tx ∈ txs, ∀ c ∈ tx, c.isProfitsMut = false) :
    (w.run txs).1.balance + ((w.run txs).2.map fun p => p.2.withdrawn).sum =
      w.balance + ((w.run txs).2.map fun p => p.2.paid).sum := by
  have hrun := World.run_preserves_of_step (fun c : Call Ty => c.isProfitsMut = false)
    (fun w' log => w'.balance + (log.map fun p => p.2.withdrawn).sum = w.balance + (log.map fun p => p.2.paid).sum)
    (fun w' log => w'.balance + (log.map fun p => p.2.withdrawn).sum = w.balance + (log.map fun p => p.2.paid).sum)
    (fun hc hp hs => by
      have hstep := World.step_balance hc hs
      simp only [List.map_append, List.sum_append, List.map_cons, List.map_nil, List.sum_cons, List.sum_nil]
      omega)
    (fun hq => hq) (fun _ hp => hp) txs w [] hS (by simp)
  simpa using hrun

theorem balance_run_sale_withdraw :
    (∀ tx ∈ ([[.purchase 5 true 100], [.withdraw ⟨1⟩ (some 30)]] : List (List (Call Bool))), ∀ c ∈ tx,
      c.isProfitsMut = false) ∧
      (((World.new 1 7 : World Bool).run [[.place ⟨1⟩ ⟨5, true⟩, .list ⟨1⟩ 5 true 100]]).1.run
        [[.purchase 5 true 100], [.withdraw ⟨1⟩ (some 30)]]).1.balance +
        ((((World.new 1 7 : World Bool).run [[.place ⟨1⟩ ⟨5, true⟩, .list ⟨1⟩ 5 true 100]]).1.run
          [[.purchase 5 true 100], [.withdraw ⟨1⟩ (some 30)]]).2.map fun p => p.2.withdrawn).sum =
      ((World.new 1 7 : World Bool).run [[.place ⟨1⟩ ⟨5, true⟩, .list ⟨1⟩ 5 true 100]]).1.balance +
        ((((World.new 1 7 : World Bool).run [[.place ⟨1⟩ ⟨5, true⟩, .list ⟨1⟩ 5 true 100]]).1.run
          [[.purchase 5 true 100], [.withdraw ⟨1⟩ (some 30)]]).2.map fun p => p.2.paid).sum :=
  ⟨by decide, balance_run _ _ (by decide)⟩

/-- What a run that does not present the kiosk's owner cap keeps of the world
    `w0` it started from. -/
structure OwnerKept (w0 w : World Ty) (log : List (Call Ty × Output Ty)) : Prop where
  id : w.kiosk.id = w0.kiosk.id
  owner : w.kiosk.owner = w0.kiosk.owner
  allowExtensions : w.kiosk.allowExtensions = w0.kiosk.allowExtensions
  profits : w.kiosk.profits = w0.kiosk.profits + (log.map fun p => p.2.paid).sum
  not_taken : ∀ p ∈ log, p.2.taken = none

theorem OwnerKept.step {w0 : World Ty} (h : OwnerKept w0 w log) (hc : c.ownerCap ≠ some ⟨w0.kiosk.id⟩)
    (hs : w.step c = .ok (w', out)) : OwnerKept w0 w' (log ++ [(c, out)]) := by
  -- the one cap that passes is the kiosk's own, which the run does not present
  have hnone : c.ownerCap = none := by
    cases hco : c.ownerCap with
    | none => rfl
    | some cap =>
      rw [World.ownerCap_of_step hs hco, h.id] at hco
      exact absurd hco hc
  obtain ⟨hid, howner, hext, hprofits, htaken⟩ := World.step_of_ownerCap_none hnone hs
  refine ⟨hid.trans h.id, howner.trans h.owner, hext.trans h.allowExtensions, ?_, ?_⟩
  · rw [hprofits, h.profits]
    simp only [List.map_append, List.sum_append, List.map_cons, List.map_nil, List.sum_cons, List.sum_nil]
    omega
  · intro p hp
    rcases List.mem_append.mp hp with hp | hp
    · exact h.not_taken p hp
    · rw [List.mem_singleton.mp hp]
      exact htaken

/-- Only the owner manages the kiosk: a run whose calls present no owner cap
    of the kiosk leaves its owner and extensions flag as they were, adds to its
    profits exactly what its sales paid, and takes no item out. -/
theorem run_without_ownerCap (w : World Ty) (txs : List (List (Call Ty)))
    (hS : ∀ tx ∈ txs, ∀ c ∈ tx, c.ownerCap ≠ some ⟨w.kiosk.id⟩) :
    (w.run txs).1.kiosk.owner = w.kiosk.owner ∧ (w.run txs).1.kiosk.allowExtensions = w.kiosk.allowExtensions ∧
      (w.run txs).1.kiosk.profits = w.kiosk.profits + ((w.run txs).2.map fun p => p.2.paid).sum ∧
      ∀ p ∈ (w.run txs).2, p.2.taken = none := by
  have hrun := World.run_preserves_of_step (fun c : Call Ty => c.ownerCap ≠ some ⟨w.kiosk.id⟩) (OwnerKept w)
    (OwnerKept w) (fun hc hp hs => hp.step hc hs) (fun hq => hq) (fun _ hp => hp) txs w [] hS
    ⟨rfl, rfl, rfl, rfl, fun _ hp => by cases hp⟩
  simp only [List.nil_append] at hrun
  exact ⟨hrun.owner, hrun.allowExtensions, hrun.profits, hrun.not_taken⟩

theorem run_without_ownerCap_wrong_cap :
    (∀ tx ∈ ([[.purchase 5 true 100], [.take ⟨2⟩ 5 true, .withdraw ⟨2⟩ none]] : List (List (Call Bool))), ∀ c ∈ tx,
      c.ownerCap ≠ some ⟨((World.new 1 7 : World Bool).run
        [[.place ⟨1⟩ ⟨5, true⟩, .list ⟨1⟩ 5 true 100]]).1.kiosk.id⟩) ∧
      (((World.new 1 7 : World Bool).run [[.place ⟨1⟩ ⟨5, true⟩, .list ⟨1⟩ 5 true 100]]).1.run
        [[.purchase 5 true 100], [.take ⟨2⟩ 5 true, .withdraw ⟨2⟩ none]]).1.kiosk.profits =
        ((World.new 1 7 : World Bool).run [[.place ⟨1⟩ ⟨5, true⟩, .list ⟨1⟩ 5 true 100]]).1.kiosk.profits +
          ((((World.new 1 7 : World Bool).run [[.place ⟨1⟩ ⟨5, true⟩, .list ⟨1⟩ 5 true 100]]).1.run
            [[.purchase 5 true 100], [.take ⟨2⟩ 5 true, .withdraw ⟨2⟩ none]]).2.map fun p => p.2.paid).sum :=
  ⟨by decide, (run_without_ownerCap _ _ (by decide)).2.2.1⟩

omit [DecidableEq Ty] in
/-- A kiosk that `close_and_withdraw` accepts holds nothing: no item, listing
    or lock, and no cap or borrow of it is out, so deleting it loses nothing. -/
theorem closeAndWithdraw_leaves_nothing (h : Inv w) {cap : KioskOwnerCap} {profits : Nat}
    (hc : w.kiosk.closeAndWithdraw cap = .ok profits) :
    w.kiosk.items.keys = [] ∧ w.kiosk.listings.keys = [] ∧ w.kiosk.locks.keys = [] ∧ w.caps = [] ∧
      w.borrows = [] := by
  obtain ⟨-, hzero, -⟩ := closeAndWithdraw_eq_ok hc
  -- `item_count` is zero, and it counts the items and the borrows
  have hcount := h.count
  have hitems : w.kiosk.items.keys = [] := by
    rw [← List.length_eq_zero_iff, VecMap.keys, List.length_map]
    unfold VecMap.size at hcount
    omega
  have hborrows : w.borrows = [] := List.length_eq_zero_iff.mp (by omega)
  have hnone : ∀ i, (⟨i⟩ : Item) ∉ w.kiosk.items.keys := fun i hi => by
    rw [hitems] at hi
    cases hi
  refine ⟨hitems, ?_, ?_, ?_, hborrows⟩
  · exact List.eq_nil_iff_forall_not_mem.mpr fun l hl => hnone _ (h.listing_item l hl)
  · refine List.eq_nil_iff_forall_not_mem.mpr fun l hl => ?_
    rcases h.lock_item l hl with hi | hb
    · exact hnone _ hi
    · rw [hborrows] at hb
      cases hb
  · exact List.eq_nil_iff_forall_not_mem.mpr fun c hc => hnone _ (VecMap.mem_keys.mpr ⟨_, h.caps_item c hc⟩)

theorem closeAndWithdraw_leaves_nothing_after_take :
    Inv ((World.new 1 7 : World Bool).run [[.place ⟨1⟩ ⟨5, true⟩], [.take ⟨1⟩ 5 true]]).1 ∧
      ((World.new 1 7 : World Bool).run [[.place ⟨1⟩ ⟨5, true⟩], [.take ⟨1⟩ 5 true]]).1.kiosk.closeAndWithdraw ⟨1⟩ =
        .ok 0 ∧
      ((World.new 1 7 : World Bool).run [[.place ⟨1⟩ ⟨5, true⟩], [.take ⟨1⟩ 5 true]]).1.caps = [] :=
  have hinv := (Reachable.inv ⟨1, 7, _, rfl⟩).1
  ⟨hinv, by decide, (@closeAndWithdraw_leaves_nothing Bool _ hinv ⟨1⟩ 0 (by decide)).2.2.2.1⟩

omit [DecidableEq Ty] in
/-- The holder of a `PurchaseCap` finds its item listed exclusively. -/
theorem Inv.listed_of_held (h : Inv w) {pc : PurchaseCap Ty} (hpc : pc ∈ w.caps) :
    (⟨pc.itemId, true⟩ : Listing) ∈ w.kiosk.listings.keys := by
  by_contra hm
  exact itemId_ne_of_countP h.caps_listing hm pc hpc rfl

/-- An open kiosk always takes back a `PurchaseCap` it issued, and the item's
    exclusive listing ends: holding a cap never leaves an item stuck. -/
theorem returnPurchaseCap_of_held (h : Inv w) (hopen : w.closed = false) {pc : PurchaseCap Ty}
    (hpc : pc ∈ w.caps) :
    ∃ w', w.step (.returnPurchaseCap pc) = .ok (w', .none) ∧
      (⟨pc.itemId, true⟩ : Listing) ∉ w'.kiosk.listings.keys := by
  obtain ⟨price, hmem⟩ := VecMap.mem_keys.mp (h.listed_of_held hpc)
  obtain ⟨listings, hlistings⟩ := VecMap.remove_of_mem hmem
  have hk := returnPurchaseCap_of_listed (h.caps_kiosk pc hpc).symm hlistings
  refine ⟨{ w with kiosk := { w.kiosk with listings }, caps := w.caps.erase pc }, ?_,
    fun hm => ((VecMap.mem_keys_of_remove hlistings).mp hm).2 rfl⟩
  simp [World.step, hopen, hpc, hk, World.lift, Except.mapError]

theorem returnPurchaseCap_of_held_listed :
    (⟨1, 5, 100, true⟩ : PurchaseCap Bool) ∈ ((World.new 1 7 : World Bool).run
        [[.place ⟨1⟩ ⟨5, true⟩, .listWithPurchaseCap ⟨1⟩ 5 true 100]]).1.caps ∧
      ∃ w', ((World.new 1 7 : World Bool).run [[.place ⟨1⟩ ⟨5, true⟩, .listWithPurchaseCap ⟨1⟩ 5 true 100]]).1.step
        (.returnPurchaseCap ⟨1, 5, 100, true⟩) = .ok (w', .none) ∧ (⟨5, true⟩ : Listing) ∉ w'.kiosk.listings.keys :=
  ⟨by decide, @returnPurchaseCap_of_held Bool _ _ (Reachable.inv ⟨1, 7, _, rfl⟩).1 (by decide) ⟨1, 5, 100, true⟩
    (by decide)⟩

/-- An open kiosk always sells the item of a `PurchaseCap` it issued to its
    holder, for any payment of at least the cap's minimum price that its
    profits have room for. -/
theorem purchaseWithCap_of_held (h : Inv w) (hopen : w.closed = false) {pc : PurchaseCap Ty}
    (hpc : pc ∈ w.caps) {payment : Nat} (hmin : pc.minPrice ≤ payment)
    (hroom : w.kiosk.profits + payment ≤ u64Max) :
    ∃ w', w.step (.purchaseWithCap pc payment) =
      .ok (w', .sale ⟨pc.itemId, pc.ty⟩ ⟨pc.itemId, payment, w.kiosk.id, pc.ty⟩) := by
  obtain ⟨price, hmem⟩ := VecMap.mem_keys.mp (h.listed_of_held hpc)
  obtain ⟨listings, hlistings⟩ := VecMap.remove_of_mem hmem
  obtain ⟨items, hitems⟩ := VecMap.remove_of_mem (h.caps_item pc hpc)
  -- the item counts towards `item_count`
  have hcount : 1 ≤ w.kiosk.itemCount := by
    have := h.count
    have := VecMap.size_of_remove hitems
    omega
  have hk := purchaseWithCap_of_listed hmin (h.caps_kiosk pc hpc).symm hlistings hroom hcount hitems
  refine ⟨?world, ?sale⟩
  case sale =>
    unfold World.step
    rw [if_neg (by rw [hopen]; exact Bool.false_ne_true)]
    dsimp only
    rw [if_pos hpc, World.lift, hk]
    rfl

theorem purchaseWithCap_of_held_listed :
    (⟨1, 5, 100, true⟩ : PurchaseCap Bool) ∈ ((World.new 1 7 : World Bool).run
        [[.place ⟨1⟩ ⟨5, true⟩, .listWithPurchaseCap ⟨1⟩ 5 true 100]]).1.caps ∧
      ∃ w', ((World.new 1 7 : World Bool).run [[.place ⟨1⟩ ⟨5, true⟩, .listWithPurchaseCap ⟨1⟩ 5 true 100]]).1.step
        (.purchaseWithCap ⟨1, 5, 100, true⟩ 120) = .ok (w', .sale ⟨5, true⟩ ⟨5, 120, 1, true⟩) :=
  ⟨by decide, @purchaseWithCap_of_held Bool _ _ (Reachable.inv ⟨1, 7, _, rfl⟩).1 (by decide) ⟨1, 5, 100, true⟩
    (by decide) 120 (by decide) (by decide)⟩

end Properties

end Kiosk

end Mango.Framework
