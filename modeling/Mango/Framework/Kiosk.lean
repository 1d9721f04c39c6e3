/-
  Mango.Framework.Kiosk

  `mgo::kiosk` (`mgo-framework/sources/kiosk/kiosk.move`): a shared object
  that holds items of any type for its owner, sells them openly (`list`,
  `purchase`) or through a `PurchaseCap` (`list_with_purchase_cap`,
  `purchase_with_cap`), and keeps the profits of its sales.

  The kiosk's state is its fields and three families of dynamic fields under
  its `UID`: `Item { id }` holds an object, `Listing { id, is_exclusive }` a
  price, `Lock { id }` the value `true`. Each family is a map with distinct
  keys, `dynamic_field::add` aborting on a key that is there and `remove` on
  one that is not; the order of the entries is not observable and the map
  keeps them as a `VecMap`. An object is its identifier and its type (`T`,
  which `has_item_with_type` and `dynamic_object_field::remove<Item, T>`
  check); what it holds is not read by the kiosk. Identifiers, addresses and
  `u64` amounts are `Nat`, with the `u32` counter and the `u64` balance
  aborting out of range as Move's arithmetic does; a coin is its value.

  Only this module can build an `Item`, a `Listing` or a `Lock`, so the
  mutable `UID` that `uid_mut` and `uid_mut_as_owner` hand out cannot touch
  these fields: those calls are their checks. `borrow` and `borrow_mut` are
  their checks too, since the kiosk does not read what an item holds. Events
  are not modelled. Each call returns the new kiosk and what the Move function
  returns, or the abort.
-/
import Mango.Core.Object
import Mango.Lib.Except
import Mango.Lib.VecMap

namespace Mango.Framework

open Mango.Core Mango.Lib

namespace Kiosk

/-- Why a call aborts: the module's codes, then those of the modules it calls. -/
inductive Abort where
  /-- `ENotOwner`. -/
  | notOwner
  /-- `EIncorrectAmount`. -/
  | incorrectAmount
  /-- `ENotEnough`. -/
  | notEnough
  /-- `ENotEmpty`. -/
  | notEmpty
  /-- `EListedExclusively`. -/
  | listedExclusively
  /-- `EWrongKiosk`. -/
  | wrongKiosk
  /-- `EAlreadyListed`. -/
  | alreadyListed
  /-- `EUidAccessNotAllowed`. -/
  | uidAccessNotAllowed
  /-- `EItemLocked`. -/
  | itemLocked
  /-- `EItemIsListed`. -/
  | itemIsListed
  /-- `EItemMismatch`. -/
  | itemMismatch
  /-- `EItemNotFound`. -/
  | itemNotFound
  /-- `ENotListed`. -/
  | notListed
  /-- `dynamic_field::EFieldAlreadyExists`. -/
  | fieldAlreadyExists
  /-- `dynamic_field::EFieldDoesNotExist`. -/
  | fieldDoesNotExist
  /-- `dynamic_field::EFieldTypeMismatch`. -/
  | fieldTypeMismatch
  /-- `balance::ENotEnough`, from `balance::split`. -/
  | balanceNotEnough
  /-- A `u32` or `u64` operation out of range. -/
  | arithmeticError
  deriving DecidableEq, Repr

/-- `Item`: the key of the field that holds an item. -/
structure Item where
  id : Nat
  deriving DecidableEq, Repr

/-- `Listing`: the key of the field that holds an offer's price. -/
structure Listing where
  id : Nat
  isExclusive : Bool
  deriving DecidableEq, Repr

/-- `Lock`: the key of the field that marks an item locked. -/
structure Lock where
  id : Nat
  deriving DecidableEq, Repr

/-- An object the kiosk stores: its `object::id` and its type. -/
structure Object (Ty : Type) where
  id : Nat
  ty : Ty
  deriving DecidableEq, Repr

/-- `KioskOwnerCap`, by the kiosk it is `for`. -/
structure KioskOwnerCap where
  for_ : Nat
  deriving DecidableEq, Repr

/-- `PurchaseCap<T>`, with its type `T`. -/
structure PurchaseCap (Ty : Type) where
  kioskId : Nat
  itemId : Nat
  minPrice : Nat
  ty : Ty
  deriving DecidableEq, Repr

/-- `Borrow`, the hot potato of `borrow_val`. -/
structure Borrow where
  kioskId : Nat
  itemId : Nat
  deriving DecidableEq, Repr

/-- `transfer_policy::TransferRequest<T>` as `new_request` builds it: the item,
    what was paid and the kiosk it is sold from, with no receipts yet. -/
structure TransferRequest (Ty : Type) where
  item : Nat
  paid : Nat
  from_ : Nat
  ty : Ty
  deriving DecidableEq, Repr

end Kiosk

open Kiosk

/-- `Kiosk`, with its dynamic fields. -/
structure Kiosk (Ty : Type) where
  id : Nat
  /-- The value of `profits: Balance<MGO>`. -/
  profits : Nat
  owner : Nat
  itemCount : Nat
  allowExtensions : Bool
  items : VecMap Item Ty
  listings : VecMap Listing Nat
  locks : VecMap Lock Bool

namespace Kiosk

variable {Ty : Type} [DecidableEq Ty]

-- ============================================================================
-- Move's primitives
-- ============================================================================

/-- `assert!(cond, code)`. -/
def assert (cond : Bool) (code : Abort) : Except Abort Unit :=
  if cond then pure () else throw code

/-- `u32::MAX`. -/
def u32Max : Nat := 2 ^ 32 - 1

/-- `+` on an unsigned integer whose largest value is `max`. -/
def checkedAdd (max a b : Nat) : Except Abort Nat :=
  if max < a + b then throw .arithmeticError else pure (a + b)

/-- `-` on an unsigned integer. -/
def checkedSub (a b : Nat) : Except Abort Nat :=
  if a < b then throw .arithmeticError else pure (a - b)

section Fields

variable {K V : Type} [DecidableEq K]

/-- `dynamic_field::add` and `dynamic_object_field::add`. -/
def fieldAdd (fields : VecMap K V) (k : K) (v : V) : Except Abort (VecMap K V) :=
  match fields.insert k v with
  | some fields => pure fields
  | none => throw .fieldAlreadyExists

/-- `dynamic_field::remove`: the value and the fields without it. -/
def fieldRemove (fields : VecMap K V) (k : K) : Except Abort (V × VecMap K V) :=
  match fields.remove k with
  | some r => pure r
  | none => throw .fieldDoesNotExist

/-- `dynamic_field::remove_if_exists`, whose result the kiosk drops. -/
def fieldRemoveIfExists (fields : VecMap K V) (k : K) : VecMap K V :=
  match fields.remove k with
  | some (_, fields) => fields
  | none => fields

end Fields

/-- `dynamic_object_field::remove<Item, T>`: the object must be a `T`. -/
def objectRemove (items : VecMap Item Ty) (id : Nat) (ty : Ty) : Except Abort (VecMap Item Ty) := do
  let (ty', items) ← fieldRemove items ⟨id⟩
  if ty' ≠ ty then throw .fieldTypeMismatch
  pure items

-- ============================================================================
-- Kiosk fields access
-- ============================================================================

/-- `has_item`. -/
def hasItem (self : Kiosk Ty) (id : Nat) : Bool := self.items.contains ⟨id⟩

/-- `has_item_with_type<T>`. -/
def hasItemWithType (self : Kiosk Ty) (id : Nat) (ty : Ty) : Bool := decide (self.items.get ⟨id⟩ = some ty)

/-- `is_locked`. -/
def isLocked (self : Kiosk Ty) (id : Nat) : Bool := self.locks.contains ⟨id⟩

/-- `is_listed_exclusively`. -/
def isListedExclusively (self : Kiosk Ty) (id : Nat) : Bool := self.listings.contains ⟨id, true⟩

/-- `is_listed`. -/
def isListed (self : Kiosk Ty) (id : Nat) : Bool :=
  self.listings.contains ⟨id, false⟩ || self.isListedExclusively id

/-- `has_access`. -/
def hasAccess (self : Kiosk Ty) (cap : KioskOwnerCap) : Bool := self.id == cap.for_

-- ============================================================================
-- What each primitive does
-- ============================================================================

@[simp] theorem assert_eq_ok {c : Bool} {e : Abort} {u : Unit} : assert c e = .ok u ↔ c = true := by
  cases c <;> simp [assert]

theorem checkedAdd_eq_ok {max a b c : Nat} : checkedAdd max a b = .ok c ↔ a + b ≤ max ∧ c = a + b := by
  unfold checkedAdd
  by_cases h : max < a + b
  · simp only [h, if_true, Except.throw_ne_ok, false_iff, not_and]
    omega
  · simp only [h, if_false, Except.pure_eq_ok]
    constructor
    · rintro rfl
      exact ⟨by omega, rfl⟩
    · exact fun h => h.2.symm

theorem checkedSub_eq_ok {a b c : Nat} : checkedSub a b = .ok c ↔ b ≤ a ∧ c = a - b := by
  unfold checkedSub
  by_cases h : a < b
  · simp only [h, if_true, Except.throw_ne_ok, false_iff, not_and]
    omega
  · simp only [h, if_false, Except.pure_eq_ok]
    constructor
    · rintro rfl
      exact ⟨by omega, rfl⟩
    · exact fun h => h.2.symm

section Fields

variable {K V : Type} [DecidableEq K] {fields fields' : VecMap K V} {k : K}

theorem fieldAdd_eq_ok {v : V} : fieldAdd fields k v = .ok fields' ↔ fields.insert k v = some fields' := by
  unfold fieldAdd
  cases h : fields.insert k v <;> simp

theorem fieldRemove_eq_ok {r : V × VecMap K V} : fieldRemove fields k = .ok r ↔ fields.remove k = some r := by
  unfold fieldRemove
  cases h : fields.remove k <;> simp

/-- `remove_if_exists` takes out the key and keeps every other one. -/
theorem mem_keys_fieldRemoveIfExists {k' : K} :
    k' ∈ (fieldRemoveIfExists fields k).keys ↔ k' ∈ fields.keys ∧ k' ≠ k := by
  unfold fieldRemoveIfExists
  cases h : fields.remove k with
  | some r => exact VecMap.mem_keys_of_remove h
  | none =>
    have hk := VecMap.remove_eq_none_iff.mp h
    exact ⟨fun hk' => ⟨hk', fun heq => hk (heq ▸ hk')⟩, And.left⟩

end Fields

theorem objectRemove_eq_ok {items items' : VecMap Item Ty} {id : Nat} {ty : Ty} :
    objectRemove items id ty = .ok items' ↔ items.remove ⟨id⟩ = some (ty, items') := by
  unfold objectRemove
  cases h : items.remove ⟨id⟩ with
  | none => simp [fieldRemove, h]
  | some r =>
    obtain ⟨ty', items''⟩ := r
    by_cases hty : ty' = ty
    · subst hty
      simp [fieldRemove, h]
    · simp [fieldRemove, h, hty]

-- ============================================================================
-- What each query reads
-- ============================================================================

variable {self : Kiosk Ty}

omit [DecidableEq Ty] in
@[simp] theorem hasItem_eq_true {id : Nat} : self.hasItem id = true ↔ (⟨id⟩ : Item) ∈ self.items.keys :=
  VecMap.contains_iff

omit [DecidableEq Ty] in
@[simp] theorem isLocked_eq_true {id : Nat} : self.isLocked id = true ↔ (⟨id⟩ : Lock) ∈ self.locks.keys :=
  VecMap.contains_iff

omit [DecidableEq Ty] in
@[simp] theorem isListedExclusively_eq_true {id : Nat} :
    self.isListedExclusively id = true ↔ (⟨id, true⟩ : Listing) ∈ self.listings.keys :=
  VecMap.contains_iff

omit [DecidableEq Ty] in
@[simp] theorem isListed_eq_true {id : Nat} :
    self.isListed id = true ↔
      (⟨id, false⟩ : Listing) ∈ self.listings.keys ∨ (⟨id, true⟩ : Listing) ∈ self.listings.keys := by
  rw [isListed, Bool.or_eq_true, isListedExclusively_eq_true]
  exact or_congr_left VecMap.contains_iff

omit [DecidableEq Ty] in
@[simp] theorem hasAccess_eq_true {cap : KioskOwnerCap} : self.hasAccess cap = true ↔ self.id = cap.for_ :=
  beq_iff_eq

theorem hasItemWithType_eq_true {id : Nat} {ty : Ty} :
    self.hasItemWithType id ty = true ↔ ((⟨id⟩ : Item), ty) ∈ self.items.contents := by
  rw [hasItemWithType, decide_eq_true_eq, VecMap.get_eq_some_iff]

-- ============================================================================
-- The calls
-- ============================================================================

/-- `new`: the kiosk's `UID` comes from the context, its owner is the sender. -/
def new (id sender : Nat) : Kiosk Ty × KioskOwnerCap :=
  (⟨id, 0, sender, 0, false, VecMap.empty, VecMap.empty, VecMap.empty⟩, ⟨id⟩)

/-- `close_and_withdraw`: the profits, when the kiosk is empty; the kiosk and
    the cap are deleted. -/
def closeAndWithdraw (self : Kiosk Ty) (cap : KioskOwnerCap) : Except Abort Nat := do
  assert (self.id == cap.for_) .notOwner
  assert (self.itemCount == 0) .notEmpty
  pure self.profits

/-- `set_owner_custom`. -/
def setOwnerCustom (self : Kiosk Ty) (cap : KioskOwnerCap) (owner : Nat) : Except Abort (Kiosk Ty) := do
  assert (self.hasAccess cap) .notOwner
  pure { self with owner }

/-- `set_owner`: the owner becomes the sender. -/
def setOwner (self : Kiosk Ty) (cap : KioskOwnerCap) (sender : Nat) : Except Abort (Kiosk Ty) :=
  self.setOwnerCustom cap sender

/-- `place_internal`. -/
def placeInternal (self : Kiosk Ty) (item : Object Ty) : Except Abort (Kiosk Ty) := do
  let itemCount ← checkedAdd u32Max self.itemCount 1
  let items ← fieldAdd self.items ⟨item.id⟩ item.ty
  pure { self with itemCount, items }

/-- `lock_internal`. -/
def lockInternal (self : Kiosk Ty) (item : Object Ty) : Except Abort (Kiosk Ty) := do
  let locks ← fieldAdd self.locks ⟨item.id⟩ true
  { self with locks }.placeInternal item

/-- `place`. -/
def place (self : Kiosk Ty) (cap : KioskOwnerCap) (item : Object Ty) : Except Abort (Kiosk Ty) := do
  assert (self.hasAccess cap) .notOwner
  self.placeInternal item

/-- `lock`. The `TransferPolicy<T>` it asks for is only read for its type. -/
def lock (self : Kiosk Ty) (cap : KioskOwnerCap) (item : Object Ty) : Except Abort (Kiosk Ty) := do
  assert (self.hasAccess cap) .notOwner
  self.lockInternal item

/-- `take<T>`. -/
def take (self : Kiosk Ty) (cap : KioskOwnerCap) (id : Nat) (ty : Ty) : Except Abort (Kiosk Ty × Object Ty) := do
  assert (self.hasAccess cap) .notOwner
  assert (!self.isLocked id) .itemLocked
  assert (!self.isListedExclusively id) .listedExclusively
  assert (self.hasItem id) .itemNotFound
  let itemCount ← checkedSub self.itemCount 1
  let listings := fieldRemoveIfExists self.listings ⟨id, false⟩
  let items ← objectRemove self.items id ty
  pure ({ self with itemCount, listings, items }, ⟨id, ty⟩)

/-- `list<T>`. -/
def list (self : Kiosk Ty) (cap : KioskOwnerCap) (id : Nat) (ty : Ty) (price : Nat) : Except Abort (Kiosk Ty) := do
  assert (self.hasAccess cap) .notOwner
  assert (self.hasItemWithType id ty) .itemNotFound
  assert (!self.isListedExclusively id) .listedExclusively
  let listings ← fieldAdd self.listings ⟨id, false⟩ price
  pure { self with listings }

/-- `place_and_list<T>`. -/
def placeAndList (self : Kiosk Ty) (cap : KioskOwnerCap) (item : Object Ty) (price : Nat) :
    Except Abort (Kiosk Ty) := do
  let self ← self.place cap item
  self.list cap item.id item.ty price

/-- `delist<T>`. -/
def delist (self : Kiosk Ty) (cap : KioskOwnerCap) (id : Nat) (ty : Ty) : Except Abort (Kiosk Ty) := do
  assert (self.hasAccess cap) .notOwner
  assert (self.hasItemWithType id ty) .itemNotFound
  assert (!self.isListedExclusively id) .listedExclusively
  assert (self.isListed id) .notListed
  let (_, listings) ← fieldRemove self.listings ⟨id, false⟩
  pure { self with listings }

/-- `purchase<T>`: the item and a transfer request for the price. -/
def purchase (self : Kiosk Ty) (id : Nat) (ty : Ty) (payment : Nat) :
    Except Abort (Kiosk Ty × Object Ty × TransferRequest Ty) := do
  let (price, listings) ← fieldRemove self.listings ⟨id, false⟩
  let items ← objectRemove self.items id ty
  let itemCount ← checkedSub self.itemCount 1
  assert (price == payment) .incorrectAmount
  let locks := fieldRemoveIfExists self.locks ⟨id⟩
  let profits ← checkedAdd u64Max self.profits payment
  pure ({ self with listings, items, itemCount, locks, profits }, ⟨id, ty⟩, ⟨id, price, self.id, ty⟩)

/-- `list_with_purchase_cap<T>`. -/
def listWithPurchaseCap (self : Kiosk Ty) (cap : KioskOwnerCap) (id : Nat) (ty : Ty) (minPrice : Nat) :
    Except Abort (Kiosk Ty × PurchaseCap Ty) := do
  assert (self.hasAccess cap) .notOwner
  assert (self.hasItemWithType id ty) .itemNotFound
  assert (!self.isListed id) .alreadyListed
  let listings ← fieldAdd self.listings ⟨id, true⟩ minPrice
  pure ({ self with listings }, ⟨self.id, id, minPrice, ty⟩)

/-- `purchase_with_cap<T>`: the item and a transfer request for what was paid. -/
def purchaseWithCap (self : Kiosk Ty) (purchaseCap : PurchaseCap Ty) (payment : Nat) :
    Except Abort (Kiosk Ty × Object Ty × TransferRequest Ty) := do
  let id := purchaseCap.itemId
  let paid := payment
  assert (decide (paid ≥ purchaseCap.minPrice)) .incorrectAmount
  assert (self.id == purchaseCap.kioskId) .wrongKiosk
  let (_, listings) ← fieldRemove self.listings ⟨id, true⟩
  let profits ← checkedAdd u64Max self.profits payment
  let itemCount ← checkedSub self.itemCount 1
  let locks := fieldRemoveIfExists self.locks ⟨id⟩
  let items ← objectRemove self.items id purchaseCap.ty
  pure ({ self with listings, profits, itemCount, locks, items }, ⟨id, purchaseCap.ty⟩,
    ⟨id, paid, self.id, purchaseCap.ty⟩)

/-- `return_purchase_cap<T>`. -/
def returnPurchaseCap (self : Kiosk Ty) (purchaseCap : PurchaseCap Ty) : Except Abort (Kiosk Ty) := do
  assert (self.id == purchaseCap.kioskId) .wrongKiosk
  let (_, listings) ← fieldRemove self.listings ⟨purchaseCap.itemId, true⟩
  pure { self with listings }

/-- `withdraw`: a coin of the amount asked, or of all the profits. -/
def withdraw (self : Kiosk Ty) (cap : KioskOwnerCap) (amount : Option Nat) : Except Abort (Kiosk Ty × Nat) := do
  assert (self.hasAccess cap) .notOwner
  let amount ← match amount with
    | some amt => do
      assert (decide (amt ≤ self.profits)) .notEnough
      pure amt
    | none => pure self.profits
  -- `coin::take` splits the balance, which asserts the amount is there
  assert (decide (self.profits ≥ amount)) .balanceNotEnough
  pure ({ self with profits := self.profits - amount }, amount)

/-- `set_allow_extensions`. -/
def setAllowExtensions (self : Kiosk Ty) (cap : KioskOwnerCap) (allowExtensions : Bool) :
    Except Abort (Kiosk Ty) := do
  assert (self.hasAccess cap) .notOwner
  pure { self with allowExtensions }

/-- `uid_mut_as_owner`: its check. -/
def uidMutAsOwner (self : Kiosk Ty) (cap : KioskOwnerCap) : Except Abort Unit :=
  assert (self.hasAccess cap) .notOwner

/-- `uid_mut`: its check. -/
def uidMut (self : Kiosk Ty) : Except Abort Unit :=
  assert self.allowExtensions .uidAccessNotAllowed

/-- `profits_mut`, with the balance the caller leaves through the reference:
    what it splits off and joins in, at most `u64::MAX` since `join` aborts
    past it. -/
def profitsMut (self : Kiosk Ty) (cap : KioskOwnerCap) (value : Nat) : Except Abort (Kiosk Ty) := do
  assert (self.hasAccess cap) .notOwner
  if u64Max < value then throw .arithmeticError
  pure { self with profits := value }

/-- `borrow<T>`: its checks, `dynamic_object_field::borrow` asking for a `T`. -/
def borrow (self : Kiosk Ty) (cap : KioskOwnerCap) (id : Nat) (ty : Ty) : Except Abort Unit := do
  assert (self.id == cap.for_) .notOwner
  assert (self.hasItem id) .itemNotFound
  assert (self.hasItemWithType id ty) .fieldTypeMismatch

/-- `borrow_mut<T>`: its checks. -/
def borrowMut (self : Kiosk Ty) (cap : KioskOwnerCap) (id : Nat) (ty : Ty) : Except Abort Unit := do
  assert (self.hasAccess cap) .notOwner
  assert (self.hasItem id) .itemNotFound
  assert (!self.isListed id) .itemIsListed
  assert (self.hasItemWithType id ty) .fieldTypeMismatch

/-- `borrow_val<T>`: the item, and the `Borrow` that must bring it back. -/
def borrowVal (self : Kiosk Ty) (cap : KioskOwnerCap) (id : Nat) (ty : Ty) :
    Except Abort (Kiosk Ty × Object Ty × Borrow) := do
  assert (self.hasAccess cap) .notOwner
  assert (self.hasItem id) .itemNotFound
  assert (!self.isListed id) .itemIsListed
  let items ← objectRemove self.items id ty
  pure ({ self with items }, ⟨id, ty⟩, ⟨self.id, id⟩)

/-- `return_val<T>`. -/
def returnVal (self : Kiosk Ty) (item : Object Ty) (borrow : Borrow) : Except Abort (Kiosk Ty) := do
  assert (self.id == borrow.kioskId) .wrongKiosk
  assert (item.id == borrow.itemId) .itemMismatch
  let items ← fieldAdd self.items ⟨borrow.itemId⟩ item.ty
  pure { self with items }

section Calls

variable {k' : Kiosk Ty}

-- ============================================================================
-- What each call does
-- ============================================================================

omit [DecidableEq Ty] in
theorem placeInternal_eq_ok {item : Object Ty} (h : self.placeInternal item = .ok k') :
    self.itemCount + 1 ≤ u32Max ∧ ∃ items, self.items.insert ⟨item.id⟩ item.ty = some items ∧
      k' = { self with itemCount := self.itemCount + 1, items } := by
  unfold placeInternal at h
  obtain ⟨itemCount, hcount, h⟩ := Except.bind_eq_ok.mp h
  obtain ⟨items, hitems, h⟩ := Except.bind_eq_ok.mp h
  obtain ⟨hle, rfl⟩ := checkedAdd_eq_ok.mp hcount
  exact ⟨hle, items, fieldAdd_eq_ok.mp hitems, (Except.pure_eq_ok.mp h).symm⟩

theorem take_eq_ok {cap : KioskOwnerCap} {id : Nat} {ty : Ty} {obj : Object Ty}
    (h : self.take cap id ty = .ok (k', obj)) :
    self.id = cap.for_ ∧ (⟨id⟩ : Lock) ∉ self.locks.keys ∧ (⟨id, true⟩ : Listing) ∉ self.listings.keys ∧
      1 ≤ self.itemCount ∧ ∃ items, self.items.remove ⟨id⟩ = some (ty, items) ∧
        k' = { self with
          itemCount := self.itemCount - 1, listings := fieldRemoveIfExists self.listings ⟨id, false⟩, items } ∧
        obj = ⟨id, ty⟩ := by
  unfold take at h
  obtain ⟨_, haccess, h⟩ := Except.bind_eq_ok.mp h
  obtain ⟨_, hlock, h⟩ := Except.bind_eq_ok.mp h
  obtain ⟨_, hexcl, h⟩ := Except.bind_eq_ok.mp h
  obtain ⟨_, -, h⟩ := Except.bind_eq_ok.mp h
  obtain ⟨itemCount, hcount, h⟩ := Except.bind_eq_ok.mp h
  obtain ⟨items, hitems, h⟩ := Except.bind_eq_ok.mp h
  obtain ⟨hle, rfl⟩ := checkedSub_eq_ok.mp hcount
  obtain ⟨rfl, rfl⟩ := Prod.mk.inj (Except.pure_eq_ok.mp h).symm
  simp only [assert_eq_ok, hasAccess_eq_true, Bool.not_eq_true', Bool.eq_false_iff, ne_eq, isLocked_eq_true,
    isListedExclusively_eq_true] at haccess hlock hexcl
  exact ⟨haccess, hlock, hexcl, hle, items, objectRemove_eq_ok.mp hitems, rfl, rfl⟩

theorem purchase_eq_ok {id : Nat} {ty : Ty} {payment : Nat} {obj : Object Ty} {request : TransferRequest Ty}
    (h : self.purchase id ty payment = .ok (k', obj, request)) :
    1 ≤ self.itemCount ∧ self.profits + payment ≤ u64Max ∧
      (∃ listings, self.listings.remove ⟨id, false⟩ = some (payment, listings) ∧
        ∃ items, self.items.remove ⟨id⟩ = some (ty, items) ∧
          k' = { self with
            listings, items, itemCount := self.itemCount - 1, locks := fieldRemoveIfExists self.locks ⟨id⟩,
            profits := self.profits + payment }) ∧
      obj = ⟨id, ty⟩ ∧ request = ⟨id, payment, self.id, ty⟩ := by
  unfold purchase at h
  obtain ⟨⟨price, listings⟩, hlistings, h⟩ := Except.bind_eq_ok.mp h
  obtain ⟨items, hitems, h⟩ := Except.bind_eq_ok.mp h
  obtain ⟨itemCount, hcount, h⟩ := Except.bind_eq_ok.mp h
  obtain ⟨_, hprice, h⟩ := Except.bind_eq_ok.mp h
  obtain ⟨profits, hprofits, h⟩ := Except.bind_eq_ok.mp h
  obtain ⟨hle, rfl⟩ := checkedSub_eq_ok.mp hcount
  obtain ⟨hle', rfl⟩ := checkedAdd_eq_ok.mp hprofits
  rw [assert_eq_ok, beq_iff_eq] at hprice
  subst hprice
  obtain ⟨rfl, rfl, rfl⟩ : _ ∧ _ ∧ _ := by simpa using (Except.pure_eq_ok.mp h).symm
  exact ⟨hle, hle', ⟨listings, fieldRemove_eq_ok.mp hlistings, items, objectRemove_eq_ok.mp hitems, rfl⟩, rfl, rfl⟩

omit [DecidableEq Ty] in
theorem closeAndWithdraw_eq_ok {cap : KioskOwnerCap} {profits : Nat} (h : self.closeAndWithdraw cap = .ok profits) :
    self.id = cap.for_ ∧ self.itemCount = 0 ∧ profits = self.profits := by
  unfold closeAndWithdraw at h
  obtain ⟨_, haccess, h⟩ := Except.bind_eq_ok.mp h
  obtain ⟨_, hempty, h⟩ := Except.bind_eq_ok.mp h
  rw [assert_eq_ok, beq_iff_eq] at haccess hempty
  exact ⟨haccess, hempty, (Except.pure_eq_ok.mp h).symm⟩

omit [DecidableEq Ty] in
theorem setOwnerCustom_eq_ok {cap : KioskOwnerCap} {owner : Nat} (h : self.setOwnerCustom cap owner = .ok k') :
    self.id = cap.for_ ∧ k' = { self with owner } := by
  unfold setOwnerCustom at h
  obtain ⟨_, haccess, h⟩ := Except.bind_eq_ok.mp h
  rw [assert_eq_ok, hasAccess_eq_true] at haccess
  exact ⟨haccess, (Except.pure_eq_ok.mp h).symm⟩

omit [DecidableEq Ty] in
theorem lockInternal_eq_ok {item : Object Ty} (h : self.lockInternal item = .ok k') :
    ∃ locks, self.locks.insert ⟨item.id⟩ true = some locks ∧ { self with locks }.placeInternal item = .ok k' := by
  unfold lockInternal at h
  obtain ⟨locks, hlocks, h⟩ := Except.bind_eq_ok.mp h
  exact ⟨locks, fieldAdd_eq_ok.mp hlocks, h⟩

omit [DecidableEq Ty] in
theorem place_eq_ok {cap : KioskOwnerCap} {item : Object Ty} (h : self.place cap item = .ok k') :
    self.id = cap.for_ ∧ self.placeInternal item = .ok k' := by
  unfold place at h
  obtain ⟨_, haccess, h⟩ := Except.bind_eq_ok.mp h
  rw [assert_eq_ok, hasAccess_eq_true] at haccess
  exact ⟨haccess, h⟩

omit [DecidableEq Ty] in
theorem lock_eq_ok {cap : KioskOwnerCap} {item : Object Ty} (h : self.lock cap item = .ok k') :
    self.id = cap.for_ ∧ self.lockInternal item = .ok k' := by
  unfold lock at h
  obtain ⟨_, haccess, h⟩ := Except.bind_eq_ok.mp h
  rw [assert_eq_ok, hasAccess_eq_true] at haccess
  exact ⟨haccess, h⟩

theorem list_eq_ok {cap : KioskOwnerCap} {id : Nat} {ty : Ty} {price : Nat} (h : self.list cap id ty price = .ok k') :
    self.id = cap.for_ ∧ ((⟨id⟩ : Item), ty) ∈ self.items.contents ∧ (⟨id, true⟩ : Listing) ∉ self.listings.keys ∧
      ∃ listings, self.listings.insert ⟨id, false⟩ price = some listings ∧ k' = { self with listings } := by
  unfold list at h
  obtain ⟨_, haccess, h⟩ := Except.bind_eq_ok.mp h
  obtain ⟨_, hitem, h⟩ := Except.bind_eq_ok.mp h
  obtain ⟨_, hexcl, h⟩ := Except.bind_eq_ok.mp h
  obtain ⟨listings, hlistings, h⟩ := Except.bind_eq_ok.mp h
  simp only [assert_eq_ok, hasAccess_eq_true, hasItemWithType_eq_true, Bool.not_eq_true', Bool.eq_false_iff, ne_eq,
    isListedExclusively_eq_true] at haccess hitem hexcl
  exact ⟨haccess, hitem, hexcl, listings, fieldAdd_eq_ok.mp hlistings, (Except.pure_eq_ok.mp h).symm⟩

theorem placeAndList_eq_ok {cap : KioskOwnerCap} {item : Object Ty} {price : Nat}
    (h : self.placeAndList cap item price = .ok k') :
    ∃ k, self.place cap item = .ok k ∧ k.list cap item.id item.ty price = .ok k' :=
  Except.bind_eq_ok.mp h

theorem delist_eq_ok {cap : KioskOwnerCap} {id : Nat} {ty : Ty} (h : self.delist cap id ty = .ok k') :
    self.id = cap.for_ ∧ ∃ price listings, self.listings.remove ⟨id, false⟩ = some (price, listings) ∧
      k' = { self with listings } := by
  unfold delist at h
  obtain ⟨_, haccess, h⟩ := Except.bind_eq_ok.mp h
  obtain ⟨_, -, h⟩ := Except.bind_eq_ok.mp h
  obtain ⟨_, -, h⟩ := Except.bind_eq_ok.mp h
  obtain ⟨_, -, h⟩ := Except.bind_eq_ok.mp h
  obtain ⟨⟨price, listings⟩, hlistings, h⟩ := Except.bind_eq_ok.mp h
  rw [assert_eq_ok, hasAccess_eq_true] at haccess
  exact ⟨haccess, price, listings, fieldRemove_eq_ok.mp hlistings, (Except.pure_eq_ok.mp h).symm⟩

theorem listWithPurchaseCap_eq_ok {cap : KioskOwnerCap} {id : Nat} {ty : Ty} {minPrice : Nat}
    {purchaseCap : PurchaseCap Ty} (h : self.listWithPurchaseCap cap id ty minPrice = .ok (k', purchaseCap)) :
    self.id = cap.for_ ∧ ((⟨id⟩ : Item), ty) ∈ self.items.contents ∧
      (⟨id, false⟩ : Listing) ∉ self.listings.keys ∧ (⟨id, true⟩ : Listing) ∉ self.listings.keys ∧
      (∃ listings, self.listings.insert ⟨id, true⟩ minPrice = some listings ∧ k' = { self with listings }) ∧
      purchaseCap = ⟨self.id, id, minPrice, ty⟩ := by
  unfold listWithPurchaseCap at h
  obtain ⟨_, haccess, h⟩ := Except.bind_eq_ok.mp h
  obtain ⟨_, hitem, h⟩ := Except.bind_eq_ok.mp h
  obtain ⟨_, hlisted, h⟩ := Except.bind_eq_ok.mp h
  obtain ⟨listings, hlistings, h⟩ := Except.bind_eq_ok.mp h
  obtain ⟨rfl, rfl⟩ := Prod.mk.inj (Except.pure_eq_ok.mp h).symm
  simp only [assert_eq_ok, hasAccess_eq_true, hasItemWithType_eq_true, Bool.not_eq_true', Bool.eq_false_iff, ne_eq,
    isListed_eq_true, not_or] at haccess hitem hlisted
  exact ⟨haccess, hitem, hlisted.1, hlisted.2, ⟨listings, fieldAdd_eq_ok.mp hlistings, rfl⟩, rfl⟩

theorem purchaseWithCap_eq_ok {purchaseCap : PurchaseCap Ty} {payment : Nat} {obj : Object Ty}
    {request : TransferRequest Ty} (h : self.purchaseWithCap purchaseCap payment = .ok (k', obj, request)) :
    purchaseCap.minPrice ≤ payment ∧ self.id = purchaseCap.kioskId ∧ 1 ≤ self.itemCount ∧
      self.profits + payment ≤ u64Max ∧
      (∃ price listings, self.listings.remove ⟨purchaseCap.itemId, true⟩ = some (price, listings) ∧
        ∃ items, self.items.remove ⟨purchaseCap.itemId⟩ = some (purchaseCap.ty, items) ∧
          k' = { self with
            listings, profits := self.profits + payment, itemCount := self.itemCount - 1,
            locks := fieldRemoveIfExists self.locks ⟨purchaseCap.itemId⟩, items }) ∧
      obj = ⟨purchaseCap.itemId, purchaseCap.ty⟩ ∧ request = ⟨purchaseCap.itemId, payment, self.id, purchaseCap.ty⟩ := by
  unfold purchaseWithCap at h
  obtain ⟨_, hmin, h⟩ := Except.bind_eq_ok.mp h
  obtain ⟨_, hkiosk, h⟩ := Except.bind_eq_ok.mp h
  obtain ⟨⟨price, listings⟩, hlistings, h⟩ := Except.bind_eq_ok.mp h
  obtain ⟨profits, hprofits, h⟩ := Except.bind_eq_ok.mp h
  obtain ⟨itemCount, hcount, h⟩ := Except.bind_eq_ok.mp h
  obtain ⟨items, hitems, h⟩ := Except.bind_eq_ok.mp h
  obtain ⟨hle', rfl⟩ := checkedAdd_eq_ok.mp hprofits
  obtain ⟨hle, rfl⟩ := checkedSub_eq_ok.mp hcount
  rw [assert_eq_ok, decide_eq_true_eq] at hmin
  rw [assert_eq_ok, beq_iff_eq] at hkiosk
  obtain ⟨rfl, rfl, rfl⟩ : _ ∧ _ ∧ _ := by simpa using (Except.pure_eq_ok.mp h).symm
  exact ⟨hmin, hkiosk, hle, hle', ⟨price, listings, fieldRemove_eq_ok.mp hlistings, items,
    objectRemove_eq_ok.mp hitems, rfl⟩, rfl, rfl⟩

omit [DecidableEq Ty] in
theorem returnPurchaseCap_eq_ok {purchaseCap : PurchaseCap Ty} (h : self.returnPurchaseCap purchaseCap = .ok k') :
    self.id = purchaseCap.kioskId ∧ ∃ price listings,
      self.listings.remove ⟨purchaseCap.itemId, true⟩ = some (price, listings) ∧ k' = { self with listings } := by
  unfold returnPurchaseCap at h
  obtain ⟨_, hkiosk, h⟩ := Except.bind_eq_ok.mp h
  obtain ⟨⟨price, listings⟩, hlistings, h⟩ := Except.bind_eq_ok.mp h
  rw [assert_eq_ok, beq_iff_eq] at hkiosk
  exact ⟨hkiosk, price, listings, fieldRemove_eq_ok.mp hlistings, (Except.pure_eq_ok.mp h).symm⟩

omit [DecidableEq Ty] in
theorem withdraw_eq_ok {cap : KioskOwnerCap} {amount : Option Nat} {coin : Nat}
    (h : self.withdraw cap amount = .ok (k', coin)) :
    self.id = cap.for_ ∧ coin ≤ self.profits ∧ k' = { self with profits := self.profits - coin } := by
  unfold withdraw at h
  obtain ⟨_, haccess, h⟩ := Except.bind_eq_ok.mp h
  rw [assert_eq_ok, hasAccess_eq_true] at haccess
  -- whichever amount is taken, `coin::take` checks that the balance holds it
  have htake : ∀ amt, (assert (decide (self.profits ≥ amt)) .balanceNotEnough >>= fun _ =>
      pure ({ self with profits := self.profits - amt }, amt)) = Except.ok (k', coin) →
      coin ≤ self.profits ∧ k' = { self with profits := self.profits - coin } := by
    intro amt h
    obtain ⟨_, hle, h⟩ := Except.bind_eq_ok.mp h
    obtain ⟨rfl, rfl⟩ := Prod.mk.inj (Except.pure_eq_ok.mp h).symm
    rw [assert_eq_ok, decide_eq_true_eq] at hle
    exact ⟨hle, rfl⟩
  dsimp only at h
  cases amount with
  | some amt =>
    obtain ⟨_, -, h⟩ := Except.bind_eq_ok.mp h
    exact ⟨haccess, htake amt h⟩
  | none => exact ⟨haccess, htake _ h⟩

omit [DecidableEq Ty] in
theorem setAllowExtensions_eq_ok {cap : KioskOwnerCap} {allowExtensions : Bool}
    (h : self.setAllowExtensions cap allowExtensions = .ok k') :
    self.id = cap.for_ ∧ k' = { self with allowExtensions } := by
  unfold setAllowExtensions at h
  obtain ⟨_, haccess, h⟩ := Except.bind_eq_ok.mp h
  rw [assert_eq_ok, hasAccess_eq_true] at haccess
  exact ⟨haccess, (Except.pure_eq_ok.mp h).symm⟩

omit [DecidableEq Ty] in
theorem profitsMut_eq_ok {cap : KioskOwnerCap} {value : Nat} (h : self.profitsMut cap value = .ok k') :
    self.id = cap.for_ ∧ value ≤ u64Max ∧ k' = { self with profits := value } := by
  unfold profitsMut at h
  obtain ⟨_, haccess, h⟩ := Except.bind_eq_ok.mp h
  rw [assert_eq_ok, hasAccess_eq_true] at haccess
  by_cases hv : u64Max < value
  · simp [hv] at h
  · rw [if_neg hv] at h
    exact ⟨haccess, by omega, (Except.pure_eq_ok.mp h).symm⟩

theorem borrowVal_eq_ok {cap : KioskOwnerCap} {id : Nat} {ty : Ty} {obj : Object Ty} {b : Borrow}
    (h : self.borrowVal cap id ty = .ok (k', obj, b)) :
    self.id = cap.for_ ∧ (⟨id, false⟩ : Listing) ∉ self.listings.keys ∧ (⟨id, true⟩ : Listing) ∉ self.listings.keys ∧
      (∃ items, self.items.remove ⟨id⟩ = some (ty, items) ∧ k' = { self with items }) ∧
      obj = ⟨id, ty⟩ ∧ b = ⟨self.id, id⟩ := by
  unfold borrowVal at h
  obtain ⟨_, haccess, h⟩ := Except.bind_eq_ok.mp h
  obtain ⟨_, -, h⟩ := Except.bind_eq_ok.mp h
  obtain ⟨_, hlisted, h⟩ := Except.bind_eq_ok.mp h
  obtain ⟨items, hitems, h⟩ := Except.bind_eq_ok.mp h
  obtain ⟨rfl, rfl, rfl⟩ : _ ∧ _ ∧ _ := by simpa using (Except.pure_eq_ok.mp h).symm
  simp only [assert_eq_ok, hasAccess_eq_true, Bool.not_eq_true', Bool.eq_false_iff, ne_eq, isListed_eq_true,
    not_or] at haccess hlisted
  exact ⟨haccess, hlisted.1, hlisted.2, ⟨items, objectRemove_eq_ok.mp hitems, rfl⟩, rfl, rfl⟩

omit [DecidableEq Ty] in
theorem returnVal_eq_ok {item : Object Ty} {b : Borrow} (h : self.returnVal item b = .ok k') :
    self.id = b.kioskId ∧ item.id = b.itemId ∧
      ∃ items, self.items.insert ⟨b.itemId⟩ item.ty = some items ∧ k' = { self with items } := by
  unfold returnVal at h
  obtain ⟨_, hkiosk, h⟩ := Except.bind_eq_ok.mp h
  obtain ⟨_, hitem, h⟩ := Except.bind_eq_ok.mp h
  obtain ⟨items, hitems, h⟩ := Except.bind_eq_ok.mp h
  rw [assert_eq_ok, beq_iff_eq] at hkiosk hitem
  exact ⟨hkiosk, hitem, items, fieldAdd_eq_ok.mp hitems, (Except.pure_eq_ok.mp h).symm⟩

omit [DecidableEq Ty] in
theorem uidMutAsOwner_eq_ok {cap : KioskOwnerCap} {u : Unit} (h : self.uidMutAsOwner cap = .ok u) :
    self.id = cap.for_ := by
  unfold uidMutAsOwner at h
  rwa [assert_eq_ok, hasAccess_eq_true] at h

theorem borrow_eq_ok {cap : KioskOwnerCap} {id : Nat} {ty : Ty} {u : Unit} (h : self.borrow cap id ty = .ok u) :
    self.id = cap.for_ := by
  unfold borrow at h
  obtain ⟨_, haccess, -⟩ := Except.bind_eq_ok.mp h
  rwa [assert_eq_ok, beq_iff_eq] at haccess

theorem borrowMut_eq_ok {cap : KioskOwnerCap} {id : Nat} {ty : Ty} {u : Unit}
    (h : self.borrowMut cap id ty = .ok u) : self.id = cap.for_ := by
  unfold borrowMut at h
  obtain ⟨_, haccess, -⟩ := Except.bind_eq_ok.mp h
  rwa [assert_eq_ok, hasAccess_eq_true] at haccess

omit [DecidableEq Ty] in
/-- `return_purchase_cap` goes through for a cap of this kiosk whose listing is there. -/
theorem returnPurchaseCap_of_listed {purchaseCap : PurchaseCap Ty} {price : Nat} {listings : VecMap Listing Nat}
    (hid : self.id = purchaseCap.kioskId)
    (hlistings : self.listings.remove ⟨purchaseCap.itemId, true⟩ = some (price, listings)) :
    self.returnPurchaseCap purchaseCap = .ok { self with listings } := by
  simp [returnPurchaseCap, assert, hid, fieldRemove, hlistings]

/-- `purchase_with_cap` goes through for a cap of this kiosk whose listing and
    item are there, paid at least its minimum price, when the profits have room. -/
theorem purchaseWithCap_of_listed {purchaseCap : PurchaseCap Ty} {payment price : Nat}
    {listings : VecMap Listing Nat} {items : VecMap Item Ty} (hmin : purchaseCap.minPrice ≤ payment)
    (hid : self.id = purchaseCap.kioskId)
    (hlistings : self.listings.remove ⟨purchaseCap.itemId, true⟩ = some (price, listings))
    (hroom : self.profits + payment ≤ u64Max) (hcount : 1 ≤ self.itemCount)
    (hitems : self.items.remove ⟨purchaseCap.itemId⟩ = some (purchaseCap.ty, items)) :
    self.purchaseWithCap purchaseCap payment = .ok ({ self with
      listings, profits := self.profits + payment, itemCount := self.itemCount - 1,
      locks := fieldRemoveIfExists self.locks ⟨purchaseCap.itemId⟩, items },
      ⟨purchaseCap.itemId, purchaseCap.ty⟩, ⟨purchaseCap.itemId, payment, self.id, purchaseCap.ty⟩) := by
  simp [purchaseWithCap, assert, hmin, hid, fieldRemove, hlistings, checkedAdd, Nat.not_lt.mpr hroom, checkedSub,
    Nat.not_lt.mpr hcount, objectRemove, hitems]

-- ============================================================================
-- Round trips
-- ============================================================================

/-- An item taken with `borrow_val` can always be given back with `return_val`,
    which leaves the kiosk as it was but for the order of its fields. -/
theorem returnVal_borrowVal {k k1 : Kiosk Ty} {cap : KioskOwnerCap} {id : Nat} {ty : Ty} {item : Object Ty}
    {b : Borrow} (h : k.borrowVal cap id ty = .ok (k1, item, b)) :
    ∃ k2, k1.returnVal item b = .ok k2 ∧ { k2 with items := k.items } = k ∧ ∀ i, k2.items.get i = k.items.get i := by
  obtain ⟨-, -, -, ⟨items, hitems, rfl⟩, rfl, rfl⟩ := borrowVal_eq_ok h
  -- the key just removed can be added back
  have hfresh : (⟨id⟩ : Item) ∉ items.keys := fun hm => ((VecMap.mem_keys_of_remove hitems).mp hm).2 rfl
  obtain ⟨items', hins, -⟩ := VecMap.insert_eq_some ty hfresh
  refine ⟨{ k with items := items' }, ?_, rfl, fun i => ?_⟩
  · simp [returnVal, assert, fieldAdd, hins]
  · rw [VecMap.get_of_insert hins, VecMap.get_of_remove hitems]
    by_cases hi : i = ⟨id⟩
    · subst hi
      simp [VecMap.get_eq_some (VecMap.remove_eq_some_iff.mp hitems).1]
    · simp [hi]

theorem returnVal_borrowVal_placed :
    ∃ (k k1 : Kiosk Bool) (obj : Object Bool) (b : Borrow), (Kiosk.new 1 7).1.placeInternal ⟨5, true⟩ = .ok k ∧
      k.borrowVal ⟨1⟩ 5 true = .ok (k1, obj, b) ∧
      ∃ k2, k1.returnVal obj b = .ok k2 ∧ { k2 with items := k.items } = k ∧ ∀ i, k2.items.get i = k.items.get i :=
  ⟨_, _, _, _, rfl, rfl, @returnVal_borrowVal Bool _ _ _ ⟨1⟩ 5 true _ _ rfl⟩

/-- `delist` undoes `list`. -/
theorem delist_list {k k1 : Kiosk Ty} {cap : KioskOwnerCap} {id : Nat} {ty : Ty} {price : Nat}
    (h : k.list cap id ty price = .ok k1) : k1.delist cap id ty = .ok k := by
  obtain ⟨hid, hitem, hexcl, listings, hlistings, rfl⟩ := list_eq_ok h
  have hkeys := fun (l : Listing) => (VecMap.mem_keys_of_insert hlistings : l ∈ _ ↔ _)
  -- the new listing is the open one
  have hexcl' : (⟨id, true⟩ : Listing) ∉ listings.keys := fun hm => by
    rcases (hkeys _).mp hm with hm | heq
    · exact hexcl hm
    · cases heq
  have hopen : (⟨id, false⟩ : Listing) ∈ listings.keys := (hkeys _).mpr (.inr rfl)
  -- so each check of `delist` passes on the kiosk `list` left
  have haccess : ({ k with listings } : Kiosk Ty).hasAccess cap = true := hasAccess_eq_true.mpr hid
  have htype : ({ k with listings } : Kiosk Ty).hasItemWithType id ty = true := hasItemWithType_eq_true.mpr hitem
  have hnot : ({ k with listings } : Kiosk Ty).isListedExclusively id = false :=
    Bool.eq_false_iff.mpr (mt isListedExclusively_eq_true.mp hexcl')
  have hlisted : ({ k with listings } : Kiosk Ty).isListed id = true := isListed_eq_true.mpr (.inl hopen)
  simp [delist, assert, haccess, htype, hnot, hlisted, fieldRemove, VecMap.remove_insert hlistings]

theorem delist_list_placed :
    ∃ (k k1 : Kiosk Bool), (Kiosk.new 1 7).1.placeInternal ⟨5, true⟩ = .ok k ∧ k.list ⟨1⟩ 5 true 100 = .ok k1 ∧
      k1.delist ⟨1⟩ 5 true = .ok k :=
  ⟨_, _, rfl, rfl, delist_list rfl⟩

/-- `return_purchase_cap` undoes `list_with_purchase_cap`. -/
theorem returnPurchaseCap_listWithPurchaseCap {k k1 : Kiosk Ty} {cap : KioskOwnerCap} {id : Nat} {ty : Ty}
    {minPrice : Nat} {purchaseCap : PurchaseCap Ty}
    (h : k.listWithPurchaseCap cap id ty minPrice = .ok (k1, purchaseCap)) :
    k1.returnPurchaseCap purchaseCap = .ok k := by
  obtain ⟨-, -, -, -, ⟨listings, hlistings, rfl⟩, rfl⟩ := listWithPurchaseCap_eq_ok h
  exact returnPurchaseCap_of_listed rfl (VecMap.remove_insert hlistings)

theorem returnPurchaseCap_listWithPurchaseCap_placed :
    ∃ (k k1 : Kiosk Bool) (pc : PurchaseCap Bool), (Kiosk.new 1 7).1.placeInternal ⟨5, true⟩ = .ok k ∧
      k.listWithPurchaseCap ⟨1⟩ 5 true 100 = .ok (k1, pc) ∧ k1.returnPurchaseCap pc = .ok k :=
  ⟨_, _, _, rfl, rfl, @returnPurchaseCap_listWithPurchaseCap Bool _ _ _ ⟨1⟩ 5 true 100 _ rfl⟩

end Calls

end Kiosk

end Mango.Framework
