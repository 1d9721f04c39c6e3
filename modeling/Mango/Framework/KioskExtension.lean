/-
  Mango.Framework.KioskExtension

  `mgo::kiosk_extension` (`mgo-framework/sources/kiosk/kiosk_extension.move`):
  the apps a kiosk's owner installs. An extension is the dynamic field
  `ExtensionKey<Ext>` of the kiosk, holding the extension's own `Bag`, a
  `u128` of permissions and whether it is enabled. Installed and enabled, it
  places items into the kiosk with the permission `PLACE` or `LOCK` and locks
  them with `LOCK`, through `place_internal` and `lock_internal`, the friend
  functions of the kiosk that nothing else calls.

  An extension is its witness type's key, a value of a type `Ext`, and the
  extensions of a kiosk are a `VecMap` from keys to `Extension`. A bag is the
  number of its entries, which is what `bag::destroy_empty` reads; the
  extension holds its bag through `storage_mut` and fills or empties it at
  will, so that call sets the number. The `TransferPolicy<T>` that `place`
  and `lock` ask for shows that the type has one; the kiosk does not read it.

  `ExtWorld` is the kiosk world of `Mango.Framework.KioskRuns` with the
  extensions. Its calls are the public calls of `kiosk` and those of
  `kiosk_extension`, so `place_internal` and `lock_internal` are reached only
  through an extension. Each call makes one call of the kiosk world or leaves
  the kiosk world alone (`step_refines`), so every run of a kiosk with its
  extensions is, on the kiosk, a run of the kiosk world with the same log
  (`run_simulates`), and what is proved of the runs of the kiosk world holds
  of the kiosk with its extensions: the representation invariant at every
  reachable state (`repInv_extRun`), and that a locked item leaves only by a
  sale (`locked_item_extRun_sold`). An extension puts an item in only with
  the permission for it (`place_eq_ok`, `lock_eq_ok`), a disabled one not at
  all (`disabled_deposit_aborts`), and only the owner installs, removes,
  enables or disables one or changes what it may do
  (`extensions_run_without_ownerCap`), so that without the owner a kiosk
  whose extensions may not lock gains no lock (`locks_run_without_ownerCap`).
  `remove` undoes `add` (`remove_add`).
-/
import Mango.Framework.KioskRuns

namespace Mango.Framework

open Mango.Lib
open Kiosk (KioskOwnerCap Object)

namespace KioskExtension

/-- Why a call of `kiosk_extension` aborts. -/
inductive Abort where
  /-- `ENotOwner`. -/
  | notOwner
  /-- `EExtensionNotAllowed`. -/
  | extensionNotAllowed
  /-- `EExtensionNotInstalled`. -/
  | extensionNotInstalled
  /-- `bag::EBagNotEmpty`. -/
  | bagNotEmpty
  /-- An abort of a call of `kiosk` or of `dynamic_field`, whose codes
      `Mango.Framework.Kiosk.Abort` lists. -/
  | callee (e : Kiosk.Abort)
  deriving DecidableEq, Repr

/-- `Extension`: its bag, by the number of its entries, its permissions and
    whether it is enabled. -/
structure Extension where
  storage : Nat
  permissions : Nat
  isEnabled : Bool
  deriving DecidableEq, Repr

/-- What an extension may do: its permissions, and whether it is enabled. -/
def Extension.rights (e : Extension) : Nat × Bool := (e.permissions, e.isEnabled)

/-- `PLACE`. -/
def PLACE : Nat := 1

/-- `LOCK`. -/
def LOCK : Nat := 2

variable {Ty Ext : Type} [DecidableEq Ext]

/-- `assert!`. -/
def assert (cond : Bool) (code : Abort) : Except Abort Unit :=
  if cond then pure () else throw code

/-- A call whose abort aborts the caller. -/
def lift {α : Type} (r : Except Kiosk.Abort α) : Except Abort α := r.mapError .callee

/-- `dynamic_field::borrow`. -/
def fieldBorrow {K V : Type} [DecidableEq K] (fields : VecMap K V) (k : K) : Except Kiosk.Abort V :=
  match fields.get k with
  | some v => pure v
  | none => throw .fieldDoesNotExist

/-- `dynamic_field::borrow_mut`, and a write through the reference. -/
def fieldBorrowMut {K V : Type} [DecidableEq K] (fields : VecMap K V) (k : K) (f : V → V) :
    Except Kiosk.Abort (VecMap K V) :=
  match fields.modify k f with
  | some fields => pure fields
  | none => throw .fieldDoesNotExist

/-- `is_installed<Ext>`: `dynamic_field::exists_`. -/
def isInstalled (extensions : VecMap Ext Extension) (ext : Ext) : Bool := extensions.contains ext

/-- `extension<Ext>`. -/
def extension (extensions : VecMap Ext Extension) (ext : Ext) : Except Abort Extension :=
  lift (fieldBorrow extensions ext)

/-- `extension_mut<Ext>`, and a write through the reference. -/
def extensionMut (extensions : VecMap Ext Extension) (ext : Ext) (f : Extension → Extension) :
    Except Abort (VecMap Ext Extension) :=
  lift (fieldBorrowMut extensions ext f)

/-- `is_enabled<Ext>`. -/
def isEnabled (extensions : VecMap Ext Extension) (ext : Ext) : Except Abort Bool := do
  let e ← extension extensions ext
  pure e.isEnabled

/-- `can_place<Ext>` and `can_lock<Ext>`: enabled, with the bit of the
    permission set; `&&` reads the permissions of an enabled extension only. -/
def hasPermission (extensions : VecMap Ext Extension) (ext : Ext) (permission : Nat) : Except Abort Bool := do
  if ← isEnabled extensions ext then
    let e ← extension extensions ext
    pure (e.permissions &&& permission != 0)
  else pure false

/-- `can_place<Ext>`. -/
def canPlace (extensions : VecMap Ext Extension) (ext : Ext) : Except Abort Bool :=
  hasPermission extensions ext PLACE

/-- `can_lock<Ext>`. -/
def canLock (extensions : VecMap Ext Extension) (ext : Ext) : Except Abort Bool :=
  hasPermission extensions ext LOCK

/-- `add<Ext>`: the extension, enabled, with an empty bag. -/
def add (self : Kiosk Ty) (extensions : VecMap Ext Extension) (ext : Ext) (cap : KioskOwnerCap)
    (permissions : Nat) : Except Abort (VecMap Ext Extension) := do
  assert (self.hasAccess cap) .notOwner
  lift (self.uidMutAsOwner cap)
  lift (Kiosk.fieldAdd extensions ext ⟨0, permissions, true⟩)

/-- `disable<Ext>` and `enable<Ext>`, which differ in the flag they write. -/
def setEnabled (self : Kiosk Ty) (extensions : VecMap Ext Extension) (ext : Ext) (cap : KioskOwnerCap)
    (enabled : Bool) : Except Abort (VecMap Ext Extension) := do
  assert (self.hasAccess cap) .notOwner
  assert (isInstalled extensions ext) .extensionNotInstalled
  extensionMut extensions ext fun e => { e with isEnabled := enabled }

/-- `disable<Ext>`. -/
def disable (self : Kiosk Ty) (extensions : VecMap Ext Extension) (ext : Ext) (cap : KioskOwnerCap) :
    Except Abort (VecMap Ext Extension) :=
  setEnabled self extensions ext cap false

/-- `enable<Ext>`. -/
def enable (self : Kiosk Ty) (extensions : VecMap Ext Extension) (ext : Ext) (cap : KioskOwnerCap) :
    Except Abort (VecMap Ext Extension) :=
  setEnabled self extensions ext cap true

/-- `remove<Ext>`: the bag goes with it, and must be empty. -/
def remove (self : Kiosk Ty) (extensions : VecMap Ext Extension) (ext : Ext) (cap : KioskOwnerCap) :
    Except Abort (VecMap Ext Extension) := do
  assert (self.hasAccess cap) .notOwner
  assert (isInstalled extensions ext) .extensionNotInstalled
  lift (self.uidMutAsOwner cap)
  let (e, extensions) ← lift (Kiosk.fieldRemove extensions ext)
  -- `bag::destroy_empty`
  assert (e.storage == 0) .bagNotEmpty
  pure extensions

/-- `storage<Ext>`: the extension's bag. -/
def storage (extensions : VecMap Ext Extension) (ext : Ext) : Except Abort Nat := do
  assert (isInstalled extensions ext) .extensionNotInstalled
  let e ← extension extensions ext
  pure e.storage

/-- `storage_mut<Ext>`, with the number of entries the extension leaves in its bag. -/
def storageMut (extensions : VecMap Ext Extension) (ext : Ext) (storage : Nat) :
    Except Abort (VecMap Ext Extension) := do
  assert (isInstalled extensions ext) .extensionNotInstalled
  extensionMut extensions ext fun e => { e with storage }

/-- `can_place<Ext>(self) || can_lock<Ext>(self)`: `||` asks `can_lock` only
    of an extension that cannot place. -/
def placeAllowed (extensions : VecMap Ext Extension) (ext : Ext) : Except Abort Bool := do
  if ← canPlace extensions ext then pure true else canLock extensions ext

/-- `place<Ext, T>`. -/
def place (self : Kiosk Ty) (extensions : VecMap Ext Extension) (ext : Ext) (item : Object Ty) :
    Except Abort (Kiosk Ty) := do
  assert (isInstalled extensions ext) .extensionNotInstalled
  assert (← placeAllowed extensions ext) .extensionNotAllowed
  lift (self.placeInternal item)

/-- `lock<Ext, T>`. -/
def lock (self : Kiosk Ty) (extensions : VecMap Ext Extension) (ext : Ext) (item : Object Ty) :
    Except Abort (Kiosk Ty) := do
  assert (isInstalled extensions ext) .extensionNotInstalled
  assert (← canLock extensions ext) .extensionNotAllowed
  lift (self.lockInternal item)

-- ============================================================================
-- What each call does
-- ============================================================================

section Calls

variable {self : Kiosk Ty} {extensions extensions' : VecMap Ext Extension} {ext : Ext} {cap : KioskOwnerCap}

@[simp] theorem assert_eq_ok {c : Bool} {e : Abort} {u : Unit} : assert c e = .ok u ↔ c = true := by
  cases c <;> simp [assert]

@[simp] theorem lift_eq_ok {α : Type} {r : Except Kiosk.Abort α} {a : α} : lift r = .ok a ↔ r = .ok a :=
  Except.mapError_eq_ok

theorem isInstalled_iff : isInstalled extensions ext = true ↔ ext ∈ extensions.keys :=
  VecMap.contains_iff

theorem extension_of_get {e : Extension} (h : extensions.get ext = some e) : extension extensions ext = .ok e := by
  unfold extension fieldBorrow
  rw [h]
  rfl

/-- The permission an extension has, from its field. -/
theorem hasPermission_of_get {e : Extension} (h : extensions.get ext = some e) (permission : Nat) :
    hasPermission extensions ext permission = .ok (e.isEnabled && e.permissions &&& permission != 0) := by
  cases he : e.isEnabled <;> simp [hasPermission, isEnabled, extension_of_get h, Except.ok_bind, he]

/-- An extension that is installed has a field. -/
theorem get_of_isInstalled (h : isInstalled extensions ext = true) : ∃ e, extensions.get ext = some e :=
  Option.ne_none_iff_exists'.mp (mt VecMap.get_eq_none_iff.mp (not_not.mpr (isInstalled_iff.mp h)))

/-- What lets `place` through: the permission to place or to lock. -/
theorem placeAllowed_of_get {e : Extension} (h : extensions.get ext = some e) :
    placeAllowed extensions ext = .ok (e.isEnabled && (e.permissions &&& PLACE != 0 || e.permissions &&& LOCK != 0)) := by
  unfold placeAllowed canPlace canLock
  rw [hasPermission_of_get h, hasPermission_of_get h]
  cases e.isEnabled <;> cases e.permissions &&& PLACE != 0 <;> rfl

theorem place_eq_ok {item : Object Ty} {k : Kiosk Ty} (h : place self extensions ext item = .ok k) :
    (∃ e, extensions.get ext = some e ∧ e.isEnabled = true ∧
      (e.permissions &&& PLACE ≠ 0 ∨ e.permissions &&& LOCK ≠ 0)) ∧ self.placeInternal item = .ok k := by
  unfold place at h
  obtain ⟨_, hinst, h⟩ := Except.bind_eq_ok.mp h
  obtain ⟨e, hget⟩ := get_of_isInstalled (assert_eq_ok.mp hinst)
  rw [placeAllowed_of_get hget, Except.ok_bind] at h
  obtain ⟨_, hallowed, h⟩ := Except.bind_eq_ok.mp h
  rw [assert_eq_ok, Bool.and_eq_true, Bool.or_eq_true, bne_iff_ne, bne_iff_ne] at hallowed
  exact ⟨⟨e, hget, hallowed⟩, lift_eq_ok.mp h⟩

theorem lock_eq_ok {item : Object Ty} {k : Kiosk Ty} (h : lock self extensions ext item = .ok k) :
    (∃ e, extensions.get ext = some e ∧ e.isEnabled = true ∧ e.permissions &&& LOCK ≠ 0) ∧
      self.lockInternal item = .ok k := by
  unfold lock at h
  obtain ⟨_, hinst, h⟩ := Except.bind_eq_ok.mp h
  obtain ⟨e, hget⟩ := get_of_isInstalled (assert_eq_ok.mp hinst)
  rw [canLock, hasPermission_of_get hget, Except.ok_bind] at h
  obtain ⟨_, hallowed, h⟩ := Except.bind_eq_ok.mp h
  rw [assert_eq_ok, Bool.and_eq_true, bne_iff_ne] at hallowed
  exact ⟨⟨e, hget, hallowed⟩, lift_eq_ok.mp h⟩

theorem add_eq_ok {permissions : Nat} (h : add self extensions ext cap permissions = .ok extensions') :
    self.id = cap.for_ ∧ extensions.insert ext ⟨0, permissions, true⟩ = some extensions' := by
  unfold add at h
  obtain ⟨_, haccess, h⟩ := Except.bind_eq_ok.mp h
  obtain ⟨_, -, h⟩ := Except.bind_eq_ok.mp h
  exact ⟨Kiosk.hasAccess_eq_true.mp (assert_eq_ok.mp haccess), Kiosk.fieldAdd_eq_ok.mp (lift_eq_ok.mp h)⟩

theorem setEnabled_eq_ok {enabled : Bool} (h : setEnabled self extensions ext cap enabled = .ok extensions') :
    self.id = cap.for_ ∧ extensions.modify ext (fun e => { e with isEnabled := enabled }) = some extensions' := by
  unfold setEnabled at h
  obtain ⟨_, haccess, h⟩ := Except.bind_eq_ok.mp h
  obtain ⟨_, -, h⟩ := Except.bind_eq_ok.mp h
  refine ⟨Kiosk.hasAccess_eq_true.mp (assert_eq_ok.mp haccess), ?_⟩
  unfold extensionMut fieldBorrowMut at h
  cases hm : extensions.modify ext fun e => { e with isEnabled := enabled } <;> simp_all [lift]

theorem remove_eq_ok (h : remove self extensions ext cap = .ok extensions') :
    self.id = cap.for_ ∧ ∃ e, extensions.remove ext = some (e, extensions') ∧ e.storage = 0 := by
  unfold remove at h
  obtain ⟨_, haccess, h⟩ := Except.bind_eq_ok.mp h
  obtain ⟨_, -, h⟩ := Except.bind_eq_ok.mp h
  obtain ⟨_, -, h⟩ := Except.bind_eq_ok.mp h
  obtain ⟨⟨e, extensions''⟩, hremove, h⟩ := Except.bind_eq_ok.mp h
  obtain ⟨_, hempty, h⟩ := Except.bind_eq_ok.mp h
  obtain rfl := Except.pure_eq_ok.mp h
  exact ⟨Kiosk.hasAccess_eq_true.mp (assert_eq_ok.mp haccess), e,
    Kiosk.fieldRemove_eq_ok.mp (lift_eq_ok.mp hremove), beq_iff_eq.mp (assert_eq_ok.mp hempty)⟩

theorem storageMut_eq_ok {storage : Nat} (h : storageMut extensions ext storage = .ok extensions') :
    extensions.modify ext (fun e => { e with storage }) = some extensions' := by
  unfold storageMut at h
  obtain ⟨_, -, h⟩ := Except.bind_eq_ok.mp h
  unfold extensionMut fieldBorrowMut at h
  cases hm : extensions.modify ext fun e => { e with storage } <;> simp_all [lift]

/-- `remove` undoes `add`: an extension just added has an empty bag. -/
theorem remove_add {permissions : Nat} (h : add self extensions ext cap permissions = .ok extensions') :
    remove self extensions' ext cap = .ok extensions := by
  obtain ⟨hid, hins⟩ := add_eq_ok h
  have haccess : self.hasAccess cap = true := Kiosk.hasAccess_eq_true.mpr hid
  have hinst : isInstalled extensions' ext = true :=
    isInstalled_iff.mpr ((VecMap.mem_keys_of_insert hins).mpr (.inr rfl))
  simp [remove, haccess, hinst, assert, Kiosk.uidMutAsOwner, Kiosk.assert, Kiosk.fieldRemove,
    VecMap.remove_insert hins, lift, Except.mapError]
  rfl

theorem remove_add_fresh :
    ∃ extensions', add (Kiosk.new 1 7 : Kiosk Bool × KioskOwnerCap).1 (VecMap.empty : VecMap Nat Extension) 9 ⟨1⟩ 3 =
        .ok extensions' ∧ remove (Kiosk.new 1 7 : Kiosk Bool × KioskOwnerCap).1 extensions' 9 ⟨1⟩ = .ok VecMap.empty :=
  ⟨_, rfl, remove_add rfl⟩

/-- A disabled extension can put nothing into the kiosk: its `place` and
    `lock` abort with `EExtensionNotAllowed`. -/
theorem disabled_deposit_aborts {e : Extension} (he : extensions.get ext = some e) (hdisabled : e.isEnabled = false)
    (item : Object Ty) :
    place self extensions ext item = .error .extensionNotAllowed ∧
      lock self extensions ext item = .error .extensionNotAllowed := by
  have hinst : isInstalled extensions ext = true :=
    isInstalled_iff.mpr (VecMap.mem_keys.mpr ⟨e, VecMap.get_eq_some_iff.mp he⟩)
  constructor
  · simp [place, hinst, placeAllowed_of_get he, hdisabled, assert, Except.ok_bind]
    rfl
  · simp [lock, hinst, canLock, hasPermission_of_get he, hdisabled, assert, Except.ok_bind]
    rfl

end Calls

-- ============================================================================
-- The kiosk with its extensions
-- ============================================================================

/-- A kiosk world with the extensions installed in its kiosk. -/
structure ExtWorld (Ty Ext : Type) where
  world : Kiosk.World Ty
  extensions : VecMap Ext Extension

/-- The public calls of `kiosk` and of `kiosk_extension`, with what the caller
    hands them. -/
inductive ExtCall (Ty Ext : Type) where
  /-- A call of `kiosk`. -/
  | kiosk (c : Kiosk.Call Ty)
  | add (ext : Ext) (cap : KioskOwnerCap) (permissions : Nat)
  | disable (ext : Ext) (cap : KioskOwnerCap)
  | enable (ext : Ext) (cap : KioskOwnerCap)
  | remove (ext : Ext) (cap : KioskOwnerCap)
  /-- `storage_mut`, and the extension leaving `storage` entries in its bag. -/
  | storageMut (ext : Ext) (storage : Nat)
  | place (ext : Ext) (item : Object Ty)
  | lock (ext : Ext) (item : Object Ty)

/-- Why a call does not go through. -/
inductive ExtFailure where
  /-- A call of the kiosk world fails. -/
  | world (f : Kiosk.Failure)
  /-- A call of `kiosk_extension` aborts. -/
  | abort (e : Abort)
  /-- `place_internal` and `lock_internal` are `public(friend)`: no transaction calls them. -/
  | friendOnly

/-- `place_internal` and `lock_internal`, the friend functions of `kiosk`. -/
def isFriend : Kiosk.Call Ty → Bool
  | .placeInternal _ | .lockInternal _ => true
  | _ => false

/-- The call of the kiosk world a call makes: itself for a call of `kiosk`,
    `place_internal` and `lock_internal` for an extension's `place` and
    `lock`, and none for the calls on the extensions. -/
def ExtCall.toKiosk : ExtCall Ty Ext → Option (Kiosk.Call Ty)
  | .kiosk c => some c
  | .place _ item => some (.placeInternal item)
  | .lock _ item => some (.lockInternal item)
  | .add .. | .disable .. | .enable .. | .remove .. | .storageMut .. => none

/-- The `KioskOwnerCap` a call presents. -/
def ExtCall.ownerCap : ExtCall Ty Ext → Option KioskOwnerCap
  | .kiosk c => c.ownerCap
  | .add _ cap _ | .disable _ cap | .enable _ cap | .remove _ cap => some cap
  | .storageMut .. | .place .. | .lock .. => none

variable [DecidableEq Ty]

namespace ExtWorld

/-- A kiosk just made by `new`, with no extension. -/
def new (id sender : Nat) : ExtWorld Ty Ext := ⟨Kiosk.World.new id sender, VecMap.empty⟩

/-- A call of `kiosk_extension` on the extensions. -/
def manage (w : ExtWorld Ty Ext) (r : Except Abort (VecMap Ext Extension)) :
    Except ExtFailure (ExtWorld Ty Ext × Kiosk.Output Ty) :=
  if w.world.closed then throw (.world .closed)
  else do
    let extensions ← r.mapError .abort
    pure ({ w with extensions }, .none)

/-- A call of `kiosk_extension` that puts an item into the kiosk. -/
def deposit (w : ExtWorld Ty Ext) (r : Except Abort (Kiosk Ty)) :
    Except ExtFailure (ExtWorld Ty Ext × Kiosk.Output Ty) :=
  if w.world.closed then throw (.world .closed)
  else do
    let kiosk ← r.mapError .abort
    pure ({ w with world := { w.world with kiosk } }, .none)

/-- One call. -/
def step (w : ExtWorld Ty Ext) : ExtCall Ty Ext → Except ExtFailure (ExtWorld Ty Ext × Kiosk.Output Ty)
  | .kiosk c =>
    if isFriend c then throw .friendOnly
    else do
      let (world, out) ← (w.world.step c).mapError .world
      pure ({ w with world }, out)
  | .add ext cap permissions => w.manage (add w.world.kiosk w.extensions ext cap permissions)
  | .disable ext cap => w.manage (disable w.world.kiosk w.extensions ext cap)
  | .enable ext cap => w.manage (enable w.world.kiosk w.extensions ext cap)
  | .remove ext cap => w.manage (remove w.world.kiosk w.extensions ext cap)
  | .storageMut ext storage => w.manage (storageMut w.extensions ext storage)
  | .place ext item => w.deposit (place w.world.kiosk w.extensions ext item)
  | .lock ext item => w.deposit (lock w.world.kiosk w.extensions ext item)

/-- The calls of one transaction, one after another, with what each returned. -/
def exec (w : ExtWorld Ty Ext) : List (ExtCall Ty Ext) → Except ExtFailure (ExtWorld Ty Ext × List (Kiosk.Output Ty))
  | [] => pure (w, [])
  | c :: cs => do
    let (w, out) ← w.step c
    let (w, outs) ← w.exec cs
    pure (w, out :: outs)

/-- A transaction: its calls, and no `Borrow` left at its end. -/
def transact (w : ExtWorld Ty Ext) (tx : List (ExtCall Ty Ext)) :
    Except ExtFailure (ExtWorld Ty Ext × List (Kiosk.Output Ty)) := do
  let (w', outs) ← w.exec tx
  if w'.world.borrows ≠ [] then throw (.world .borrowOutstanding)
  pure (w', outs)

/-- Transactions one after another: one that fails leaves the world as it
    was. The log lists each call of the transactions that went through, with
    what it returned. -/
def run (w : ExtWorld Ty Ext) :
    List (List (ExtCall Ty Ext)) → ExtWorld Ty Ext × List (ExtCall Ty Ext × Kiosk.Output Ty)
  | [] => (w, [])
  | tx :: txs =>
    match w.transact tx with
    | .ok (w', outs) => ((w'.run txs).1, tx.zip outs ++ (w'.run txs).2)
    | .error _ => w.run txs

end ExtWorld

-- ============================================================================
-- Refinement of the kiosk world
-- ============================================================================

/-- What a call does to the kiosk world: the call of it that it makes, or nothing. -/
def kioskStep (w : Kiosk.World Ty) : Option (Kiosk.Call Ty) → Except Kiosk.Failure (Kiosk.World Ty × Kiosk.Output Ty)
  | some c => w.step c
  | none => pure (w, .none)

/-- The entry of the kiosk world's log for an entry of a log: the kiosk call
    made, with what it returned. -/
def kioskEntry (p : ExtCall Ty Ext × Kiosk.Output Ty) : Option (Kiosk.Call Ty × Kiosk.Output Ty) :=
  p.1.toKiosk.map fun c => (c, p.2)

namespace ExtWorld

variable {w w' : ExtWorld Ty Ext} {out : Kiosk.Output Ty}

omit [DecidableEq Ext] [DecidableEq Ty] in
theorem manage_eq_ok {r : Except Abort (VecMap Ext Extension)} (h : w.manage r = .ok (w', out)) :
    w.world.closed = false ∧ ∃ extensions, r = .ok extensions ∧ w' = { w with extensions } ∧ out = .none := by
  unfold manage at h
  cases hc : w.world.closed
  · rw [hc, if_neg Bool.false_ne_true] at h
    obtain ⟨extensions, hr, h⟩ := Except.bind_eq_ok.mp h
    obtain ⟨rfl, rfl⟩ := Prod.mk.inj (Except.pure_eq_ok.mp h).symm
    exact ⟨rfl, extensions, Except.mapError_eq_ok.mp hr, rfl, rfl⟩
  · rw [hc, if_pos rfl] at h
    exact absurd h Except.throw_ne_ok

omit [DecidableEq Ext] [DecidableEq Ty] in
theorem deposit_eq_ok {r : Except Abort (Kiosk Ty)} (h : w.deposit r = .ok (w', out)) :
    w.world.closed = false ∧ ∃ kiosk, r = .ok kiosk ∧ w' = { w with world := { w.world with kiosk } } ∧
      out = .none := by
  unfold deposit at h
  cases hc : w.world.closed
  · rw [hc, if_neg Bool.false_ne_true] at h
    obtain ⟨kiosk, hr, h⟩ := Except.bind_eq_ok.mp h
    obtain ⟨rfl, rfl⟩ := Prod.mk.inj (Except.pure_eq_ok.mp h).symm
    exact ⟨rfl, kiosk, Except.mapError_eq_ok.mp hr, rfl, rfl⟩
  · rw [hc, if_pos rfl] at h
    exact absurd h Except.throw_ne_ok

/-- On an open kiosk, `place_internal` and `lock_internal` are the kiosk's own calls. -/
theorem world_step_update {v : Kiosk.World Ty} (hopen : v.closed = false) {c : Kiosk.Call Ty} {k : Kiosk Ty}
    (hc : c = .placeInternal item ∧ v.kiosk.placeInternal item = .ok k ∨
      c = .lockInternal item ∧ v.kiosk.lockInternal item = .ok k) :
    v.step c = .ok ({ v with kiosk := k }, .none) := by
  rcases hc with ⟨rfl, hk⟩ | ⟨rfl, hk⟩ <;>
    simp [Kiosk.World.step, hopen, Kiosk.World.update, Kiosk.World.lift, hk, Except.mapError, Functor.map,
      Except.map]

/-- Each call makes its call of the kiosk world, or leaves the kiosk world alone. -/
theorem step_refines {c : ExtCall Ty Ext} (hs : w.step c = .ok (w', out)) :
    kioskStep w.world c.toKiosk = .ok (w'.world, out) := by
  cases c with
  | kiosk c =>
    simp only [step] at hs
    by_cases hf : isFriend c = true
    · rw [if_pos hf] at hs
      exact absurd hs Except.throw_ne_ok
    · rw [if_neg hf] at hs
      obtain ⟨⟨world, out'⟩, hk, hs⟩ := Except.bind_eq_ok.mp hs
      obtain ⟨rfl, rfl⟩ := Prod.mk.inj (Except.pure_eq_ok.mp hs).symm
      exact Except.mapError_eq_ok.mp hk
  | add ext cap permissions =>
    obtain ⟨-, _, -, rfl, rfl⟩ := manage_eq_ok hs
    rfl
  | disable ext cap =>
    obtain ⟨-, _, -, rfl, rfl⟩ := manage_eq_ok hs
    rfl
  | enable ext cap =>
    obtain ⟨-, _, -, rfl, rfl⟩ := manage_eq_ok hs
    rfl
  | remove ext cap =>
    obtain ⟨-, _, -, rfl, rfl⟩ := manage_eq_ok hs
    rfl
  | storageMut ext storage =>
    obtain ⟨-, _, -, rfl, rfl⟩ := manage_eq_ok hs
    rfl
  | place ext item =>
    obtain ⟨hopen, kiosk, hr, rfl, rfl⟩ := deposit_eq_ok hs
    exact world_step_update hopen (.inl ⟨rfl, (place_eq_ok hr).2⟩)
  | lock ext item =>
    obtain ⟨hopen, kiosk, hr, rfl, rfl⟩ := deposit_eq_ok hs
    exact world_step_update hopen (.inr ⟨rfl, (lock_eq_ok hr).2⟩)

/-- The calls of a transaction make, in order, a transaction of the kiosk
    world, whose outputs are theirs. -/
theorem exec_refines : ∀ {tx : List (ExtCall Ty Ext)} {w w' : ExtWorld Ty Ext} {outs : List (Kiosk.Output Ty)},
    w.exec tx = .ok (w', outs) →
      ∃ kouts, w.world.exec (tx.filterMap ExtCall.toKiosk) = .ok (w'.world, kouts) ∧
        (tx.filterMap ExtCall.toKiosk).zip kouts = (tx.zip outs).filterMap kioskEntry
  | [], w, w', outs, h => by
    rw [exec] at h
    obtain ⟨rfl, rfl⟩ := Prod.mk.inj (Except.pure_eq_ok.mp h).symm
    exact ⟨[], rfl, rfl⟩
  | c :: cs, w, w', outs, h => by
    rw [exec] at h
    obtain ⟨⟨w1, out⟩, hs, h⟩ := Except.bind_eq_ok.mp h
    obtain ⟨⟨w2, outs'⟩, hexec, h⟩ := Except.bind_eq_ok.mp h
    obtain ⟨rfl, rfl⟩ := Prod.mk.inj (Except.pure_eq_ok.mp h).symm
    obtain ⟨kouts, hk, hzip⟩ := exec_refines hexec
    have hstep := step_refines hs
    cases hc : c.toKiosk with
    | none =>
      -- a call on the extensions adds nothing to the kiosk world's transaction
      rw [hc, kioskStep, Except.pure_eq_ok] at hstep
      obtain ⟨hw, -⟩ := Prod.mk.inj hstep
      refine ⟨kouts, ?_, ?_⟩
      · rw [List.filterMap_cons_none hc, hw]
        exact hk
      · simp [List.filterMap_cons_none hc, hzip, kioskEntry, hc]
    | some kc =>
      rw [hc, kioskStep] at hstep
      refine ⟨out :: kouts, ?_, ?_⟩
      · rw [List.filterMap_cons_some hc]
        simp [Kiosk.World.exec, hstep, hk, Except.ok_bind]
      · simp [List.filterMap_cons_some hc, hzip, kioskEntry, hc]

theorem transact_refines {tx : List (ExtCall Ty Ext)} {outs : List (Kiosk.Output Ty)}
    (h : w.transact tx = .ok (w', outs)) :
    ∃ kouts, w.world.transact (tx.filterMap ExtCall.toKiosk) = .ok (w'.world, kouts) ∧
      (tx.filterMap ExtCall.toKiosk).zip kouts = (tx.zip outs).filterMap kioskEntry := by
  unfold transact at h
  obtain ⟨⟨w1, outs1⟩, hexec, h⟩ := Except.bind_eq_ok.mp h
  obtain ⟨hb, heq⟩ := Except.ite_throw_pure_eq_ok.mp h
  obtain ⟨rfl, rfl⟩ := Prod.mk.inj heq
  obtain ⟨kouts, hk, hzip⟩ := exec_refines hexec
  refine ⟨kouts, ?_, hzip⟩
  simp [Kiosk.World.transact, hk, not_not.mp hb, Except.ok_bind]

/-- Every run of the kiosk with its extensions is, on the kiosk, a run of the
    kiosk world, whose log is the entries of the kiosk's calls. -/
theorem run_simulates (w : ExtWorld Ty Ext) (txs : List (List (ExtCall Ty Ext))) :
    ∃ ktxs, (w.run txs).1.world = (w.world.run ktxs).1 ∧ (w.run txs).2.filterMap kioskEntry = (w.world.run ktxs).2 := by
  induction txs generalizing w with
  | nil => exact ⟨[], rfl, rfl⟩
  | cons tx txs ih =>
    rw [run]
    split
    · rename_i w1 outs htx
      obtain ⟨kouts, hk, hzip⟩ := transact_refines htx
      obtain ⟨ktxs, hworld, hlog⟩ := ih w1
      refine ⟨tx.filterMap ExtCall.toKiosk :: ktxs, ?_, ?_⟩
      · rw [Kiosk.World.run, hk]
        exact hworld
      · rw [Kiosk.World.run, hk, List.filterMap_append, hlog, ← hzip]
    · exact ih w

end ExtWorld

-- ============================================================================
-- What the kiosk world's runs give the kiosk with its extensions
-- ============================================================================

/-- The kiosk of every state the kiosk with its extensions reaches from `new`
    satisfies the kiosk's representation invariant: the extensions, which
    reach `place_internal` and `lock_internal`, do not break it. -/
theorem repInv_extRun (id sender : Nat) (txs : List (List (ExtCall Ty Ext))) :
    Kiosk.RepInv ((ExtWorld.new id sender : ExtWorld Ty Ext).run txs).1.world := by
  obtain ⟨ktxs, hworld, -⟩ := ExtWorld.run_simulates (ExtWorld.new id sender : ExtWorld Ty Ext) txs
  have hreach : Kiosk.Reachable ((ExtWorld.new id sender : ExtWorld Ty Ext).run txs).1.world :=
    ⟨id, sender, ktxs, hworld.symm⟩
  exact Kiosk.RepInv.of_inv hreach.inv.1 hreach.inv.2

/-- A locked item leaves a kiosk with extensions only by a sale: an extension
    may place and lock items but never take one out. -/
theorem locked_item_extRun_sold (w : ExtWorld Ty Ext) (txs : List (List (ExtCall Ty Ext))) {x : Nat}
    (hlock : (⟨x⟩ : Kiosk.Lock) ∈ w.world.kiosk.locks.keys) (hin : (⟨x⟩ : Kiosk.Item) ∈ w.world.kiosk.items.keys)
    (hgone : (⟨x⟩ : Kiosk.Item) ∉ (w.run txs).1.world.kiosk.items.keys) :
    ∃ p ∈ (w.run txs).2, p.2.sold = some x := by
  obtain ⟨ktxs, hworld, hlog⟩ := ExtWorld.run_simulates w txs
  rcases Kiosk.LockedOrSold.run w.world ktxs hlock hin with ⟨-, hin'⟩ | ⟨p, hp, hsold⟩
  · rw [← hworld] at hin'
    exact absurd hin' hgone
  · -- the sale is a call of the kiosk in the log, with its output
    rw [← hlog, List.mem_filterMap] at hp
    obtain ⟨q, hq, hentry⟩ := hp
    obtain ⟨c, -, rfl⟩ := Option.map_eq_some_iff.mp hentry
    exact ⟨q, hq, hsold⟩

theorem locked_item_extRun_sold_purchase :
    (⟨5⟩ : Kiosk.Lock) ∈ ((ExtWorld.new 1 7 : ExtWorld Bool Nat).run
        [[.add 9 ⟨1⟩ 2], [.lock 9 ⟨5, true⟩, .kiosk (.list ⟨1⟩ 5 true 100)]]).1.world.kiosk.locks.keys ∧
      (⟨5⟩ : Kiosk.Item) ∈ ((ExtWorld.new 1 7 : ExtWorld Bool Nat).run
        [[.add 9 ⟨1⟩ 2], [.lock 9 ⟨5, true⟩, .kiosk (.list ⟨1⟩ 5 true 100)]]).1.world.kiosk.items.keys ∧
      ∃ p ∈ (((ExtWorld.new 1 7 : ExtWorld Bool Nat).run
        [[.add 9 ⟨1⟩ 2], [.lock 9 ⟨5, true⟩, .kiosk (.list ⟨1⟩ 5 true 100)]]).1.run
          [[.kiosk (.take ⟨1⟩ 5 true)], [.kiosk (.purchase 5 true 100)]]).2, p.2.sold = some 5 :=
  ⟨by decide, by decide, locked_item_extRun_sold _ _ (by decide) (by decide) (by decide)⟩

-- ============================================================================
-- Who manages the extensions
-- ============================================================================

/-- A public call of the kiosk that presents no owner cap adds no lock: of
    the calls that lock, `lock` needs the cap and `lock_internal` is a friend's. -/
theorem locks_of_public_step {v v' : Kiosk.World Ty} {c : Kiosk.Call Ty} {out : Kiosk.Output Ty}
    (hc : c.ownerCap = none) (hf : isFriend c = false) (hs : v.step c = .ok (v', out)) :
    ∀ l ∈ v'.kiosk.locks.keys, l ∈ v.kiosk.locks.keys := by
  have hs := Kiosk.World.step_spec hs
  intro l hl
  cases c with
  | purchase id ty payment =>
    obtain ⟨kiosk, obj, request, hk, rfl, rfl⟩ := hs
    obtain ⟨-, -, ⟨listings, -, items, -, rfl⟩, rfl, rfl⟩ := Kiosk.purchase_eq_ok hk
    exact (Kiosk.mem_keys_fieldRemoveIfExists.mp hl).1
  | purchaseWithCap pc payment =>
    obtain ⟨-, kiosk, obj, request, hk, rfl, rfl⟩ := hs
    obtain ⟨-, -, -, -, ⟨price, listings, -, items, -, rfl⟩, rfl, rfl⟩ := Kiosk.purchaseWithCap_eq_ok hk
    exact (Kiosk.mem_keys_fieldRemoveIfExists.mp hl).1
  | returnPurchaseCap pc =>
    obtain ⟨-, kiosk, hk, rfl, rfl⟩ := hs
    obtain ⟨-, price, listings, -, rfl⟩ := Kiosk.returnPurchaseCap_eq_ok hk
    exact hl
  | uidMut =>
    obtain ⟨-, rfl, rfl⟩ := hs
    exact hl
  | returnVal obj b =>
    obtain ⟨-, kiosk, hk, rfl, rfl⟩ := hs
    obtain ⟨-, -, items, -, rfl⟩ := Kiosk.returnVal_eq_ok hk
    exact hl
  | placeInternal | lockInternal => cases hf
  | closeAndWithdraw | setOwner | setOwnerCustom | place | lock | take | list | placeAndList | delist
  | listWithPurchaseCap | withdraw | setAllowExtensions | uidMutAsOwner | profitsMut | borrow | borrowMut
  | borrowVal => cases hc

/-- Writing the bag of an extension leaves what every extension may do. -/
theorem rights_of_storageMut {extensions extensions' : VecMap Ext Extension} {ext : Ext} {storage : Nat}
    (h : extensions.modify ext (fun e => { e with storage }) = some extensions') (ext' : Ext) :
    (extensions'.get ext').map Extension.rights = (extensions.get ext').map Extension.rights := by
  rw [VecMap.get_of_modify h]
  split_ifs with hext
  · rw [hext, Option.map_map]
    rfl
  · rfl

/-- A call that presents no owner cap of the kiosk keeps its id and what every
    extension may do, and adds a lock only through an enabled extension with
    the permission to lock. -/
theorem step_without_ownerCap {w w' : ExtWorld Ty Ext} {c : ExtCall Ty Ext} {out : Kiosk.Output Ty}
    (hc : c.ownerCap ≠ some ⟨w.world.kiosk.id⟩) (hs : w.step c = .ok (w', out)) :
    w'.world.kiosk.id = w.world.kiosk.id ∧
      (∀ ext, (w'.extensions.get ext).map Extension.rights = (w.extensions.get ext).map Extension.rights) ∧
      ∀ l ∈ w'.world.kiosk.locks.keys, l ∈ w.world.kiosk.locks.keys ∨
        ∃ ext e, w.extensions.get ext = some e ∧ e.isEnabled = true ∧ e.permissions &&& LOCK ≠ 0 := by
  -- a call on the extensions that goes through was given the kiosk's own cap
  have howner : ∀ (cap : KioskOwnerCap), w.world.kiosk.id = cap.for_ → c.ownerCap = some cap → False :=
    fun _ hid hco => hc (by rw [hco, hid])
  cases c with
  | kiosk c =>
    simp only [ExtWorld.step] at hs
    by_cases hf : isFriend c = true
    · rw [if_pos hf] at hs
      exact absurd hs Except.throw_ne_ok
    rw [if_neg hf] at hs
    obtain ⟨⟨world, out'⟩, hk, hs⟩ := Except.bind_eq_ok.mp hs
    obtain ⟨rfl, rfl⟩ := Prod.mk.inj (Except.pure_eq_ok.mp hs).symm
    have hk := Except.mapError_eq_ok.mp hk
    -- the one cap that passes is the kiosk's own, which the call does not present
    have hnone : c.ownerCap = none := by
      cases hco : c.ownerCap with
      | none => rfl
      | some cap =>
        have hcap := Kiosk.World.ownerCap_of_step hk hco
        exact (howner cap (by rw [hcap]) hco).elim
    refine ⟨(Kiosk.World.step_of_ownerCap_none hnone hk).1, fun _ => rfl, fun l hl => .inl ?_⟩
    exact locks_of_public_step hnone (Bool.eq_false_iff.mpr hf) hk l hl
  | add ext cap permissions =>
    obtain ⟨-, extensions, hr, -⟩ := ExtWorld.manage_eq_ok hs
    exact (howner cap (add_eq_ok hr).1 rfl).elim
  | disable ext cap =>
    obtain ⟨-, extensions, hr, -⟩ := ExtWorld.manage_eq_ok hs
    exact (howner cap (setEnabled_eq_ok hr).1 rfl).elim
  | enable ext cap =>
    obtain ⟨-, extensions, hr, -⟩ := ExtWorld.manage_eq_ok hs
    exact (howner cap (setEnabled_eq_ok hr).1 rfl).elim
  | remove ext cap =>
    obtain ⟨-, extensions, hr, -⟩ := ExtWorld.manage_eq_ok hs
    exact (howner cap (remove_eq_ok hr).1 rfl).elim
  | storageMut ext storage =>
    obtain ⟨-, extensions, hr, rfl, rfl⟩ := ExtWorld.manage_eq_ok hs
    exact ⟨rfl, rights_of_storageMut (storageMut_eq_ok hr), fun l hl => .inl hl⟩
  | place ext item =>
    obtain ⟨-, kiosk, hr, rfl, rfl⟩ := ExtWorld.deposit_eq_ok hs
    obtain ⟨-, items, -, rfl⟩ := Kiosk.placeInternal_eq_ok (place_eq_ok hr).2
    exact ⟨rfl, fun _ => rfl, fun l hl => .inl hl⟩
  | lock ext item =>
    obtain ⟨-, kiosk, hr, rfl, rfl⟩ := ExtWorld.deposit_eq_ok hs
    obtain ⟨hallowed, hk⟩ := lock_eq_ok hr
    obtain ⟨locks, -, hk⟩ := Kiosk.lockInternal_eq_ok hk
    obtain ⟨-, items, -, rfl⟩ := Kiosk.placeInternal_eq_ok hk
    exact ⟨rfl, fun _ => rfl, fun _ _ => .inr ⟨ext, hallowed⟩⟩

section Runs

variable (S : ExtCall Ty Ext → Prop) (P : ExtWorld Ty Ext → Prop)

/-- What every call allowed by `S` keeps, a transaction of such calls keeps. -/
theorem ExtWorld.exec_preserves
    (hstep : ∀ {w w' : ExtWorld Ty Ext} {c out}, S c → P w → w.step c = .ok (w', out) → P w') :
    ∀ (tx : List (ExtCall Ty Ext)) {w w' : ExtWorld Ty Ext} {outs}, (∀ c ∈ tx, S c) → P w →
      w.exec tx = .ok (w', outs) → P w' := by
  intro tx
  induction tx with
  | nil =>
    intro w w' outs _ hp h
    rw [ExtWorld.exec] at h
    obtain ⟨rfl, -⟩ := Prod.mk.inj (Except.pure_eq_ok.mp h).symm
    exact hp
  | cons c cs ih =>
    intro w w' outs hS hp h
    rw [ExtWorld.exec] at h
    obtain ⟨⟨w1, out⟩, hs, h⟩ := Except.bind_eq_ok.mp h
    obtain ⟨⟨w2, outs'⟩, hexec, h⟩ := Except.bind_eq_ok.mp h
    obtain ⟨rfl, -⟩ := Prod.mk.inj (Except.pure_eq_ok.mp h).symm
    exact ih (fun c' hc' => hS c' (List.mem_cons_of_mem c hc')) (hstep (hS c List.mem_cons_self) hp hs) hexec

/-- What every call allowed by `S` keeps, a run of transactions of such calls keeps. -/
theorem ExtWorld.run_preserves
    (hstep : ∀ {w w' : ExtWorld Ty Ext} {c out}, S c → P w → w.step c = .ok (w', out) → P w') :
    ∀ (txs : List (List (ExtCall Ty Ext))) (w : ExtWorld Ty Ext), (∀ tx ∈ txs, ∀ c ∈ tx, S c) → P w →
      P (w.run txs).1 := by
  intro txs
  induction txs with
  | nil => exact fun _ _ hp => hp
  | cons tx txs ih =>
    intro w hS hp
    have hS' := fun tx' htx' => hS tx' (List.mem_cons_of_mem tx htx')
    rw [ExtWorld.run]
    split
    · rename_i w1 outs htx
      unfold ExtWorld.transact at htx
      obtain ⟨⟨w2, outs2⟩, hexec, htx⟩ := Except.bind_eq_ok.mp htx
      obtain ⟨-, heq⟩ := Except.ite_throw_pure_eq_ok.mp htx
      obtain ⟨rfl, rfl⟩ := Prod.mk.inj heq
      exact ih w2 hS' (ExtWorld.exec_preserves S P hstep tx (hS tx List.mem_cons_self) hp hexec)
    · exact ih w hS' hp

end Runs

/-- Only the owner manages the extensions: over a run whose calls present no
    owner cap of the kiosk, no extension is installed or removed, and none
    changes its permissions or is enabled or disabled. -/
theorem extensions_run_without_ownerCap (w : ExtWorld Ty Ext) (txs : List (List (ExtCall Ty Ext)))
    (hS : ∀ tx ∈ txs, ∀ c ∈ tx, c.ownerCap ≠ some ⟨w.world.kiosk.id⟩) (ext : Ext) :
    ((w.run txs).1.extensions.get ext).map Extension.rights = (w.extensions.get ext).map Extension.rights := by
  have hrun := ExtWorld.run_preserves (fun c : ExtCall Ty Ext => c.ownerCap ≠ some ⟨w.world.kiosk.id⟩)
    (fun w' => w'.world.kiosk.id = w.world.kiosk.id ∧
      ∀ ext, (w'.extensions.get ext).map Extension.rights = (w.extensions.get ext).map Extension.rights)
    (fun hc ⟨hid, hrights⟩ hs => by
      rw [← hid] at hc
      obtain ⟨hid', hrights', -⟩ := step_without_ownerCap hc hs
      exact ⟨hid'.trans hid, fun ext => (hrights' ext).trans (hrights ext)⟩)
    txs w hS ⟨rfl, fun _ => rfl⟩
  exact hrun.2 ext

theorem extensions_run_without_ownerCap_foreign :
    (∀ tx ∈ ([[.disable 9 ⟨2⟩], [.storageMut 9 4, .place 9 ⟨5, true⟩], [.remove 9 ⟨2⟩]] :
        List (List (ExtCall Bool Nat))), ∀ c ∈ tx, c.ownerCap ≠ some ⟨1⟩) ∧
      ((((ExtWorld.new 1 7 : ExtWorld Bool Nat).run [[.add 9 ⟨1⟩ 3]]).1.run
        [[.disable 9 ⟨2⟩], [.storageMut 9 4, .place 9 ⟨5, true⟩], [.remove 9 ⟨2⟩]]).1.extensions.get 9).map
          Extension.rights = some (3, true) :=
  ⟨by decide, extensions_run_without_ownerCap _ _ (by decide) 9⟩

/-- Without the owner, a kiosk none of whose extensions may lock gains no
    lock: over a run whose calls present no owner cap of the kiosk, every
    lock at the end was there at the start. -/
theorem locks_run_without_ownerCap (w : ExtWorld Ty Ext) (txs : List (List (ExtCall Ty Ext)))
    (hS : ∀ tx ∈ txs, ∀ c ∈ tx, c.ownerCap ≠ some ⟨w.world.kiosk.id⟩)
    (hlock : ∀ ext e, w.extensions.get ext = some e → e.isEnabled = true → e.permissions &&& LOCK = 0) :
    ∀ l ∈ (w.run txs).1.world.kiosk.locks.keys, l ∈ w.world.kiosk.locks.keys := by
  -- the extensions keep what they may do, so none comes to lock
  have hrun := ExtWorld.run_preserves (fun c : ExtCall Ty Ext => c.ownerCap ≠ some ⟨w.world.kiosk.id⟩)
    (fun w' => w'.world.kiosk.id = w.world.kiosk.id ∧
      (∀ ext, (w'.extensions.get ext).map Extension.rights = (w.extensions.get ext).map Extension.rights) ∧
      ∀ l ∈ w'.world.kiosk.locks.keys, l ∈ w.world.kiosk.locks.keys)
    (fun hc ⟨hid, hrights, hlocks⟩ hs => by
      rw [← hid] at hc
      obtain ⟨hid', hrights', hlocks'⟩ := step_without_ownerCap hc hs
      refine ⟨hid'.trans hid, fun ext => (hrights' ext).trans (hrights ext), fun l hl => ?_⟩
      rcases hlocks' l hl with hl | ⟨ext, e, he, henabled, hperm⟩
      · exact hlocks l hl
      · -- an extension that may lock now could lock at the start
        obtain ⟨e0, he0, hrights0⟩ := Option.map_eq_some_iff.mp ((hrights ext).symm.trans (by rw [he]; rfl))
        obtain ⟨hperm0, henabled0⟩ := Prod.mk.inj hrights0
        exact absurd (hlock ext e0 he0 (henabled0.trans henabled)) (hperm0 ▸ hperm))
    txs w hS ⟨rfl, fun _ => rfl, fun _ hl => hl⟩
  exact hrun.2.2

theorem locks_run_without_ownerCap_place_only :
    (∀ tx ∈ ([[.lock 9 ⟨5, true⟩], [.place 9 ⟨6, true⟩]] : List (List (ExtCall Bool Nat))), ∀ c ∈ tx,
        c.ownerCap ≠ some ⟨1⟩) ∧
      (((⟨Kiosk.World.new 1 7, ⟨[(9, ⟨0, 1, true⟩)], by decide⟩⟩ : ExtWorld Bool Nat).run
        [[.lock 9 ⟨5, true⟩], [.place 9 ⟨6, true⟩]]).1.world.kiosk.locks.keys = []) :=
  ⟨by decide, List.eq_nil_iff_forall_not_mem.mpr fun l hl => by
    have := locks_run_without_ownerCap _ _ (by decide) (fun ext e he _ => by
      rw [VecMap.get_eq_some_iff, List.mem_singleton] at he
      obtain ⟨-, rfl⟩ := Prod.mk.inj he
      rfl) l hl
    cases this⟩

end KioskExtension

end Mango.Framework
