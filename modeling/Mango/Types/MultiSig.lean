/-
  Mango.Types.MultiSig

  Multisig authenticators (`crates/mgo-types/src/multisig.rs`). A
  `MultiSigPublicKey` lists member keys with `u8` weights and a `u16`
  threshold; `validate` asks for a threshold above 0, one to ten members, no
  weight 0, weights that reach the threshold, and no key listed twice. A
  `MultiSig` carries compressed signatures, a `u16` bitmap of the members
  that signed, and the multisig key. `verify_claims` checks the key and the
  address, decodes the bitmap into member indices (`as_indices`), pairs the
  signatures with the indices in order (`zip`, which stops at the shorter),
  checks each under its member's key and adds the member's weight to a `u16`
  sum, and compares the sum with the threshold. `combine` builds a multisig
  from full signatures in member order, setting the bit of each signer.

  The cryptography is left abstract (`Crypto`): for each scheme, whether a
  member key and the signature bytes parse, and whether a signature verifies
  on the message (the hash of its BCS bytes is the scheme's business); for
  zkLogin, whether the authenticator parses and whether its own
  `verify_claims` passes for the member key's address; the addresses; and
  what a full signature's key and compressed form are. Errors are the
  source's, with their fixed texts; a text the source formats from a key
  (`"Invalid signature for pk=..."`, `"pk does not exist: ..."`) is kept as
  the key. `verify_user_authenticator_epoch` and serialization are left out.
-/
import Mathlib
import Mango.Lib.Except
import Mango.Lib.List
import Mango.Lib.Bitmap

namespace Mango.Types

open Mango.Lib

/-- `MAX_SIGNER_IN_MULTISIG`. -/
def maxSignerInMultisig : Nat := 10

/-- `MAX_BITMAP_VALUE`: the ten low bits. -/
def maxBitmapValue : UInt16 := 0b1111111111

/-- `CompressedSignature`: the scheme, and the bytes. -/
inductive CompressedSignature (Bytes : Type)
  | ed25519 (bytes : Bytes)
  | secp256k1 (bytes : Bytes)
  | secp256r1 (bytes : Bytes)
  | zkLogin (bytes : Bytes)
  deriving DecidableEq, Repr

/-- The bytes of a zkLogin signature, the filter of `get_zklogin_sigs`. -/
def CompressedSignature.zkLoginBytes {Bytes : Type} : CompressedSignature Bytes → Option Bytes
  | .zkLogin bytes => some bytes
  | _ => none

/-- `MgoError`, the variants this code returns. -/
inductive MgoError (PublicKey : Type)
  | invalidSignature (error : String)
  /-- `InvalidSignature` with `"Invalid signature for pk={:?} address={:?} error={:?}"` for this member key. -/
  | invalidSignatureOf (pk : PublicKey)
  | invalidAuthenticator
  /-- `IncorrectSigner` with `"pk does not exist: {:?}"` for this key. -/
  | incorrectSigner (pk : PublicKey)
  deriving DecidableEq, Repr

/-- `FastCryptoError::InvalidInput`, the one error `validate` returns. -/
inductive FastCryptoError
  | invalidInput
  deriving DecidableEq, Repr

/-- `MultiSigPublicKey`: the members' keys with their `u8` weights, and the `u16` threshold. -/
structure MultiSigPublicKey (PublicKey : Type) where
  pkMap : List (PublicKey × UInt8)
  threshold : UInt16
  deriving DecidableEq, Repr

/-- `MultiSig`: the compressed signatures, the `u16` bitmap of the signers, and the key. -/
structure MultiSig (PublicKey Bytes : Type) where
  sigs : List (CompressedSignature Bytes)
  bitmap : UInt16
  multisigPk : MultiSigPublicKey PublicKey
  deriving DecidableEq, Repr

/-- `VerifyParams`, the flag this code reads. -/
structure VerifyParams where
  acceptZkLoginInMultisig : Bool
  deriving DecidableEq, Repr

/-- What one signature scheme says of a member key and signature bytes:
    whether the key is a key of the scheme (`from_bytes`), whether the bytes
    are a signature of it (`try_into`), and whether the signature verifies on
    the message. -/
structure Scheme (PublicKey Bytes Message : Type) where
  keyParses : PublicKey → Bool
  sigParses : Bytes → Bool
  verify : PublicKey → Message → Bytes → Bool

/-- The cryptography the multisig code calls, left abstract. -/
structure Crypto (PublicKey Bytes Address Message Generic : Type) where
  ed25519 : Scheme PublicKey Bytes Message
  secp256k1 : Scheme PublicKey Bytes Message
  secp256r1 : Scheme PublicKey Bytes Message
  /-- `ZkLoginAuthenticator::from_bytes` succeeds. -/
  zkLoginParses : Bytes → Bool
  /-- The authenticator's own `verify_claims` on the message, for an address. -/
  zkLoginVerify : Bytes → Message → Address → Bool
  /-- `MgoAddress::from(&PublicKey)`. -/
  keyAddress : PublicKey → Address
  /-- `MgoAddress::from(&MultiSigPublicKey)`. -/
  multisigAddress : MultiSigPublicKey PublicKey → Address
  /-- `GenericSignature::to_public_key`. -/
  toPublicKey : Generic → Except (MgoError PublicKey) PublicKey
  /-- `GenericSignature::to_compressed`. -/
  toCompressed : Generic → Except (MgoError PublicKey) (CompressedSignature Bytes)

variable {PublicKey Bytes Address Message Generic : Type} [DecidableEq PublicKey] [DecidableEq Address]

namespace MultiSigPublicKey

/-- `MultiSigPublicKey::validate`. The `u16` sum of the weights is only taken
    once there are at most ten members, so it does not wrap. -/
def validate (self : MultiSigPublicKey PublicKey) : Except FastCryptoError Unit :=
  let pkMap := self.pkMap
  if self.threshold == 0 || pkMap.isEmpty || decide (pkMap.length > maxSignerInMultisig) ||
      pkMap.any (fun e => e.2 == 0) ||
      decide ((pkMap.map fun e => e.2.toUInt16).sum < self.threshold) ||
      pkMap.zipIdx.any (fun p => (pkMap.drop (p.2 + 1)).any fun o => p.1.1 == o.1) then
    .error .invalidInput
  else .ok ()

/-- `MultiSigPublicKey::new`. -/
def new (pks : List PublicKey) (weights : List UInt8) (threshold : UInt16) :
    Except (MgoError PublicKey) (MultiSigPublicKey PublicKey) :=
  if pks.isEmpty || weights.isEmpty || threshold == 0 || pks.length != weights.length ||
      decide (pks.length > maxSignerInMultisig) || weights.any (· == 0) ||
      decide ((weights.map (·.toUInt16)).sum < threshold) ||
      pks.zipIdx.any (fun p => (pks.drop (p.2 + 1)).any fun o => p.1 == o) then
    throw (.invalidSignature "Invalid multisig public key construction")
  else pure ⟨pks.zip weights, threshold⟩

/-- `MultiSigPublicKey::get_index`: the position of the first member with the key. -/
def getIndex (self : MultiSigPublicKey PublicKey) (pk : PublicKey) : Option Nat :=
  self.pkMap.findIdx? (·.1 == pk)

end MultiSigPublicKey

/-- `as_indices`: the set bits of a bitmap of at most ten bits, in increasing order. -/
def asIndices (bitmap : UInt16) : Except (MgoError PublicKey) (List Nat) :=
  if bitmap > maxBitmapValue then throw (.invalidSignature "Invalid bitmap")
  else pure ((List.range 10).filter fun i => bitmap &&& ((1 : UInt16) <<< i.toUInt16) != 0)

section Verify

variable (crypto : Crypto PublicKey Bytes Address Message Generic)

/-- The arm of one scheme in `verify_claims`: the member key and the signature
    bytes must parse, and the result is whether the signature verifies. -/
def Scheme.check (scheme : Scheme PublicKey Bytes Message) (bytesError : String) (value : Message)
    (bytes : Bytes) (pk : PublicKey) : Except (MgoError PublicKey) Bool := do
  if !scheme.keyParses pk then throw (.invalidSignature "Invalid public key")
  if !scheme.sigParses bytes then throw (.invalidSignature bytesError)
  pure (scheme.verify pk value bytes)

/-- The `match sig` of `verify_claims`: whether a signature verifies under a
    member key, or the error it returns on the spot. -/
def checkSignature (value : Message) (sig : CompressedSignature Bytes) (pk : PublicKey) :
    Except (MgoError PublicKey) Bool :=
  match sig with
  | .ed25519 bytes => crypto.ed25519.check "Invalid ed25519 signature bytes" value bytes pk
  | .secp256k1 bytes => crypto.secp256k1.check "Invalid k1 signature bytes" value bytes pk
  | .secp256r1 bytes => crypto.secp256r1.check "Invalid r1 signature bytes" value bytes pk
  | .zkLogin bytes =>
    if crypto.zkLoginParses bytes then pure (crypto.zkLoginVerify bytes value (crypto.keyAddress pk))
    else throw .invalidAuthenticator

/-- One turn of the loop of `verify_claims`: the member of the index, its
    signature checked, its weight added to the `u16` sum. -/
def addSignature (value : Message) (pkMap : List (PublicKey × UInt8)) (weightSum : UInt16)
    (p : CompressedSignature Bytes × Nat) : Except (MgoError PublicKey) UInt16 :=
  match pkMap[p.2]? with
  | none => throw (.invalidSignature "Invalid public keys index")
  | some (subsigPubkey, weight) => do
    let res ← checkSignature crypto value p.1 subsigPubkey
    if res then pure (weightSum + weight.toUInt16) else throw (.invalidSignatureOf subsigPubkey)

namespace MultiSig

/-- `get_zklogin_sigs`: the zkLogin signatures, each of which must parse. -/
def getZkLoginSigs (self : MultiSig PublicKey Bytes) : Except (MgoError PublicKey) (List Bytes) :=
  (self.sigs.filterMap CompressedSignature.zkLoginBytes).mapM fun bytes =>
    if crypto.zkLoginParses bytes then pure bytes else throw .invalidAuthenticator

/-- `MultiSig::verify_claims`. -/
def verifyClaims (self : MultiSig PublicKey Bytes) (value : Message) (multisigAddress : Address)
    (verifyParams : VerifyParams) : Except (MgoError PublicKey) Unit := do
  self.multisigPk.validate.mapError fun _ => MgoError.invalidSignature "Invalid multisig"
  if crypto.multisigAddress self.multisigPk != multisigAddress then
    throw (.invalidSignature "Invalid address")
  let zkLoginSigs ← self.getZkLoginSigs crypto
  if !zkLoginSigs.isEmpty && !verifyParams.acceptZkLoginInMultisig then
    throw (.invalidSignature "zkLogin sig not supported inside multisig")
  let indices ← asIndices self.bitmap
  let weightSum ← (self.sigs.zip indices).foldlM (addSignature crypto value self.multisigPk.pkMap) 0
  if weightSum ≥ self.multisigPk.threshold then pure ()
  else throw (.invalidSignature ("Insufficient weight " ++ toString weightSum))

/-- One turn of the loop of `combine`: the signer's index, which must be
    new, set in the bitmap, and the compressed signature pushed. -/
def combineStep (multisigPk : MultiSigPublicKey PublicKey) (acc : UInt16 × List (CompressedSignature Bytes))
    (s : Generic) : Except (MgoError PublicKey) (UInt16 × List (CompressedSignature Bytes)) := do
  let pk ← crypto.toPublicKey s
  match multisigPk.getIndex pk with
  | none => throw (.incorrectSigner pk)
  | some index =>
    if acc.1 &&& ((1 : UInt16) <<< index.toUInt16) != 0 then throw (.invalidSignature "Duplicate public key")
    let bitmap := acc.1 ||| ((1 : UInt16) <<< index.toUInt16)
    let sig ← crypto.toCompressed s
    pure (bitmap, acc.2 ++ [sig])

/-- `MultiSig::combine`. -/
def combine (fullSigs : List Generic) (multisigPk : MultiSigPublicKey PublicKey) :
    Except (MgoError PublicKey) (MultiSig PublicKey Bytes) := do
  multisigPk.validate.mapError fun _ => MgoError.invalidSignature "Invalid multisig public key"
  if decide (fullSigs.length > multisigPk.pkMap.length) || fullSigs.isEmpty then
    throw (.invalidSignature "Invalid number of signatures")
  let (bitmap, sigs) ← fullSigs.foldlM (combineStep crypto multisigPk) (0, [])
  pure ⟨sigs, bitmap, multisigPk⟩

/-- `MultiSig::init_and_validate`, which `from_bytes` runs on what it decodes. -/
def initAndValidate (self : MultiSig PublicKey Bytes) : Except FastCryptoError (MultiSig PublicKey Bytes) :=
  if decide (self.sigs.length > self.multisigPk.pkMap.length) || self.sigs.isEmpty ||
      decide (self.bitmap > maxBitmapValue) then .error .invalidInput
  else do
    self.multisigPk.validate
    pure self

end MultiSig

end Verify

/-! ## What each function does -/

/-- The weight of the member at an index, `0` past the members. -/
def weightAt (pkMap : List (PublicKey × UInt8)) (i : Nat) : Nat :=
  (pkMap[i]?.map fun e : PublicKey × UInt8 => e.2.toNat).getD 0

omit [DecidableEq PublicKey] [DecidableEq Address] in
theorem weightAt_of_getElem? {pkMap : List (PublicKey × UInt8)} {i : Nat} {e : PublicKey × UInt8}
    (h : pkMap[i]? = some e) : weightAt pkMap i = e.2.toNat := by
  simp [weightAt, h]

namespace MultiSigPublicKey

omit [DecidableEq PublicKey] [DecidableEq Address] in
/-- The `u16` sum of at most ten weights is their sum. -/
theorem toNat_sum_weights {pkMap : List (PublicKey × UInt8)} (hlen : pkMap.length ≤ maxSignerInMultisig) :
    (pkMap.map fun e : PublicKey × UInt8 => e.2.toUInt16).sum.toNat = (pkMap.map fun e => e.2.toNat).sum := by
  have hmap : (pkMap.map fun e => e.2.toUInt16) = (pkMap.map Prod.snd).map UInt8.toUInt16 := by
    rw [List.map_map]
    rfl
  have hnat : (pkMap.map fun e => e.2.toNat) = (pkMap.map Prod.snd).map UInt8.toNat := by
    rw [List.map_map]
    rfl
  have hle := sum_map_toNat_le (pkMap.map Prod.snd)
  rw [List.length_map] at hle
  unfold maxSignerInMultisig at hlen
  rw [hmap, toNat_sum_map_toUInt16, hnat, Nat.mod_eq_of_lt (by omega)]

omit [DecidableEq Address] in
/-- **`validate` accepts exactly** a threshold above 0, one to ten members, no
    weight 0, weights that reach the threshold, and no key listed twice. -/
theorem validate_eq_ok_iff {self : MultiSigPublicKey PublicKey} :
    self.validate = .ok () ↔ 0 < self.threshold.toNat ∧ self.pkMap ≠ [] ∧ self.pkMap.length ≤ maxSignerInMultisig ∧
      (∀ e ∈ self.pkMap, 0 < e.2.toNat) ∧ self.threshold.toNat ≤ (self.pkMap.map fun e => e.2.toNat).sum ∧
      (self.pkMap.map Prod.fst).Nodup := by
  have hite : ∀ c : Bool, ((if c then .error .invalidInput else .ok ()) : Except FastCryptoError Unit) = .ok () ↔
      c = false := by
    intro c
    cases c <;> simp
  have hpos : ∀ x : UInt16, x ≠ 0 ↔ 0 < x.toNat := fun x => by
    rw [Nat.pos_iff_ne_zero, ne_eq, ne_eq, ← UInt16.toNat_inj, UInt16.toNat_zero]
  have hpos8 : ∀ x : UInt8, x ≠ 0 ↔ 0 < x.toNat := fun x => by
    rw [Nat.pos_iff_ne_zero, ne_eq, ne_eq, ← UInt8.toNat_inj, UInt8.toNat_zero]
  unfold validate
  dsimp only
  rw [hite, ← any_zipIdx_drop_eq_false_iff Prod.fst self.pkMap]
  simp only [Bool.or_eq_false_iff, beq_eq_false_iff_ne, List.isEmpty_eq_false_iff, decide_eq_false_iff_not,
    List.any_eq_false, beq_iff_eq, UInt16.lt_iff_toNat_lt, gt_iff_lt, not_lt, and_assoc]
  constructor
  · rintro ⟨ht, hne, hlen, hw, hsum, hdup⟩
    rw [toNat_sum_weights hlen] at hsum
    exact ⟨(hpos _).mp ht, hne, hlen, fun e he => (hpos8 _).mp (hw e he), hsum, hdup⟩
  · rintro ⟨ht, hne, hlen, hw, hsum, hdup⟩
    refine ⟨(hpos _).mpr ht, hne, hlen, fun e he => (hpos8 _).mpr (hw e he), ?_, hdup⟩
    rw [toNat_sum_weights hlen]
    exact hsum

omit [DecidableEq Address] in
/-- With no key listed twice, `get_index` finds each member at its place. -/
theorem getIndex_eq_some {self : MultiSigPublicKey PublicKey} (hkeys : (self.pkMap.map Prod.fst).Nodup)
    {i : Nat} (hi : i < self.pkMap.length) : self.getIndex self.pkMap[i].1 = some i := by
  unfold getIndex
  rw [List.findIdx?_eq_some_iff_getElem]
  refine ⟨hi, by simp, fun j hji hj => ?_⟩
  have hj' : j < (self.pkMap.map Prod.fst).length := by
    rw [List.length_map]
    omega
  have hi' : i < (self.pkMap.map Prod.fst).length := by
    rw [List.length_map]
    exact hi
  have heq : (self.pkMap.map Prod.fst)[j] = (self.pkMap.map Prod.fst)[i] := by
    simpa using hj
  exact absurd ((hkeys.getElem_inj_iff).mp heq) (Nat.ne_of_lt hji)

end MultiSigPublicKey

omit [DecidableEq PublicKey] [DecidableEq Address] in
/-- **`as_indices` decodes** a bitmap of at most ten bits into its set bits, in increasing order. -/
theorem asIndices_eq_ok_iff {bitmap : UInt16} {indices : List Nat} :
    (asIndices bitmap : Except (MgoError PublicKey) (List Nat)) = .ok indices ↔
      bitmap.toNat < 2 ^ 10 ∧ indices = (List.range 10).filter (bitmap.toNat.testBit ·) := by
  have hfilter : ((List.range 10).filter fun i => bitmap &&& ((1 : UInt16) <<< i.toUInt16) != 0) =
      (List.range 10).filter (bitmap.toNat.testBit ·) :=
    List.filter_congr fun i hi => Bitmap.and_shiftLeft_ne_zero bitmap (by have := List.mem_range.mp hi; omega)
  have hmax : maxBitmapValue.toNat = 2 ^ 10 - 1 := rfl
  unfold asIndices
  by_cases h : bitmap > maxBitmapValue
  · rw [if_pos h]
    have hlt : ¬bitmap.toNat < 2 ^ 10 := by
      rw [gt_iff_lt, UInt16.lt_iff_toNat_lt, hmax] at h
      omega
    simp only [hlt, false_and, iff_false]
    exact Except.throw_ne_ok
  · rw [if_neg h, Except.pure_eq_ok, hfilter]
    have hlt : bitmap.toNat < 2 ^ 10 := by
      rw [gt_iff_lt, UInt16.lt_iff_toNat_lt, hmax] at h
      omega
    exact ⟨fun h' => ⟨hlt, h'.symm⟩, fun h' => h'.2.symm⟩

omit [DecidableEq PublicKey] [DecidableEq Address] in
/-- The indices `as_indices` gives are strictly increasing and below ten. -/
theorem asIndices_sorted {bitmap : UInt16} {indices : List Nat}
    (h : (asIndices bitmap : Except (MgoError PublicKey) (List Nat)) = .ok indices) :
    indices.Pairwise (· < ·) ∧ ∀ i ∈ indices, i < 10 := by
  obtain ⟨-, rfl⟩ := asIndices_eq_ok_iff.mp h
  exact ⟨List.pairwise_lt_range.filter _, fun i hi => List.mem_range.mp (List.mem_filter.mp hi).1⟩

section Spec

variable {crypto : Crypto PublicKey Bytes Address Message Generic} {value : Message}

omit [DecidableEq PublicKey] [DecidableEq Address] in
/-- A zkLogin signature that `verify_claims` checks without error parses. -/
theorem zkLoginParses_of_checkSignature {bytes : Bytes} {pk : PublicKey} {b : Bool}
    (h : checkSignature crypto value (.zkLogin bytes) pk = .ok b) : crypto.zkLoginParses bytes = true := by
  by_contra hparse
  simp only [checkSignature, hparse, if_false] at h
  exact Except.throw_ne_ok h

omit [DecidableEq PublicKey] [DecidableEq Address] in
/-- One turn of the weight loop succeeds exactly when the index names a member
    whose key the signature verifies under, and adds that member's weight. -/
theorem addSignature_eq_ok_iff {pkMap : List (PublicKey × UInt8)} {weightSum weightSum' : UInt16}
    {p : CompressedSignature Bytes × Nat} :
    addSignature crypto value pkMap weightSum p = .ok weightSum' ↔
      ∃ e, pkMap[p.2]? = some e ∧ checkSignature crypto value p.1 e.1 = .ok true ∧
        weightSum' = weightSum + e.2.toUInt16 := by
  unfold addSignature
  cases hget : pkMap[p.2]? with
  | none => simp only [reduceCtorEq, false_and, exists_false]
  | some e =>
    obtain ⟨pk, weight⟩ := e
    simp only [Option.some.injEq, exists_eq_left']
    cases hcheck : checkSignature crypto value p.1 pk with
    | error err => simp [bind, Except.bind]
    | ok res =>
      rw [Except.ok_bind]
      cases res
      · simp only [Bool.false_eq_true, if_false, reduceCtorEq, Except.ok.injEq, false_and]
      · simp only [if_true, Except.pure_eq_ok, true_and]
        exact eq_comm

omit [DecidableEq PublicKey] [DecidableEq Address] in
/-- **The weight loop** succeeds exactly when every pair's index names a member
    whose key its signature verifies under, and returns the `u16` sum of
    their weights, wrapped. -/
theorem foldlM_addSignature_eq_ok_iff {pkMap : List (PublicKey × UInt8)} :
    ∀ {pairs : List (CompressedSignature Bytes × Nat)} {weightSum weightSum' : UInt16},
      pairs.foldlM (addSignature crypto value pkMap) weightSum = .ok weightSum' ↔
        (∀ p ∈ pairs, ∃ e, pkMap[p.2]? = some e ∧ checkSignature crypto value p.1 e.1 = .ok true) ∧
        weightSum'.toNat = (weightSum.toNat + (pairs.map fun p => weightAt pkMap p.2).sum) % 2 ^ 16
  | [], weightSum, weightSum' => by
    rw [List.foldlM_nil, Except.pure_eq_ok, List.map_nil, List.sum_nil, Nat.add_zero,
      Nat.mod_eq_of_lt (UInt16.toNat_lt weightSum), UInt16.toNat_inj]
    exact ⟨fun h => ⟨fun p hp => absurd hp List.not_mem_nil, h.symm⟩, fun h => h.2.symm⟩
  | p :: pairs, weightSum, weightSum' => by
    rw [List.foldlM_cons, Except.bind_eq_ok]
    constructor
    · rintro ⟨w, hw, hrest⟩
      obtain ⟨e, hget, hcheck, rfl⟩ := addSignature_eq_ok_iff.mp hw
      obtain ⟨hall, hsum⟩ := foldlM_addSignature_eq_ok_iff.mp hrest
      refine ⟨fun q hq => (List.mem_cons.mp hq).elim (· ▸ ⟨e, hget, hcheck⟩) (hall q), ?_⟩
      rw [hsum, UInt16.toNat_add, UInt8.toNat_toUInt16, List.map_cons, List.sum_cons, weightAt_of_getElem? hget,
        Nat.mod_add_mod, Nat.add_assoc]
    · rintro ⟨hall, hsum⟩
      obtain ⟨e, hget, hcheck⟩ := hall p List.mem_cons_self
      refine ⟨weightSum + e.2.toUInt16, addSignature_eq_ok_iff.mpr ⟨e, hget, hcheck, rfl⟩,
        foldlM_addSignature_eq_ok_iff.mpr ⟨fun q hq => hall q (List.mem_cons_of_mem p hq), ?_⟩⟩
      rw [hsum, UInt16.toNat_add, UInt8.toNat_toUInt16, List.map_cons, List.sum_cons, weightAt_of_getElem? hget,
        Nat.mod_add_mod, Nat.add_assoc]

omit [DecidableEq PublicKey] [DecidableEq Address] in
/-- `get_zklogin_sigs` returns the zkLogin signatures when each of them parses. -/
theorem getZkLoginSigs_eq_ok {self : MultiSig PublicKey Bytes}
    (hparse : ∀ bytes, CompressedSignature.zkLogin bytes ∈ self.sigs → crypto.zkLoginParses bytes = true) :
    self.getZkLoginSigs crypto = .ok (self.sigs.filterMap CompressedSignature.zkLoginBytes) := by
  rw [← List.map_id (self.sigs.filterMap CompressedSignature.zkLoginBytes)]
  refine mapM_eq_ok_map fun bytes hbytes => ?_
  obtain ⟨s, hs, hsb⟩ := List.mem_filterMap.mp hbytes
  cases s with
  | zkLogin b =>
    obtain rfl : b = bytes := Option.some.inj hsb
    rw [if_pos (hparse b hs)]
    rfl
  | _ => cases hsb

/-- **What `verify_claims` checks, in its order**: the key, the address, the
    zkLogin signatures and the flag that admits them, the bitmap, every
    signature paired with its index, and the weight sum against the threshold. -/
theorem verifyClaims_eq_ok_iff {self : MultiSig PublicKey Bytes} {multisigAddress : Address}
    {verifyParams : VerifyParams} :
    self.verifyClaims crypto value multisigAddress verifyParams = .ok () ↔ self.multisigPk.validate = .ok () ∧
      crypto.multisigAddress self.multisigPk = multisigAddress ∧
      ∃ zkLoginSigs, self.getZkLoginSigs crypto = .ok zkLoginSigs ∧
        (zkLoginSigs = [] ∨ verifyParams.acceptZkLoginInMultisig = true) ∧
      ∃ indices, (asIndices self.bitmap : Except (MgoError PublicKey) (List Nat)) = .ok indices ∧
      ∃ weightSum, (self.sigs.zip indices).foldlM (addSignature crypto value self.multisigPk.pkMap) 0 = .ok weightSum ∧
        self.multisigPk.threshold ≤ weightSum := by
  unfold MultiSig.verifyClaims
  dsimp only
  simp only [Except.bind_eq_ok, Except.mapError_eq_ok, Except.ite_throw_bind_eq_ok, Except.ite_pure_throw_eq_ok,
    bne_iff_ne, ne_eq, not_not, Bool.and_eq_true, Bool.not_eq_true', not_and, List.isEmpty_eq_false_iff,
    Unique.exists_iff, imp_iff_not_or, Bool.not_eq_false, ge_iff_le, and_true]

omit [DecidableEq Address] in
/-- One turn of `combine` for a member's signature whose bit is not yet set:
    the bit is set and the compressed signature pushed. -/
theorem combineStep_eq_ok {multisigPk : MultiSigPublicKey PublicKey} {acc : UInt16 × List (CompressedSignature Bytes)}
    {s : Generic} {i : Nat} {e : PublicKey × UInt8} {sig : CompressedSignature Bytes}
    (hkeys : (multisigPk.pkMap.map Prod.fst).Nodup) (hlen : multisigPk.pkMap.length ≤ maxSignerInMultisig)
    (he : multisigPk.pkMap[i]? = some e) (hpk : crypto.toPublicKey s = .ok e.1)
    (hsig : crypto.toCompressed s = .ok sig) (hfresh : acc.1.toNat.testBit i = false) :
    MultiSig.combineStep crypto multisigPk acc s = .ok (acc.1 ||| ((1 : UInt16) <<< i.toUInt16), acc.2 ++ [sig]) := by
  obtain ⟨hi, rfl⟩ := List.getElem?_eq_some_iff.mp he
  have hi16 : i < 16 := by
    unfold maxSignerInMultisig at hlen
    omega
  unfold MultiSig.combineStep
  rw [hpk, Except.ok_bind, MultiSigPublicKey.getIndex_eq_some hkeys hi]
  dsimp only
  rw [Bitmap.and_shiftLeft_ne_zero acc.1 hi16, hfresh, hsig]
  rfl

omit [DecidableEq Address] in
/-- **The loop of `combine`** over signatures of members of increasing index,
    from a bitmap whose bits are all below those indices: it sets exactly their
    bits and pushes their compressed signatures in order. -/
theorem foldlM_combineStep_eq_ok {multisigPk : MultiSigPublicKey PublicKey}
    (hkeys : (multisigPk.pkMap.map Prod.fst).Nodup) (hlen : multisigPk.pkMap.length ≤ maxSignerInMultisig) :
    ∀ {fullSigs : List Generic} {signers : List (Nat × CompressedSignature Bytes)} {bitmap : UInt16}
      {sigs : List (CompressedSignature Bytes)},
      List.Forall₂ (fun s t => ∃ e, multisigPk.pkMap[t.1]? = some e ∧ crypto.toPublicKey s = .ok e.1 ∧
        crypto.toCompressed s = .ok t.2) fullSigs signers →
      (signers.map Prod.fst).Pairwise (· < ·) →
      (∀ j, bitmap.toNat.testBit j = true → ∀ t ∈ signers, j < t.1) → bitmap.toNat < 2 ^ 10 →
      ∃ bitmap', fullSigs.foldlM (MultiSig.combineStep crypto multisigPk) (bitmap, sigs) =
          .ok (bitmap', sigs ++ signers.map Prod.snd) ∧ bitmap'.toNat < 2 ^ 10 ∧
        ∀ j, bitmap'.toNat.testBit j = true ↔ bitmap.toNat.testBit j = true ∨ j ∈ signers.map Prod.fst := by
  intro fullSigs signers bitmap sigs hsigners
  induction hsigners generalizing bitmap sigs with
  | nil =>
    intro _ _ hlt
    exact ⟨bitmap, by rw [List.map_nil, List.append_nil]; rfl, hlt, fun j => by simp⟩
  | @cons s t fullSigs signers hst _ ih =>
    intro hsorted hbelow hlt
    obtain ⟨e, he, hpk, hsig⟩ := hst
    have hi : t.1 < 10 := by
      have := (List.getElem?_eq_some_iff.mp he).1
      unfold maxSignerInMultisig at hlen
      omega
    rw [List.map_cons, List.pairwise_cons] at hsorted
    -- the signer's bit is new: every bit set so far is below its index
    have hfresh : bitmap.toNat.testBit t.1 = false :=
      Bool.eq_false_iff.mpr fun hset => absurd (hbelow t.1 hset t List.mem_cons_self) (Nat.lt_irrefl _)
    have hbits := Bitmap.testBit_or_shiftLeft bitmap (i := t.1) (by omega)
    obtain ⟨bitmap', hfold, hlt', hbits'⟩ := @ih (bitmap ||| ((1 : UInt16) <<< t.1.toUInt16))
      (sigs ++ [t.2]) hsorted.2
      (fun j hj t' ht' => by
        rw [hbits, Bool.or_eq_true, decide_eq_true_eq] at hj
        rcases hj with hj | rfl
        · exact hbelow j hj t' (List.mem_cons_of_mem t ht')
        · exact hsorted.1 t'.1 (List.mem_map_of_mem ht'))
      (Bitmap.toNat_or_shiftLeft_lt hlt hi (by decide))
    refine ⟨bitmap', ?_, hlt', fun j => ?_⟩
    · rw [List.foldlM_cons, combineStep_eq_ok hkeys hlen he hpk hsig hfresh, Except.ok_bind, hfold, List.map_cons,
        List.append_assoc, List.singleton_append]
    · rw [hbits', hbits, Bool.or_eq_true, decide_eq_true_eq, List.map_cons, List.mem_cons, or_assoc]
      exact or_congr_right (or_congr_left eq_comm)

omit [DecidableEq Address] in
/-- **`combine` of signatures of members of increasing index** builds the
    multisig of their compressed signatures, in order, with exactly their bits set. -/
theorem combine_eq_ok {multisigPk : MultiSigPublicKey PublicKey} {fullSigs : List Generic}
    {signers : List (Nat × CompressedSignature Bytes)} (hvalid : multisigPk.validate = .ok ())
    (hsigners : List.Forall₂ (fun s t => ∃ e, multisigPk.pkMap[t.1]? = some e ∧ crypto.toPublicKey s = .ok e.1 ∧
      crypto.toCompressed s = .ok t.2) fullSigs signers)
    (hsorted : (signers.map Prod.fst).Pairwise (· < ·)) (hne : fullSigs ≠ []) :
    ∃ bitmap, MultiSig.combine crypto fullSigs multisigPk = .ok ⟨signers.map Prod.snd, bitmap, multisigPk⟩ ∧
      bitmap.toNat < 2 ^ 10 ∧ ∀ j, bitmap.toNat.testBit j = true ↔ j ∈ signers.map Prod.fst := by
  obtain ⟨-, -, hlen, -, -, hkeys⟩ := MultiSigPublicKey.validate_eq_ok_iff.mp hvalid
  -- no more signatures than members: their indices are distinct members'
  have hcount : fullSigs.length ≤ multisigPk.pkMap.length := by
    rw [hsigners.length_eq, ← List.length_map (f := Prod.fst)]
    refine Bitmap.length_le_of_pairwise_lt hsorted fun i hi => ?_
    obtain ⟨t, ht, rfl⟩ := List.mem_map.mp hi
    obtain ⟨s, -, e, he, -⟩ := forall₂_exists_of_mem_right hsigners ht
    exact (List.getElem?_eq_some_iff.mp he).1
  obtain ⟨bitmap, hfold, hlt, hbits⟩ : ∃ bitmap',
      fullSigs.foldlM (MultiSig.combineStep crypto multisigPk) (0, []) = .ok (bitmap', [] ++ signers.map Prod.snd) ∧
        bitmap'.toNat < 2 ^ 10 ∧
        ∀ j, bitmap'.toNat.testBit j = true ↔ (0 : UInt16).toNat.testBit j = true ∨ j ∈ signers.map Prod.fst :=
    foldlM_combineStep_eq_ok hkeys hlen hsigners hsorted (fun j hj => absurd hj (by simp)) (by decide)
  refine ⟨bitmap, ?_, hlt, fun j => by simpa using hbits j⟩
  unfold MultiSig.combine
  rw [hvalid]
  have hcheck : (decide (fullSigs.length > multisigPk.pkMap.length) || fullSigs.isEmpty) = false := by
    simp [hcount, hne]
  simp only [Except.mapError, Except.ok_bind, hcheck, Bool.false_eq_true, if_false]
  rw [hfold, List.nil_append]
  rfl

end Spec

end Mango.Types
