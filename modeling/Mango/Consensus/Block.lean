/-
  Mango.Consensus.Block

  The blocks of the Mysticeti DAG (`consensus/core/src/block.rs`) and the
  references between them.

  A `BlockRef` names a block by its round, its author and its digest, and
  `#[derive(Ord)]` orders references by those fields in that order: the round
  first. A `BlockDigest` is 32 bytes compared first byte first, which orders
  them as the big-endian numbers they spell, so the model keeps a digest as a
  number below `2 ^ 256`; `BlockDigest::MIN` and `MAX` are the least and the
  greatest. The range from `(r, a, MIN)` to `(r, a, MAX)` is then exactly the
  references of the slot `(r, a)` (`mem_slotRange`), and every reference of a
  round `r` or later lies above `(r, 0, MIN)` (`slotStart_le_iff`).

  A block keeps the fields the modelled code reads: its round, author,
  timestamp and ancestors (epoch, transactions and signature are left out); a
  `VerifiedBlock` adds the digest its bytes hash to. The rounds are `Nat`: the
  `u32` rounds do not come near their bound. The threshold clock counts
  references without their digest (`BlockRef.clockRef`).
-/
import Mathlib
import Mango.Consensus.ThresholdClock

namespace Mango.Consensus

namespace Dag

/-- `BlockDigest`: 32 bytes, as the big-endian number they spell. -/
abbrev BlockDigest := Fin (2 ^ 256)

/-- `2 ^ 256` is not zero: digests have numerals. -/
instance BlockDigest.neZero : NeZero (2 ^ 256 : Nat) := ⟨(Nat.two_pow_pos 256).ne'⟩

/-- `BlockDigest::MIN`, all bytes `u8::MIN`. -/
def BlockDigest.min : BlockDigest := 0

/-- `BlockDigest::MAX`, all bytes `u8::MAX`. -/
def BlockDigest.max : BlockDigest := Fin.last _

/-- `BlockRef`. -/
structure BlockRef where
  round : Nat
  author : Nat
  digest : BlockDigest
  deriving DecidableEq, Repr

namespace BlockRef

/-- The fields in the order `#[derive(Ord)]` compares them. -/
def lex (r : BlockRef) : Lex (Nat × Lex (Nat × BlockDigest)) := toLex (r.round, toLex (r.author, r.digest))

theorem lex_injective : Function.Injective lex := by
  rintro ⟨r, a, d⟩ ⟨r', a', d'⟩ h
  simp only [lex, toLex_inj, Prod.mk.injEq] at h
  obtain ⟨rfl, rfl, rfl⟩ := h
  rfl

instance : LinearOrder BlockRef := LinearOrder.lift' lex lex_injective

/-- The order `#[derive(Ord)]` gives: the round, then the author, then the digest. -/
theorem le_def {x y : BlockRef} : x ≤ y ↔
    x.round < y.round ∨ x.round = y.round ∧ (x.author < y.author ∨ x.author = y.author ∧ x.digest ≤ y.digest) :=
  show x.lex ≤ y.lex ↔ _ by rw [lex, lex, Prod.Lex.toLex_le_toLex, Prod.Lex.toLex_le_toLex]

/-- The round decides the order of references of different rounds. -/
theorem lt_of_round_lt {x y : BlockRef} (h : x.round < y.round) : x < y :=
  lt_of_not_ge fun hyx => by rw [le_def] at hyx; omega

theorem round_le_of_le {x y : BlockRef} (h : x ≤ y) : x.round ≤ y.round := by
  rw [le_def] at h
  omega

/-- The reference the threshold clock counts: the round and the author. -/
def clockRef (r : BlockRef) : Consensus.BlockRef := ⟨r.round, r.author⟩

@[simp] theorem clockRef_round (r : BlockRef) : r.clockRef.round = r.round := rfl

end BlockRef

/-- The lowest reference of a round: `BlockRef::new(round, AuthorityIndex::ZERO, BlockDigest::MIN)`. -/
def slotStart (round : Nat) : BlockRef := ⟨round, 0, BlockDigest.min⟩

/-- The references at or above the first of a round are those of that round or later. -/
theorem slotStart_le_iff {round : Nat} {x : BlockRef} : slotStart round ≤ x ↔ round ≤ x.round := by
  rw [BlockRef.le_def]
  simp only [slotStart, BlockDigest.min, Fin.zero_le, and_true]
  omega

/-- `get_uncommitted_blocks_at_slot`'s range: from `(round, authority, MIN)` to `(round, authority, MAX)`. -/
def InSlot (round authority : Nat) (x : BlockRef) : Prop :=
  ⟨round, authority, BlockDigest.min⟩ ≤ x ∧ x ≤ ⟨round, authority, BlockDigest.max⟩

instance (round authority : Nat) : DecidablePred (InSlot round authority) :=
  fun _ => inferInstanceAs (Decidable (_ ∧ _))

/-- The range of a slot holds the references of that slot. -/
theorem mem_slotRange {round authority : Nat} {x : BlockRef} :
    InSlot round authority x ↔ x.round = round ∧ x.author = authority := by
  simp only [InSlot, BlockRef.le_def, BlockDigest.min, BlockDigest.max, Fin.zero_le, Fin.le_last, and_true]
  omega

/-- `Block`, with the fields the modelled code reads. -/
structure Block where
  round : Nat
  author : Nat
  timestampMs : Nat
  ancestors : List BlockRef
  deriving DecidableEq, Repr

/-- `VerifiedBlock`: a block and the digest of its bytes. -/
structure VerifiedBlock where
  block : Block
  digest : BlockDigest
  deriving DecidableEq, Repr

namespace VerifiedBlock

def round (b : VerifiedBlock) : Nat := b.block.round

def author (b : VerifiedBlock) : Nat := b.block.author

def timestampMs (b : VerifiedBlock) : Nat := b.block.timestampMs

def ancestors (b : VerifiedBlock) : List BlockRef := b.block.ancestors

/-- `VerifiedBlock::reference`. -/
def reference (b : VerifiedBlock) : BlockRef := ⟨b.round, b.author, b.digest⟩

@[simp] theorem reference_round (b : VerifiedBlock) : b.reference.round = b.round := rfl

@[simp] theorem reference_author (b : VerifiedBlock) : b.reference.author = b.author := rfl

end VerifiedBlock

end Dag

end Mango.Consensus
