/-
  Mango.Narwhal.Types

  The Narwhal data shared by the primary and by Bullshark: rounds, authority
  identifiers, the committee with its stake thresholds
  (`narwhal/config/src/committee.rs`) and certificates
  (`narwhal/types/src/primary.rs`).

  Rounds, stakes, epochs, timestamps, sequence numbers, authority identifiers
  and certificate digests are all `Nat` (`u64`, `u16` and 32-byte digests in
  the code; nothing here depends on their width). Authority identifiers are
  the indices `0, …, n-1` that `Committee::load`
  hands out in key order (`Committee::new` asserts `index == authority.id`),
  so a committee is the list of its stakes. A certificate is modelled by the
  header fields that consensus and the primary read. Its digest is a field:
  the code computes it by hashing the header, and the model asks of that hash
  only what the code relies on, that distinct certificates have distinct
  digests, where a statement needs it. A header, which the primary builds
  and votes on, stands for its own digest instead.
-/
import Mathlib

namespace Mango.Narwhal


/-! ## Committee -/

/-- A committee: authority `i` has stake `stakes[i]`. -/
structure Committee where
  epoch : Nat
  stakes : List Nat
  deriving DecidableEq, Repr

namespace Committee

/-- `Committee::size`. -/
def size (c : Committee) : Nat := c.stakes.length

/-- The identifiers of `Committee::authorities`, in identifier order. -/
def authorities (c : Committee) : List Nat := List.range c.size

/-- `Committee::stake_by_id`: an identifier outside the committee has stake zero. -/
def stakeById (c : Committee) (id : Nat) : Nat := c.stakes.getD id 0

/-- `Committee::total_stake`. -/
def totalStake (c : Committee) : Nat := c.stakes.sum

/-- `calculate_quorum_threshold`: `2f + 1` when `n = 3f + 1`. -/
def quorumThreshold (c : Committee) : Nat := 2 * c.totalStake / 3 + 1

/-- `calculate_validity_threshold`: `f + 1` when `n = 3f + 1`. -/
def validityThreshold (c : Committee) : Nat := (c.totalStake + 2) / 3

@[simp] theorem mem_authorities {c : Committee} {a : Nat} :
    a ∈ c.authorities ↔ a < c.size := by
  simp [authorities]

end Committee

/-! ## Certificates -/

/-- The fields of a certificate (and of its header) that the modelled code reads. -/
structure Certificate where
  round : Nat
  origin : Nat
  epoch : Nat
  parents : List Nat
  createdAt : Nat
  digest : Nat
  deriving DecidableEq, Repr

/-! ## Headers -/

/-- The fields of a header (`HeaderV1`, `HeaderV2`) that the primary builds and
    checks: the batch digests of its payload, its system messages (always empty
    in a `HeaderV1`) and its parents' digests. `Header::digest` hashes all of
    them, and the model compares headers where the code compares digests. -/
structure Header where
  author : Nat
  round : Nat
  epoch : Nat
  createdAt : Nat
  payload : List Nat
  systemMessages : List Nat
  parents : List Nat
  deriving DecidableEq, Repr

/-- A header digest. The model lets a header stand for its own digest, which is
    what a collision-free hash gives. -/
def HeaderDigest : Type := Header

instance : DecidableEq HeaderDigest := inferInstanceAs (DecidableEq Header)

/-- `Header::digest`. -/
def Header.digest (header : Header) : HeaderDigest := header

/-! ## Errors -/

/-- The `DagError`s that the modelled primary code returns. -/
inductive DagError where
  /-- "Header author {author} must match requesting peer {peer}". -/
  | networkError (author peer : Nat)
  | invalidEpoch (expected received : Nat)
  | alreadyVotedNewerHeader (digest : HeaderDigest) (round votedRound : Nat)
  | alreadyVoted (votedDigest digest : HeaderDigest) (round : Nat)
  | tooOld (digest round gcRound : Nat)
  | tooNew (digest round highestProcessedRound : Nat)
  | suspended
  | invalidGenesisParent (digest : Nat)

end Mango.Narwhal
