/-
  Mango.Narwhal.Consensus.LeaderSchedule

  Leader election (`narwhal/primary/src/consensus/leader_schedule.rs` and
  `Committee::leader` in `narwhal/config/src/committee.rs`): a stake-weighted
  choice seeded by the round, overridden by the `LeaderSwapTable` that the last
  final reputation scores produced.

  The random choices come from the `rand` crate, which is not part of the
  repository: `StdRng::from_seed` with the round in the seed's last eight bytes,
  then `choose_weighted` (in `Committee::leader`) or `choose` (in
  `LeaderSwapTable::swap`). They are the parameter `LeaderRng`. What the code
  relies on of them is named where a statement needs it: a weighted choice picks
  one of the listed authorities, and `choose` picks an index of the slice.
-/
import Mango.Narwhal.Consensus.State
import Mango.Lib.Except
import Mathlib

namespace Mango.Narwhal

/-- The seeded random choices of the leader schedule. -/
structure LeaderRng where
  /-- `choose_weighted(StdRng::from_seed(seed))` over `(authority, stake)` pairs;
      `none` is its `WeightedError`. -/
  chooseWeighted : Nat → List (Nat × Nat) → Option Nat
  /-- The index `choose(StdRng::from_seed(seed))` picks in a slice of this length. -/
  chooseIndex : Nat → Nat → Nat

/-- `Committee::leader`: a stake-weighted choice seeded by `seed`. -/
def Committee.leader (rng : LeaderRng) (c : Committee) (seed : Nat) : Except Halt Nat :=
  match rng.chooseWeighted seed (c.authorities.map fun a => (a, c.stakeById a)) with
  | some a => pure a
  | none => throw (.panic .weightedChoiceError)

/-! ## The leader swap table -/

/-- `LeaderSwapTable`: from the round it takes effect, every leader among
    `badNodes` is replaced by one of `goodNodes`. -/
structure LeaderSwapTable where
  round : Nat
  goodNodes : List Nat
  badNodes : List Nat
  deriving DecidableEq, Repr

namespace LeaderSwapTable

/-- `LeaderSwapTable::default`: no swaps. -/
def default : LeaderSwapTable := ⟨0, [], []⟩

/-- `retrieve_first_nodes`: take authorities in the given order until their
    accumulated stake passes `stake_threshold` percent of the total stake. -/
def retrieveFirstNodes (committee : Committee) (stakeThreshold : Nat) :
    List (Nat × Nat) → Nat → Except Halt (List Nat)
  | [], _ => pure []
  | (a, _) :: rest, stake =>
    let stake := stake + committee.stakeById a
    if stakeThreshold * committee.totalStake / 100 < stake then pure []
    else if a < committee.size then
      return a :: (← retrieveFirstNodes committee stakeThreshold rest stake)
    else throw (.panic .authorityNotInCommittee)

/-- `LeaderSwapTable::new`: the good nodes are the best scorers and the bad nodes
    the worst, each up to `bad_nodes_stake_threshold` percent of the stake. -/
def new (committee : Committee) (round : Nat) (scores : ReputationScores)
    (badNodesStakeThreshold : Nat) : Except Halt LeaderSwapTable := do
  if 33 < badNodesStakeThreshold then throw (.panic .badNodesThresholdOutOfRange)
  if !scores.finalOfSchedule then throw (.panic .scoresNotFinal)
  let goodNodes ←
    retrieveFirstNodes committee badNodesStakeThreshold scores.authoritiesByScoreDesc 0
  let badNodes ←
    retrieveFirstNodes committee badNodesStakeThreshold scores.authoritiesByScoreDesc.reverse 0
  return { round, goodNodes, badNodes }

/-- `LeaderSwapTable::swap`: a bad leader is replaced by a good node chosen with
    the round as seed. -/
def swap (rng : LeaderRng) (t : LeaderSwapTable) (leader leaderRound : Nat) :
    Except Halt (Option Nat) :=
  if leader ∈ t.badNodes then
    match t.goodNodes[rng.chooseIndex leaderRound t.goodNodes.length]? with
    | some good => pure (some good)
    | none => throw (.panic .noGoodNode)
  else pure none

/-- The swap table of a committee whose top scorer alone holds more than a third
    of the stake: it has no good node, while the two lowest scorers are bad, and
    swapping either of them hits the "There should be at least one good node
    available" panic, whatever the random choice. -/
theorem swap_panics_without_good_nodes :
    ∃ t, new ⟨0, [10, 1, 1]⟩ 2 ⟨[(0, 2), (1, 1), (2, 0)], true⟩ 33 = .ok t ∧
      t.goodNodes = [] ∧ t.badNodes = [2, 1] ∧
      ∀ rng leaderRound, t.swap rng 2 leaderRound = .error (.panic .noGoodNode) :=
  ⟨⟨2, [], [2, 1]⟩, rfl, rfl, rfl, fun _ _ => rfl⟩

end LeaderSwapTable

/-! ## The leader schedule -/

/-- `LeaderSchedule::leader`: the elected authority of an even round, after swaps. -/
def LeaderSchedule.leader (rng : LeaderRng) (committee : Committee) (table : LeaderSwapTable)
    (round : Nat) : Except Halt Nat := do
  if round % 2 ≠ 0 then throw (.panic .oddLeaderRound)
  let leader ← committee.leader rng round
  return (← table.swap rng leader round).getD leader

/-- `LeaderSchedule::leader_certificate`: the leader of `round` and its certificate
    in the DAG, if any. -/
def LeaderSchedule.leaderCertificate (rng : LeaderRng) (committee : Committee)
    (table : LeaderSwapTable) (round : Nat) (dag : Dag) : Except Halt (Nat × Option Certificate) := do
  let leader ← LeaderSchedule.leader rng committee table round
  return (leader, dag round leader)

end Mango.Narwhal
