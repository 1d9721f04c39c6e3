/-
  Mango.Framework.ValidatorSet

  `mgo-system/sources/validator_set.move`, the functions of an epoch change
  that read the active validators: `derive_reference_gas_price`, the
  stake-weighted survey of the gas prices the validators quote.

  The price is derived by popping the quotes from a `PriorityQueue` keyed by
  price until the voting power popped reaches `total_voting_power -
  quorum_threshold`. `deriveLoop_eq_scan` shows that loop to be
  `scanToThreshold` over the quotes in non-increasing order of price, and the
  weighted-quantile theorem of `Mango.Lib.WeightedQuantile` then gives what
  the price is: some validator's quote, with a quorum of voting power at or
  below it and the rest of the power at or above it.
-/
import Mango.Framework.PriorityQueue
import Mango.Framework.StakingPool
import Mango.Framework.VotingPower
import Mango.Lib.WeightedQuantile

namespace Mango.Framework

open Mango.Lib Mango.Lib.BinaryHeap PriorityQueue VotingPower

/-- A `Validator` of `active_validators` as the epoch change reads it: its
    staking part (`Validator`), with `metadata.mgo_address`, `voting_power`,
    `gas_price` and `commission_rate`. -/
structure ActiveValidator extends Validator where
  mgoAddress : Nat
  votingPower : Nat
  gasPrice : Nat
  commissionRate : Nat
  deriving DecidableEq, Repr

namespace ValidatorSet

/-! ## Reference gas price -/

/-- The loop of `derive_reference_gas_price`: pop the highest quote while the
    voting power popped is below `threshold`. A pop that returns removes an
    entry (`popMax_length`), so the loop ends. -/
def deriveLoop (threshold : Nat) (pq : PriorityQueue Nat) (sum result : Nat) :
    Except PriorityQueue.Abort Nat :=
  if sum < threshold then
    match h : popMax pq with
    | .ok (gasPrice, votingPower, pq') => deriveLoop threshold pq' (sum + votingPower) gasPrice
    | .error e => .error e
  else pure result
termination_by pq.entries.length
decreasing_by
  have := popMax_length h
  omega

/-- `derive_reference_gas_price`, on `self.active_validators`. -/
def deriveReferenceGasPrice (activeValidators : List ActiveValidator) : Except PriorityQueue.Abort Nat := do
  let entries := activeValidators.map fun v => newEntry v.gasPrice v.votingPower
  let pq ← new entries
  deriveLoop (totalVotingPower - quorumThreshold) pq 0 0

/-- **The loop of pops is a scan of the quotes in order**: on a heap it runs
    as `scanToThreshold` over some arrangement of the entries by
    non-increasing price, and aborts where the scan runs out. By well-founded
    induction on the entries left, one `popMax_spec` a pop. -/
theorem deriveLoop_eq_scan (threshold : Nat) (pq : PriorityQueue Nat) (sum result : Nat)
    (h : pq.IsHeap) :
    ∃ order : List (Entry Nat), order.Perm pq.entries ∧
      order.Pairwise (fun a b => b.priority ≤ a.priority) ∧
      deriveLoop threshold pq sum result =
        (scanToThreshold Entry.priority Entry.value threshold order sum result).elim
          (.error .popFromEmptyHeap) .ok := by
  rw [deriveLoop]
  by_cases hlt : sum < threshold
  · rw [if_pos hlt]
    by_cases hne : pq.entries = []
    · -- popping an empty queue aborts, as the scan of nothing does
      refine ⟨[], by rw [hne], List.Pairwise.nil, ?_⟩
      obtain ⟨entries⟩ := pq
      subst hne
      rw [scanToThreshold, if_pos hlt]
      split
      · next hp =>
        rw [popMax_nil] at hp
        cases hp
      · next e hp =>
        rw [popMax_nil] at hp
        cases hp
        rfl
    · obtain ⟨e, pq', hpop, hheap, hperm, hmax⟩ := popMax_spec h hne
      have hlen := popMax_length hpop
      obtain ⟨order, hord, hsorted, heq⟩ := deriveLoop_eq_scan threshold pq' (sum + e.value) e.priority hheap
      refine ⟨e :: order, (hord.cons e).trans hperm, ?_, ?_⟩
      · -- the popped entry is no lower than any entry left
        refine List.pairwise_cons.mpr ⟨fun b hb => hmax b ?_, hsorted⟩
        exact hperm.subset (List.mem_cons_of_mem e (hord.subset hb))
      · rw [scanToThreshold, if_pos hlt]
        split
        · next g vp pq'' hp =>
          rw [hpop] at hp
          obtain ⟨rfl, rfl, rfl⟩ : e.priority = g ∧ e.value = vp ∧ pq' = pq'' := by
            simpa using hp
          exact heq
        · next e' hp =>
          rw [hpop] at hp
          cases hp
  · rw [if_neg hlt]
    refine ⟨pq.entries.mergeSort fun a b => decide (b.priority ≤ a.priority),
      List.mergeSort_perm _ _, ?_, ?_⟩
    · refine (List.pairwise_mergeSort ?_ ?_ _).imp fun hab => of_decide_eq_true hab
      · intro a b c hab hbc
        simp only [decide_eq_true_eq] at hab hbc ⊢
        omega
      · intro a b
        simp only [Bool.or_eq_true, decide_eq_true_eq]
        omega
    · rw [scanToThreshold_of_le hlt]
      rfl
termination_by pq.entries.length

/-- The voting power of the validators quoting a price with property `q` is
    the weight of the entries of such a price, in whatever order they are. -/
theorem sum_votingPower_filter {activeValidators : List ActiveValidator} {order : List (Entry Nat)}
    (h : order.Perm (activeValidators.map fun v => newEntry v.gasPrice v.votingPower))
    (q : Nat → Bool) :
    ((activeValidators.filter fun v => q v.gasPrice).map ActiveValidator.votingPower).sum =
      ((order.filter fun y => q y.priority).map Entry.value).sum := by
  rw [((h.filter _).map _).sum_eq, List.filter_map, List.map_map]
  rfl

/-- **The reference gas price is the stake-weighted one-third quantile** of
    the quotes: when the voting powers add up to `total_voting_power`,
    `derive_reference_gas_price` returns without an abort a price that some
    validator quotes, with at least `quorum_threshold` of the voting power
    quoting it or less, and at least the rest quoting it or more. -/
theorem derive_reference_gas_price_is_quantile (activeValidators : List ActiveValidator)
    (hsum : (activeValidators.map ActiveValidator.votingPower).sum = totalVotingPower) :
    ∃ p, deriveReferenceGasPrice activeValidators = .ok p ∧
      (∃ v ∈ activeValidators, v.gasPrice = p) ∧
      quorumThreshold ≤
        ((activeValidators.filter fun v => v.gasPrice ≤ p).map ActiveValidator.votingPower).sum ∧
      totalVotingPower - quorumThreshold ≤
        ((activeValidators.filter fun v => p ≤ v.gasPrice).map ActiveValidator.votingPower).sum := by
  obtain ⟨pq, hnew, hheap, hperm⟩ := new_spec (activeValidators.map fun v => newEntry v.gasPrice v.votingPower)
  obtain ⟨order, hord, hsorted, hloop⟩ :=
    deriveLoop_eq_scan (totalVotingPower - quorumThreshold) pq 0 0 hheap
  have hperm' := hord.trans hperm
  have htotal : (order.map Entry.value).sum = totalVotingPower := by
    rw [(hperm'.map _).sum_eq, List.map_map, ← hsum]
    rfl
  obtain ⟨x, hx, hscan, hge, hle⟩ := scanToThreshold_quantile hsorted
    (by decide : 0 < totalVotingPower - quorumThreshold) (by rw [htotal]; decide)
  refine ⟨x.priority, ?_, ?_, ?_, ?_⟩
  · simp only [deriveReferenceGasPrice, hnew]
    rw [show (Except.ok pq : Except PriorityQueue.Abort _) = pure pq from rfl, pure_bind, hloop, hscan]
    rfl
  · obtain ⟨v, hv, rfl⟩ := List.mem_map.mp (hperm'.subset hx)
    exact ⟨v, hv, rfl⟩
  · have hlow := sum_votingPower_filter hperm' fun g => decide (g ≤ x.priority)
    rw [htotal] at hle
    rw [hlow]
    unfold totalVotingPower quorumThreshold at hle
    unfold quorumThreshold
    omega
  · rw [sum_votingPower_filter hperm' fun g => decide (x.priority ≤ g)]
    exact hge

/-- Two validators quoting 20 and 30, with 6000 and 4000 of the voting power. -/
def twoQuotes : List ActiveValidator :=
  [⟨⟨StakingPool.new, 0⟩, 1, 6000, 20, 0⟩, ⟨⟨StakingPool.new, 0⟩, 2, 4000, 30, 0⟩]

theorem derive_reference_gas_price_is_quantile_two_quotes :
    (twoQuotes.map ActiveValidator.votingPower).sum = totalVotingPower ∧
    ∃ p, deriveReferenceGasPrice twoQuotes = .ok p ∧
      (∃ v ∈ twoQuotes, v.gasPrice = p) ∧
      quorumThreshold ≤ ((twoQuotes.filter fun v => v.gasPrice ≤ p).map ActiveValidator.votingPower).sum ∧
      totalVotingPower - quorumThreshold ≤
        ((twoQuotes.filter fun v => p ≤ v.gasPrice).map ActiveValidator.votingPower).sum :=
  ⟨by decide, derive_reference_gas_price_is_quantile twoQuotes (by decide)⟩

end ValidatorSet

end Mango.Framework
