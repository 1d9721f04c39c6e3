/-
  Mango.Core.Checkpoint

  The cut of a pending checkpoint into checkpoints
  (`CheckpointBuilder::split_checkpoint_chunks`,
  `crates/mgo-core/src/checkpoints/mod.rs`). The transactions are taken in
  order and put into the chunk being filled; the chunk is closed before a
  transaction once it holds `max_transactions_per_checkpoint` transactions
  or the transaction would take its estimated size past
  `max_checkpoint_size_bytes`, except that a first transaction is always
  admitted, however large. A pending checkpoint without transactions gives
  one empty chunk, the heartbeat checkpoint.

  The effects and signatures are of any types, with their BCS sizes given as
  functions: `bcs::serialized_size` does not fail on them, so the model
  returns the chunks themselves. Sizes are `Nat`, as the sum of sizes of
  values held in memory does not reach the bound of `usize`. The scope
  guard and the warning for an oversized transaction are left out.

  The chunks are the input cut into groups (`splitCheckpointChunks_spec`):
  the loop keeps the groups closed so far and the one being filled, and
  `ChunksInv` is what holds of them after every transaction.
-/
import Mathlib

namespace Mango.Core

/-- The limits of `CheckpointBuilder` that the cut reads. -/
structure CheckpointBuilder where
  maxTransactionsPerCheckpoint : Nat
  maxCheckpointSizeBytes : Nat
  deriving DecidableEq, Repr

namespace CheckpointBuilder

variable {E S : Type} (effectsSize : E → Nat) (signaturesSize : List S → Nat)

/-- The size the loop estimates for a transaction given as its effects and
    size, with its signatures. -/
def itemSize (x : (E × Nat) × List S) : Nat := x.1.2 + effectsSize x.1.1 + signaturesSize x.2

/-- The state of the loop: the chunks closed, the chunk being filled and its
    estimated size. -/
structure SplitState (E S : Type) where
  chunks : List (List (E × List S))
  chunk : List (E × List S)
  chunkSize : Nat

variable (builder : CheckpointBuilder)

/-- One transaction of the loop of `split_checkpoint_chunks`. -/
def splitStep (st : SplitState E S) (x : (E × Nat) × List S) : SplitState E S :=
  let size := itemSize effectsSize signaturesSize x
  -- roll over to a new chunk after either max count or max size is reached,
  -- but always allow at least one transaction in a checkpoint
  let st : SplitState E S :=
    if st.chunk.length = builder.maxTransactionsPerCheckpoint ∨ builder.maxCheckpointSizeBytes < st.chunkSize + size
    then if st.chunk.isEmpty then st else ⟨st.chunks ++ [st.chunk], [], 0⟩
    else st
  ⟨st.chunks, st.chunk ++ [(x.1.1, x.2)], st.chunkSize + size⟩

/-- `split_checkpoint_chunks`: the transactions are paired with their
    signatures by `zip`, and the last chunk is kept if it is not empty or if
    it is the only one. -/
def splitCheckpointChunks (effectsAndTransactionSizes : List (E × Nat)) (signatures : List (List S)) :
    List (List (E × List S)) :=
  let st := (effectsAndTransactionSizes.zip signatures).foldl (splitStep effectsSize signaturesSize builder)
    ⟨[], [], 0⟩
  if !st.chunk.isEmpty || st.chunks.isEmpty then st.chunks ++ [st.chunk] else st.chunks

/-! ## The chunks as groups of the input -/

/-- A transaction as a chunk holds it: its effects and signatures. -/
def entry (x : (E × Nat) × List S) : E × List S := (x.1.1, x.2)

/-- The estimated size of a group of transactions. -/
def groupSize (g : List ((E × Nat) × List S)) : Nat := (g.map (itemSize effectsSize signaturesSize)).sum

/-- The roll-over test: a group that holds the most transactions allowed, or
    that `x` would take past the size allowed, is closed before `x`. -/
def Closes (g : List ((E × Nat) × List S)) (x : (E × Nat) × List S) : Prop :=
  g.length = builder.maxTransactionsPerCheckpoint ∨
    builder.maxCheckpointSizeBytes < groupSize effectsSize signaturesSize g + itemSize effectsSize signaturesSize x

/-- A group is full before the next: the first transaction of the next one
    would not have fitted. -/
def FullBefore (g g' : List ((E × Nat) × List S)) : Prop :=
  ∀ x ∈ g'.head?, Closes effectsSize signaturesSize builder g x

/-- A group within the limits: at most the transactions allowed, and no
    larger than the size allowed unless it is a single transaction. -/
def Within (g : List ((E × Nat) × List S)) : Prop :=
  g.length ≤ builder.maxTransactionsPerCheckpoint ∧
    (groupSize effectsSize signaturesSize g ≤ builder.maxCheckpointSizeBytes ∨ g.length ≤ 1)

@[simp] theorem groupSize_nil : groupSize effectsSize signaturesSize ([] : List ((E × Nat) × List S)) = 0 := rfl

theorem groupSize_append_singleton (g : List ((E × Nat) × List S)) (x : (E × Nat) × List S) :
    groupSize effectsSize signaturesSize (g ++ [x]) =
      groupSize effectsSize signaturesSize g + itemSize effectsSize signaturesSize x := by
  simp [groupSize]

/-- What holds of the groups closed, `done`, and the group being filled,
    `cur`, after the transactions `seen`. -/
structure ChunksInv (done : List (List ((E × Nat) × List S))) (cur : List ((E × Nat) × List S))
    (seen : List ((E × Nat) × List S)) : Prop where
  flatten_eq : done.flatten ++ cur = seen
  done_ne_nil : ∀ g ∈ done, g ≠ []
  cur_ne_nil : seen ≠ [] → cur ≠ []
  within : ∀ g ∈ done ++ [cur], Within effectsSize signaturesSize builder g
  full : (done ++ [cur]).IsChain (FullBefore effectsSize signaturesSize builder)

/-- The loop's state stands for the groups `done` and `cur`. -/
def Represents (st : SplitState E S) (done : List (List ((E × Nat) × List S))) (cur : List ((E × Nat) × List S)) :
    Prop :=
  st.chunks = done.map (List.map entry) ∧ st.chunk = cur.map entry ∧
    st.chunkSize = groupSize effectsSize signaturesSize cur

section Spec

variable {effectsSize signaturesSize builder}

theorem Represents.start : Represents effectsSize signaturesSize (⟨[], [], 0⟩ : SplitState E S) [] [] :=
  ⟨rfl, rfl, rfl⟩

theorem ChunksInv.start : ChunksInv effectsSize signaturesSize builder [] [] [] where
  flatten_eq := rfl
  done_ne_nil _ h := absurd h List.not_mem_nil
  cur_ne_nil h := absurd rfl h
  within g h := by
    rw [List.nil_append, List.mem_singleton] at h
    subst h
    exact ⟨Nat.zero_le _, Or.inr (Nat.zero_le _)⟩
  full := List.isChain_singleton _

/-- Before the first transaction nothing is closed. -/
theorem ChunksInv.nil_of_cur_nil {done : List (List ((E × Nat) × List S))} {seen : List ((E × Nat) × List S)}
    (h : ChunksInv effectsSize signaturesSize builder done [] seen) : done = [] ∧ seen = [] := by
  have hseen : seen = [] := by
    by_contra hne
    exact h.cur_ne_nil hne rfl
  have hflat : done.flatten = [] := by simpa [hseen] using h.flatten_eq
  refine ⟨?_, hseen⟩
  cases done with
  | nil => rfl
  | cons g done =>
    rw [List.flatten_cons, List.append_eq_nil_iff] at hflat
    exact absurd hflat.1 (h.done_ne_nil g List.mem_cons_self)

/-- A single transaction is a group within the limits. -/
theorem within_singleton (hmax : 0 < builder.maxTransactionsPerCheckpoint) (x : (E × Nat) × List S) :
    Within effectsSize signaturesSize builder [x] :=
  ⟨hmax, Or.inr (Nat.le_refl _)⟩

/-- The code's roll-over test is `Closes` on the group being filled. -/
theorem rollOver_iff {st : SplitState E S} {done : List (List ((E × Nat) × List S))}
    {cur : List ((E × Nat) × List S)} (hrep : Represents effectsSize signaturesSize st done cur)
    (x : (E × Nat) × List S) :
    (st.chunk.length = builder.maxTransactionsPerCheckpoint ∨
      builder.maxCheckpointSizeBytes < st.chunkSize + itemSize effectsSize signaturesSize x) ↔
      Closes effectsSize signaturesSize builder cur x := by
  rw [hrep.2.1, hrep.2.2, List.length_map]
  rfl

/-- An empty chunk takes the transaction whatever the roll-over test says. -/
theorem splitStep_of_chunk_nil {st : SplitState E S} (h : st.chunk = []) (x : (E × Nat) × List S) :
    splitStep effectsSize signaturesSize builder st x =
      ⟨st.chunks, [entry x], st.chunkSize + itemSize effectsSize signaturesSize x⟩ := by
  have hempty : st.chunk.isEmpty = true := by rw [h]; rfl
  simp only [splitStep, hempty, if_true, ite_self]
  rw [h]
  rfl

/-- **One transaction of the loop**: the transaction opens a new group when
    the one being filled closes before it and is not empty, and joins it
    otherwise; either way the groups keep `ChunksInv`. -/
theorem splitStep_spec (hmax : 0 < builder.maxTransactionsPerCheckpoint) {st : SplitState E S}
    {done : List (List ((E × Nat) × List S))} {cur seen : List ((E × Nat) × List S)}
    (hinv : ChunksInv effectsSize signaturesSize builder done cur seen)
    (hrep : Represents effectsSize signaturesSize st done cur) (x : (E × Nat) × List S) :
    ∃ done' cur', Represents effectsSize signaturesSize (splitStep effectsSize signaturesSize builder st x) done' cur' ∧
      ChunksInv effectsSize signaturesSize builder done' cur' (seen ++ [x]) := by
  have hcond : (st.chunk.length = builder.maxTransactionsPerCheckpoint ∨
      builder.maxCheckpointSizeBytes < st.chunkSize + itemSize effectsSize signaturesSize x) ↔
      Closes effectsSize signaturesSize builder cur x := rollOver_iff hrep x
  obtain ⟨hchunks, hchunk, hsize⟩ := hrep
  by_cases hcur : cur = []
  · -- the first transaction, admitted whatever its size
    subst hcur
    obtain ⟨rfl, rfl⟩ := hinv.nil_of_cur_nil
    refine ⟨[], [x], ?_, ?_⟩
    · rw [splitStep_of_chunk_nil hchunk]
      simp [Represents, hchunks, hsize, entry, groupSize]
    · exact ⟨rfl, fun _ h => absurd h List.not_mem_nil, fun _ => List.cons_ne_nil x [],
        fun g hg => by rw [List.nil_append, List.mem_singleton] at hg; exact hg ▸ within_singleton hmax x,
        List.isChain_singleton _⟩
  · have hne : st.chunk.isEmpty = false := by simpa [hchunk] using hcur
    by_cases hclose : Closes effectsSize signaturesSize builder cur x
    · -- the group being filled is closed, and the transaction opens the next
      refine ⟨done ++ [cur], [x], ?_, ?_⟩
      · simp only [splitStep, if_pos (hcond.mpr hclose), hne]
        simp [Represents, hchunks, hchunk, entry, groupSize]
      · refine ⟨?_, ?_, fun _ => List.cons_ne_nil x [], ?_, ?_⟩
        · rw [List.flatten_append, List.flatten_singleton, ← hinv.flatten_eq]
        · intro g hg
          rcases List.mem_append.mp hg with hg | hg
          · exact hinv.done_ne_nil g hg
          · rw [List.mem_singleton.mp hg]
            exact hcur
        · intro g hg
          rcases List.mem_append.mp hg with hg | hg
          · exact hinv.within g hg
          · rw [List.mem_singleton.mp hg]
            exact within_singleton hmax x
        · refine hinv.full.append (List.isChain_singleton _) ?_
          intro a ha b hb
          rw [List.getLast?_concat, Option.mem_some_iff] at ha
          rw [List.head?_singleton, Option.mem_some_iff] at hb
          subst ha hb
          intro y hy
          rw [List.head?_singleton, Option.mem_some_iff] at hy
          exact hy ▸ hclose
    · -- the transaction joins the group being filled
      refine ⟨done, cur ++ [x], ?_, ?_⟩
      · simp only [splitStep, if_neg (mt hcond.mp hclose)]
        simp [Represents, hchunks, hchunk, hsize, entry, groupSize_append_singleton]
      · have hle : cur.length ≤ builder.maxTransactionsPerCheckpoint :=
          (hinv.within cur (List.mem_append_right _ (List.mem_singleton_self _))).1
        have hlen : cur.length ≠ builder.maxTransactionsPerCheckpoint := fun h => hclose (Or.inl h)
        have hfit : groupSize effectsSize signaturesSize cur + itemSize effectsSize signaturesSize x ≤
            builder.maxCheckpointSizeBytes := Nat.not_lt.mp fun h => hclose (Or.inr h)
        refine ⟨by rw [← List.append_assoc, hinv.flatten_eq], hinv.done_ne_nil, fun _ => by simp, ?_, ?_⟩
        · intro g hg
          rcases List.mem_append.mp hg with hg | hg
          · exact hinv.within g (List.mem_append_left _ hg)
          · rw [List.mem_singleton.mp hg]
            refine ⟨by rw [List.length_append, List.length_singleton]; omega, Or.inl ?_⟩
            rw [groupSize_append_singleton]
            exact hfit
        · -- the first transaction of the group is the one the last closed group was full before
          obtain ⟨hdone, -, hlink⟩ := List.isChain_append.mp hinv.full
          refine hdone.append (List.isChain_singleton _) fun a ha b hb => ?_
          rw [List.head?_singleton, Option.mem_some_iff] at hb
          subst hb
          have hhead : (cur ++ [x]).head? = cur.head? := List.head?_append_of_ne_nil _ hcur
          intro y hy
          rw [hhead] at hy
          exact hlink a ha cur (by simp) y hy

/-- **The loop over any transactions**: its state stands for groups that keep
    `ChunksInv`. By induction on the transactions, one `splitStep_spec` a
    transaction. -/
theorem foldl_splitStep_spec (hmax : 0 < builder.maxTransactionsPerCheckpoint) (xs : List ((E × Nat) × List S)) :
    ∀ {st : SplitState E S} {done : List (List ((E × Nat) × List S))} {cur seen : List ((E × Nat) × List S)},
      ChunksInv effectsSize signaturesSize builder done cur seen →
      Represents effectsSize signaturesSize st done cur →
      ∃ done' cur', Represents effectsSize signaturesSize (xs.foldl (splitStep effectsSize signaturesSize builder) st)
          done' cur' ∧ ChunksInv effectsSize signaturesSize builder done' cur' (seen ++ xs) := by
  induction xs with
  | nil =>
    intro st done cur seen hinv hrep
    exact ⟨done, cur, hrep, by rw [List.append_nil]; exact hinv⟩
  | cons x xs ih =>
    intro st done cur seen hinv hrep
    obtain ⟨done₁, cur₁, hrep₁, hinv₁⟩ := splitStep_spec hmax hinv hrep x
    obtain ⟨done', cur', hrep', hinv'⟩ := ih hinv₁ hrep₁
    refine ⟨done', cur', hrep', ?_⟩
    rw [List.append_cons]
    exact hinv'

end Spec

/-- **The chunks are the input cut into groups**: whatever the limits, with
    room for one transaction a chunk, `split_checkpoint_chunks` returns the
    transactions paired with their signatures, in order, cut into non-empty
    groups within the limits, each closed only when the next transaction
    would not have fitted; and no transactions give one empty chunk. -/
theorem splitCheckpointChunks_spec (hmax : 0 < builder.maxTransactionsPerCheckpoint)
    (effectsAndTransactionSizes : List (E × Nat)) (signatures : List (List S)) :
    ∃ groups : List (List ((E × Nat) × List S)),
      splitCheckpointChunks effectsSize signaturesSize builder effectsAndTransactionSizes signatures =
        groups.map (List.map entry) ∧
      groups.flatten = effectsAndTransactionSizes.zip signatures ∧ groups ≠ [] ∧
      (effectsAndTransactionSizes.zip signatures = [] → groups = [[]]) ∧
      (∀ g ∈ groups, effectsAndTransactionSizes.zip signatures ≠ [] → g ≠ []) ∧
      (∀ g ∈ groups, Within effectsSize signaturesSize builder g) ∧
      groups.IsChain (FullBefore effectsSize signaturesSize builder) := by
  obtain ⟨done, cur, ⟨hchunks, hchunk, -⟩, hinv⟩ :=
    foldl_splitStep_spec hmax (effectsAndTransactionSizes.zip signatures)
      (ChunksInv.start : ChunksInv effectsSize signaturesSize builder [] [] []) Represents.start
  rw [List.nil_append] at hinv
  -- the last chunk is kept: it is not empty, or it is the only one
  have hresult : splitCheckpointChunks effectsSize signaturesSize builder effectsAndTransactionSizes signatures =
      (done ++ [cur]).map (List.map entry) := by
    unfold splitCheckpointChunks
    dsimp only
    by_cases hcur : cur = []
    · subst hcur
      obtain ⟨rfl, -⟩ := hinv.nil_of_cur_nil
      simp [hchunks, hchunk]
    · have hne : (cur.map entry).isEmpty = false := by simpa using hcur
      simp [hchunks, hchunk, hne]
  refine ⟨done ++ [cur], hresult, ?_, by simp, fun hnil => ?_, fun g hg hne => ?_, hinv.within, hinv.full⟩
  · rw [List.flatten_append, List.flatten_singleton]
    exact hinv.flatten_eq
  · have hcur : cur = [] := by
      by_contra hcur
      exact hcur (List.append_eq_nil_iff.mp (hinv.flatten_eq.trans hnil)).2
    subst hcur
    obtain ⟨rfl, -⟩ := hinv.nil_of_cur_nil
    rfl
  · rcases List.mem_append.mp hg with hg | hg
    · exact hinv.done_ne_nil g hg
    · rw [List.mem_singleton.mp hg]
      exact hinv.cur_ne_nil hne

/-- **`split_checkpoint_chunks` cuts the transactions in order**: for
    transactions and signatures of one length and room for one transaction a
    chunk, the chunks are groups of the input that give back the transactions
    and their signatures in order; no chunk is empty but the single chunk of
    no transactions; a chunk holds at most the transactions allowed and is no
    larger than the size allowed unless it is one transaction; and every
    chunk but the last is full before the next. -/
theorem split_checkpoint_chunks_cuts_in_order (hmax : 1 ≤ builder.maxTransactionsPerCheckpoint)
    (effectsAndTransactionSizes : List (E × Nat)) (signatures : List (List S))
    (hlen : effectsAndTransactionSizes.length = signatures.length) :
    ∃ groups : List (List ((E × Nat) × List S)),
      splitCheckpointChunks effectsSize signaturesSize builder effectsAndTransactionSizes signatures =
        groups.map (List.map entry) ∧ groups ≠ [] ∧
      groups.flatten.map Prod.fst = effectsAndTransactionSizes ∧ groups.flatten.map Prod.snd = signatures ∧
      (effectsAndTransactionSizes = [] → groups = [[]]) ∧
      (effectsAndTransactionSizes ≠ [] → ∀ g ∈ groups, g ≠ []) ∧
      (∀ g ∈ groups, g.length ≤ builder.maxTransactionsPerCheckpoint ∧
        (groupSize effectsSize signaturesSize g ≤ builder.maxCheckpointSizeBytes ∨ g.length = 1)) ∧
      groups.IsChain (FullBefore effectsSize signaturesSize builder) := by
  obtain ⟨groups, hresult, hflat, hne, hnil, hnonempty, hwithin, hfull⟩ :=
    splitCheckpointChunks_spec effectsSize signaturesSize builder hmax effectsAndTransactionSizes signatures
  -- with one signature list a transaction, `zip` drops nothing
  have hzip : effectsAndTransactionSizes.zip signatures = [] ↔ effectsAndTransactionSizes = [] := by
    rw [← List.length_eq_zero_iff, List.length_zip, hlen, Nat.min_self, List.length_eq_zero_iff,
      ← List.length_eq_zero_iff, ← hlen, List.length_eq_zero_iff]
  refine ⟨groups, hresult, hne, ?_, ?_, fun h => hnil (hzip.mpr h), fun h g hg => hnonempty g hg (mt hzip.mp h),
    fun g hg => ⟨(hwithin g hg).1, ?_⟩, hfull⟩
  · rw [hflat, List.map_fst_zip (Nat.le_of_eq hlen)]
  · rw [hflat, List.map_snd_zip (Nat.le_of_eq hlen.symm)]
  · -- an empty group has size zero
    rcases (hwithin g hg).2 with h | h
    · exact Or.inl h
    · rcases Nat.le_one_iff_eq_zero_or_eq_one.mp h with h0 | h1
      · rw [List.length_eq_zero_iff.mp h0]
        exact Or.inl (Nat.zero_le _)
      · exact Or.inr h1

/-- Limits of two transactions and 10 bytes a checkpoint. -/
def smallBuilder : CheckpointBuilder := ⟨2, 10⟩

/-- Three transactions with sizes 3, 4 and 20, whose effects are of size 1. -/
def threeTransactions : List (Nat × Nat) := [(0, 3), (1, 4), (2, 20)]

theorem split_checkpoint_chunks_cuts_in_order_three :
    1 ≤ smallBuilder.maxTransactionsPerCheckpoint ∧ threeTransactions.length = [[0], [1], [2]].length ∧
    ∃ groups : List (List ((Nat × Nat) × List Nat)),
      splitCheckpointChunks (fun _ => 1) List.length smallBuilder threeTransactions [[0], [1], [2]] =
        groups.map (List.map entry) ∧ groups ≠ [] ∧
      groups.flatten.map Prod.fst = threeTransactions ∧ groups.flatten.map Prod.snd = [[0], [1], [2]] ∧
      (threeTransactions = [] → groups = [[]]) ∧
      (threeTransactions ≠ [] → ∀ g ∈ groups, g ≠ []) ∧
      (∀ g ∈ groups, g.length ≤ smallBuilder.maxTransactionsPerCheckpoint ∧
        (groupSize (fun _ => 1) List.length g ≤ smallBuilder.maxCheckpointSizeBytes ∨ g.length = 1)) ∧
      groups.IsChain (FullBefore (fun _ => 1) List.length smallBuilder) :=
  ⟨by decide, rfl, split_checkpoint_chunks_cuts_in_order (fun _ => 1) List.length smallBuilder (by decide)
    threeTransactions [[0], [1], [2]] rfl⟩

-- Estimated sizes 5, 6 and 22: the first two do not fit in 10 bytes together, and the third goes
-- alone, oversized.
example : splitCheckpointChunks (fun _ => 1) List.length smallBuilder threeTransactions [[0], [1], [2]] =
    [[(0, [0])], [(1, [1])], [(2, [2])]] := by
  decide

example : splitCheckpointChunks (fun _ : Nat => 1) (List.length : List Nat → Nat) smallBuilder [] [] = [[]] := by
  decide

end CheckpointBuilder

end Mango.Core
