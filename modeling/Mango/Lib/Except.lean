/-
  Mango.Lib.Except

  Reasoning about computations in `Except ε` that succeed: the inversion of
  `bind`, invariants carried through `List.foldlM`, and what a successful
  `forM`, `mapM` or `filterM` did with each element. `ErrorsIn` says which
  errors a computation can end in, and composes through `bind`, `mapError`
  and `filterM`. Code that can fail
  (an error returned with `?`, or a panic) is modelled in `Except`, and the
  properties proved of it are about the runs that return `ok`.
-/
import Mathlib

namespace Mango.Lib

variable {ε α β : Type _}

/-- A bind that succeeds ran its first computation to success. -/
theorem Except.bind_eq_ok {x : Except ε α} {f : α → Except ε β} {b : β} :
    x >>= f = .ok b ↔ ∃ a, x = .ok a ∧ f a = .ok b := by
  cases x with
  | error e => simp [bind, Except.bind]
  | ok a => simp [bind, Except.bind]

/-- A bind that fails failed in its first computation or after it. -/
theorem Except.bind_eq_error {x : Except ε α} {f : α → Except ε β} {e : ε} :
    x >>= f = .error e ↔ x = .error e ∨ ∃ a, x = .ok a ∧ f a = .error e := by
  cases x with
  | error e' => simp [bind, Except.bind]
  | ok a => simp [bind, Except.bind]

@[simp] theorem Except.pure_ne_error {a : α} {e : ε} : (pure a : Except ε α) ≠ .error e := by
  simp [pure, Except.pure]

/-- A bind after a success continues with its value. -/
theorem Except.ok_bind {a : α} {f : α → Except ε β} : (Except.ok a >>= f) = f a := rfl

@[simp] theorem Except.pure_eq_ok {a b : α} : (pure a : Except ε α) = .ok b ↔ a = b := by
  simp [pure, Except.pure]

@[simp] theorem Except.throw_ne_ok {e : ε} {b : α} : (throw e : Except ε α) ≠ .ok b := by
  simp [throw, throwThe, MonadExceptOf.throw]

/-- A computation that throws first never succeeds. -/
@[simp] theorem Except.throw_bind_ne_ok {e : ε} {f : α → Except ε β} {b : β} :
    (throw e >>= f) ≠ .ok b := by
  simp [throw, throwThe, MonadExceptOf.throw, bind, Except.bind]

/-- What follows a throw is not run. -/
@[simp] theorem Except.throw_bind {e : ε} {f : α → Except ε β} : (throw e >>= f) = throw e := rfl

/-- A mapped throw throws. -/
@[simp] theorem Except.map_throw {e : ε} {f : α → β} : (f <$> (throw e : Except ε α)) = throw e := rfl

/-- A `return` behind an assertion that succeeds passed the assertion. -/
theorem Except.ite_throw_pure_eq_ok {p : Prop} [Decidable p] {e : ε} {a b : α} :
    (if p then (throw e : Except ε PUnit) >>= (fun _ => pure a) else pure a) = .ok b ↔
      ¬p ∧ a = b := by
  by_cases hp : p
  · simp only [hp, if_true, not_true_eq_false, false_and, iff_false]
    exact Except.throw_bind_ne_ok
  · simp [hp]

/-- An assertion that succeeds passed, and what follows it succeeded. -/
theorem Except.ite_throw_bind_eq_ok {p : Prop} [Decidable p] {e : ε} {k : PUnit → Except ε α}
    {x : Except ε α} {b : α} : (if p then throw e >>= k else x) = .ok b ↔ ¬p ∧ x = .ok b := by
  by_cases hp : p
  · simp only [hp, if_true, not_true_eq_false, false_and, iff_false]
    exact Except.throw_bind_ne_ok
  · simp [hp]

/-- A `return` guarded by a condition, with a throw otherwise, returns exactly when the condition holds. -/
theorem Except.ite_pure_throw_eq_ok {p : Prop} [Decidable p] {e : ε} {a b : α} :
    (if p then pure a else throw e : Except ε α) = .ok b ↔ p ∧ a = b := by
  by_cases hp : p
  · simp [hp]
  · simp only [hp, if_false, false_and, iff_false]
    exact Except.throw_ne_ok

/-- A mapped computation that succeeds ran to a value it maps. -/
theorem Except.map_eq_ok {f : α → β} {x : Except ε α} {b : β} :
    f <$> x = .ok b ↔ ∃ a, x = .ok a ∧ f a = b := by
  cases x <;> simp [Functor.map, Except.map]

/-- Relabelling the error keeps success as it is. -/
@[simp] theorem Except.mapError_eq_ok {ε' : Type _} {f : ε → ε'} {x : Except ε α} {a : α} :
    x.mapError f = .ok a ↔ x = .ok a := by
  cases x <;> simp [Except.mapError]

/-- A successful `forM` succeeded on every element. -/
theorem forM_ok_mem {f : α → Except ε PUnit} :
    ∀ {l : List α}, forM l f = .ok () → ∀ x ∈ l, f x = .ok ()
  | [], _ => by simp
  | y :: l, h => by
    rw [List.forM_cons] at h
    obtain ⟨u, hy, hl⟩ := Except.bind_eq_ok.mp h
    intro x hx
    rcases List.mem_cons.mp hx with rfl | hx
    · exact hy
    · exact forM_ok_mem hl x hx

/-- A `forM` whose every element succeeds succeeds. -/
theorem forM_ok_of_mem {f : α → Except ε PUnit} :
    ∀ {l : List α}, (∀ x ∈ l, f x = .ok ()) → forM l f = .ok ()
  | [], _ => rfl
  | y :: l, h => by
    rw [List.forM_cons, h y List.mem_cons_self, Except.ok_bind]
    exact forM_ok_of_mem fun x hx => h x (List.mem_cons_of_mem _ hx)

/-- An invariant kept by every successful step of a `foldlM` holds of its result. -/
theorem foldlM_ok_inv (P : β → Prop) (f : β → α → Except ε β) :
    ∀ (l : List α) (b b' : β), P b →
      (∀ x ∈ l, ∀ c c', P c → f c x = .ok c' → P c') →
      l.foldlM f b = .ok b' → P b'
  | [], b, b', hb, _, h => by
    simp only [List.foldlM_nil, Except.pure_eq_ok] at h
    exact h ▸ hb
  | x :: l, b, b', hb, hf, h => by
    simp only [List.foldlM_cons] at h
    obtain ⟨c, hc, hrest⟩ := Except.bind_eq_ok.mp h
    exact foldlM_ok_inv P f l c b' (hf x (by simp) b c hb hc)
      (fun y hy => hf y (List.mem_cons_of_mem x hy)) hrest

/-- A relation kept by every successful step of a `foldlM` relates its input to
    its result, when it is reflexive and transitive. -/
theorem foldlM_ok_rel (R : β → β → Prop) (f : β → α → Except ε β)
    (hrefl : ∀ b, R b b) (htrans : ∀ a b c, R a b → R b c → R a c) :
    ∀ (l : List α) (b b' : β),
      (∀ x ∈ l, ∀ c c', f c x = .ok c' → R c c') →
      l.foldlM f b = .ok b' → R b b'
  | [], b, b', _, h => by
    simp only [List.foldlM_nil, Except.pure_eq_ok] at h
    exact h ▸ hrefl b
  | x :: l, b, b', hf, h => by
    simp only [List.foldlM_cons] at h
    obtain ⟨c, hc, hrest⟩ := Except.bind_eq_ok.mp h
    exact htrans _ _ _ (hf x (by simp) b c hc)
      (foldlM_ok_rel R f hrefl htrans l c b' (fun y hy => hf y (List.mem_cons_of_mem x hy)) hrest)

/-- A `foldlM` succeeds when each of its steps does, from what the steps before it
    produced; `P done b` says what the steps over `done` leave. -/
theorem foldlM_ok_of_step (P : List α → β → Prop) (f : β → α → Except ε β) (l : List α)
    (hstep : ∀ done x rest b, l = done ++ x :: rest → P done b →
      ∃ b', f b x = .ok b' ∧ P (done ++ [x]) b')
    (b : β) (hb : P [] b) : ∃ b', l.foldlM f b = .ok b' ∧ P l b' := by
  -- Induction on the steps still to run, with those already run as a prefix.
  suffices h : ∀ rest done b, l = done ++ rest → P done b →
      ∃ b', rest.foldlM f b = .ok b' ∧ P l b' from h l [] b rfl hb
  intro rest
  induction rest with
  | nil =>
    intro done b hl hP
    rw [List.append_nil] at hl
    exact ⟨b, rfl, hl ▸ hP⟩
  | cons x rest ih =>
    intro done b hl hP
    obtain ⟨b₁, hf, hP₁⟩ := hstep done x rest b hl hP
    obtain ⟨b', hrest, hP'⟩ := ih (done ++ [x]) b₁ (by simp [hl]) hP₁
    refine ⟨b', ?_, hP'⟩
    rw [List.foldlM_cons, hf]
    exact hrest

/-- What every successful step of a `foldlM` keeps, given the steps already run
    (`done`), holds of a successful result. -/
theorem foldlM_ok_prefix_inv (P : List α → β → Prop) (f : β → α → Except ε β) (l : List α)
    (hstep : ∀ done x rest b b', l = done ++ x :: rest → P done b → f b x = .ok b' →
      P (done ++ [x]) b')
    {b b' : β} (hb : P [] b) (h : l.foldlM f b = .ok b') : P l b' := by
  -- Induction on the steps still to run, with those already run as a prefix.
  suffices key : ∀ rest done b, l = done ++ rest → P done b → rest.foldlM f b = .ok b' → P l b' from
    key l [] b rfl hb h
  intro rest
  induction rest with
  | nil =>
    intro done b hl hP h
    rw [List.append_nil] at hl
    rw [List.foldlM_nil, Except.pure_eq_ok] at h
    exact hl ▸ h ▸ hP
  | cons x rest ih =>
    intro done b hl hP h
    rw [List.foldlM_cons] at h
    obtain ⟨c, hc, hrest⟩ := Except.bind_eq_ok.mp h
    exact ih (done ++ [x]) c (by simp [hl]) (hstep done x rest b c hl hP hc) hrest

/-- A `mapM` whose every call succeeds returns the list of the results. -/
theorem mapM_eq_ok_map {f : α → Except ε β} {g : α → β} :
    ∀ {l : List α}, (∀ x ∈ l, f x = .ok (g x)) → l.mapM f = .ok (l.map g)
  | [], _ => rfl
  | x :: l, h => by
    rw [List.mapM_cons, h x List.mem_cons_self,
      mapM_eq_ok_map fun y hy => h y (List.mem_cons_of_mem x hy)]
    rfl

/-- A `mapM` whose every call succeeds succeeds, each result the one of the
    call at its place. -/
theorem mapM_ok_forall₂ {f : α → Except ε β} :
    ∀ {l : List α}, (∀ x ∈ l, ∃ y, f x = .ok y) → ∃ l', l.mapM f = .ok l' ∧ List.Forall₂ (fun x y => f x = .ok y) l l'
  | [], _ => ⟨[], rfl, .nil⟩
  | x :: l, h => by
    obtain ⟨y, hy⟩ := h x List.mem_cons_self
    obtain ⟨ys, hys, hall⟩ := mapM_ok_forall₂ fun z hz => h z (List.mem_cons_of_mem x hz)
    refine ⟨y :: ys, ?_, .cons hy hall⟩
    rw [List.mapM_cons, hy, Except.ok_bind, hys]
    rfl

/-- A `foldlM` whose every step succeeds is the `foldl` of the results. -/
theorem foldlM_eq_ok_foldl {f : β → α → Except ε β} {g : β → α → β} :
    ∀ {l : List α} (b : β), (∀ c, ∀ x ∈ l, f c x = .ok (g c x)) → l.foldlM f b = .ok (l.foldl g b)
  | [], _, _ => rfl
  | x :: l, b, h => by
    rw [List.foldlM_cons, h b x List.mem_cons_self]
    exact foldlM_eq_ok_foldl (g b x) fun c y hy => h c y (List.mem_cons_of_mem x hy)

/-- Every result of a successful `mapM` is the result of one of its calls. -/
theorem mapM_ok_mem {f : α → Except ε β} :
    ∀ {l : List α} {l' : List β}, l.mapM f = .ok l' → ∀ y ∈ l', ∃ x ∈ l, f x = .ok y
  | [], l', h => by
    rw [List.mapM_nil, Except.pure_eq_ok] at h
    subst h
    intro y hy
    cases hy
  | x :: l, l', h => by
    rw [List.mapM_cons] at h
    obtain ⟨y, hy, h⟩ := Except.bind_eq_ok.mp h
    obtain ⟨ys, hys, h⟩ := Except.bind_eq_ok.mp h
    rw [Except.pure_eq_ok] at h
    subst h
    intro z hz
    rcases List.mem_cons.mp hz with rfl | hz
    · exact ⟨x, List.mem_cons_self, hy⟩
    · obtain ⟨w, hw, hfw⟩ := mapM_ok_mem hys z hz
      exact ⟨w, List.mem_cons_of_mem _ hw, hfw⟩

/-- Every call of a successful `mapM` succeeded, with a result among its results. -/
theorem mapM_ok_of_mem {f : α → Except ε β} :
    ∀ {l : List α} {l' : List β}, l.mapM f = .ok l' → ∀ x ∈ l, ∃ y ∈ l', f x = .ok y
  | [], l', _ => by simp
  | x :: l, l', h => by
    rw [List.mapM_cons] at h
    obtain ⟨y, hy, h⟩ := Except.bind_eq_ok.mp h
    obtain ⟨ys, hys, h⟩ := Except.bind_eq_ok.mp h
    rw [Except.pure_eq_ok] at h
    subst h
    intro z hz
    rcases List.mem_cons.mp hz with rfl | hz
    · exact ⟨y, List.mem_cons_self, hy⟩
    · obtain ⟨w, hw, hfw⟩ := mapM_ok_of_mem hys z hz
      exact ⟨w, List.mem_cons_of_mem _ hw, hfw⟩

/-- A successful `filterAuxM` puts in front of its accumulator, reversed, a
    sublist of what it filtered, each element kept because the predicate said so. -/
theorem filterAuxM_ok {ε' α' : Type} {p : α' → Except ε' Bool} :
    ∀ {l acc res : List α'}, List.filterAuxM p l acc = .ok res →
      ∃ s : List α', s.Sublist l ∧ (∀ x ∈ s, p x = .ok true) ∧ res = s.reverse ++ acc
  | [], acc, res, h => by
    rw [List.filterAuxM, Except.pure_eq_ok] at h
    exact ⟨[], List.Sublist.slnil, by simp, by simp [h]⟩
  | x :: l, acc, res, h => by
    rw [List.filterAuxM] at h
    obtain ⟨b, hb, h⟩ := Except.bind_eq_ok.mp h
    cases b with
    | true =>
      -- the element is kept in front of the accumulator
      obtain ⟨s, hs, hp, rfl⟩ := filterAuxM_ok h
      refine ⟨x :: s, hs.cons_cons x, ?_, by simp⟩
      intro y hy
      rcases List.mem_cons.mp hy with rfl | hy
      · exact hb
      · exact hp y hy
    | false =>
      obtain ⟨s, hs, hp, rfl⟩ := filterAuxM_ok h
      exact ⟨s, hs.cons x, hp, by simp⟩

/-- What a successful `filterM` returns is a sublist of what it filtered, each
    element kept because the predicate said so. -/
theorem filterM_ok {ε' α' : Type} {p : α' → Except ε' Bool} {l res : List α'} (h : l.filterM p = .ok res) :
    res.Sublist l ∧ ∀ x ∈ res, p x = .ok true := by
  unfold List.filterM at h
  obtain ⟨res', h', hres⟩ := Except.bind_eq_ok.mp h
  obtain ⟨s, hs, hp, rfl⟩ := filterAuxM_ok h'
  rw [Except.pure_eq_ok] at hres
  subst hres
  rw [List.append_nil, List.reverse_reverse]
  exact ⟨hs, hp⟩

/-- A `filterM` over distinct elements that keeps more than one keeps two
    distinct ones. -/
theorem filterM_ok_two {ε' α' : Type} {p : α' → Except ε' Bool} {l res : List α'} (hnd : l.Nodup)
    (h : l.filterM p = .ok res) (hlen : 1 < res.length) :
    ∃ a b, a ≠ b ∧ (a ∈ l ∧ p a = .ok true) ∧ (b ∈ l ∧ p b = .ok true) := by
  obtain ⟨hsub, hp⟩ := filterM_ok h
  match res, hsub, hp, hlen with
  | a :: b :: rest, hsub, hp, _ =>
    have hab : a ≠ b := fun hab => (List.nodup_cons.mp (hnd.sublist hsub)).1 (hab ▸ List.mem_cons_self)
    exact ⟨a, b, hab, ⟨hsub.subset List.mem_cons_self, hp a List.mem_cons_self⟩,
      ⟨hsub.subset (List.mem_cons_of_mem _ List.mem_cons_self), hp b (List.mem_cons_of_mem _ List.mem_cons_self)⟩⟩

/-! ## The errors a computation can end in -/

/-- Every error `x` can end in satisfies `Q`. -/
def ErrorsIn (Q : ε → Prop) (x : Except ε α) : Prop := ∀ e, x = .error e → Q e

namespace ErrorsIn

variable {Q : ε → Prop}

theorem ok (a : α) : ErrorsIn Q (.ok a : Except ε α) := fun _ h => nomatch h

theorem pure (a : α) : ErrorsIn Q (pure a : Except ε α) := ok a

theorem throw {e : ε} (h : Q e) : ErrorsIn Q (throw e : Except ε α) := by
  intro e' he
  have he' : (Except.error e : Except ε α) = .error e' := he
  cases he'
  exact h

/-- The errors of a bind are those of its first computation and those of the
    continuation after each of its successes. -/
theorem bind {x : Except ε α} {f : α → Except ε β} (hx : ErrorsIn Q x)
    (hf : ∀ a, x = .ok a → ErrorsIn Q (f a)) : ErrorsIn Q (x >>= f) := by
  intro e h
  cases x with
  | error e' =>
    have he : (Except.error e' : Except ε β) = .error e := h
    cases he
    exact hx e rfl
  | ok a => exact hf a rfl e h

/-- The errors of `mapError g` are images under `g`. -/
theorem mapError {ε' : Type _} {x : Except ε' α} {g : ε' → ε} (h : ∀ e, Q (g e)) :
    ErrorsIn Q (x.mapError g) := by
  intro e he
  cases x with
  | error e' =>
    have he' : (Except.error (g e') : Except ε α) = .error e := he
    cases he'
    exact h e'
  | ok a => exact nomatch he

theorem filterAuxM {ε' α' : Type} {Q : ε' → Prop} {p : α' → Except ε' Bool} (hp : ∀ a, ErrorsIn Q (p a)) :
    ∀ l acc, ErrorsIn Q (List.filterAuxM p l acc)
  | [], acc => ErrorsIn.pure acc
  | a :: l, _ => by
    rw [List.filterAuxM]
    exact bind (hp a) fun _ _ => filterAuxM hp l _

/-- A `filterM` ends only in the errors of its predicate. -/
theorem filterM {ε' α' : Type} {Q : ε' → Prop} {p : α' → Except ε' Bool} (hp : ∀ a, ErrorsIn Q (p a))
    (l : List α') : ErrorsIn Q (l.filterM p) :=
  bind (filterAuxM hp l []) fun _ _ => ErrorsIn.pure _

end ErrorsIn

end Mango.Lib
