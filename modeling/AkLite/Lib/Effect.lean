/-
Weakest preconditions for programs with a state and exceptions.

A program is an `EStateM`: it changes a state and either returns a value or
throws, and what it did to the state before it threw stays done.  `wp x Q E s`
says that `x`, started in `s`, ends with `Q` when it returns and with `E` when it
throws.  The rules are equations, one for each construct of a `do` block, so that
`simp` runs a program symbolically, and a program is described to its callers by
its own equation or by an implication from its postcondition (`wp_mono`).

`Keeps I E x` says that `x` keeps the invariant `I` when it returns and ends in `E`
when it throws; it is closed under the constructs of a `do` block.  So is `Within F x`,
that `x` changes the state only as the frame `F` allows.
-/
import Mathlib.Logic.Basic

namespace AkLite
namespace Lib

variable {ε σ α β : Type}

/-- A computation that only fails. -/
def orThrow : Except ε α → EStateM ε σ α
  | .ok a => pure a
  | .error e => throw e

/-- Both exits of a program are covered. -/
def wp (x : EStateM ε σ α) (Q : α → σ → Prop) (E : ε → σ → Prop) (s : σ) : Prop :=
  match x s with
  | .ok a t => Q a t
  | .error e t => E e t

section Rules

variable {Q : α → σ → Prop} {E : ε → σ → Prop} {s : σ}

@[simp]
theorem wp_pure {a : α} : wp (pure a : EStateM ε σ α) Q E s = Q a s := rfl

@[simp]
theorem wp_throw {e : ε} : wp (throw e : EStateM ε σ α) Q E s = E e s := rfl

theorem wp_orThrow {x : Except ε α} : wp (orThrow x) Q E s =
      match x with
      | .ok a => Q a s
      | .error e => E e s := by
  cases x <;> rfl

@[simp]
theorem wp_bind {x : EStateM ε σ β} {f : β → EStateM ε σ α} :
    wp (x >>= f) Q E s = wp x (fun b t => wp (f b) Q E t) E s := by
  change (match EStateM.bind x f s with
    | .ok a t => Q a t
    | .error e t => E e t) = _
  unfold wp EStateM.bind
  cases x s with
  | ok b t => rfl
  | error e t => rfl

@[simp]
theorem wp_map {x : EStateM ε σ β} {f : β → α} :
    wp (f <$> x) Q E s = wp x (fun b t => Q (f b) t) E s := by
  change (match EStateM.map f x s with
    | .ok a t => Q a t
    | .error e t => E e t) = _
  unfold wp EStateM.map
  cases x s with
  | ok b t => rfl
  | error e t => rfl

@[simp]
theorem wp_get {Q : σ → σ → Prop} : wp (get : EStateM ε σ σ) Q E s = Q s s := rfl

@[simp]
theorem wp_modify {f : σ → σ} {Q : PUnit → σ → Prop} :
    wp (modify f : EStateM ε σ PUnit) Q E s = Q ⟨⟩ (f s) := rfl

/-- A handler continues from the state the exception left. -/
@[simp]
theorem wp_tryCatch {x : EStateM ε σ α} {handler : ε → EStateM ε σ α} :
    wp (tryCatch x handler) Q E s = wp x Q (fun e t => wp (handler e) Q E t) s := by
  change (match EStateM.tryCatch x handler s with
    | .ok a t => Q a t
    | .error e t => E e t) = _
  unfold wp EStateM.tryCatch
  cases x s with
  | ok a t => rfl
  | error e t => rfl

@[simp]
theorem wp_ite {c : Prop} [Decidable c] {x y : EStateM ε σ α} :
    wp (if c then x else y) Q E s = if c then wp x Q E s else wp y Q E s := by
  by_cases hc : c
  · rw [if_pos hc, if_pos hc]
  · rw [if_neg hc, if_neg hc]

end Rules

variable {x : EStateM ε σ α} {Q Q' : α → σ → Prop} {E E' : ε → σ → Prop} {I : σ → Prop} {s t : σ}
  {a : α} {e : ε}

/-- Weaken the postconditions. -/
theorem wp_mono (h : wp x Q E s) (hQ : ∀ a t, Q a t → Q' a t) (hE : ∀ e t, E e t → E' e t) :
    wp x Q' E' s := by
  unfold wp at h ⊢
  cases hr : x s with
  | ok a t =>
    rw [hr] at h
    exact hQ a t h
  | error e t =>
    rw [hr] at h
    exact hE e t h

/-- Two descriptions of one program hold together. -/
theorem wp_and (h : wp x Q E s) (h' : wp x Q' E' s) :
    wp x (fun a t => Q a t ∧ Q' a t) (fun e t => E e t ∧ E' e t) s := by
  unfold wp at h h' ⊢
  cases hr : x s with
  | ok a t =>
    rw [hr] at h h'
    exact ⟨h, h'⟩
  | error e t =>
    rw [hr] at h h'
    exact ⟨h, h'⟩

/-- Postconditions from the run itself. -/
theorem wp_of_run (hQ : ∀ a t, x s = .ok a t → Q a t) (hE : ∀ e t, x s = .error e t → E e t) :
    wp x Q E s := by
  unfold wp
  cases hr : x s with
  | ok a t => exact hQ a t hr
  | error e t => exact hE e t hr

/-- The postcondition of a run that returned. -/
theorem wp_ok (h : wp x Q E s) (hx : x s = .ok a t) : Q a t := by
  unfold wp at h
  rwa [hx] at h

theorem wp_of_ok (hx : x s = .ok a t) (h : Q a t) : wp x Q E s := by
  unfold wp
  rwa [hx]

theorem wp_of_error (hx : x s = .error e t) (h : E e t) : wp x Q E s := by
  unfold wp
  rwa [hx]

variable {f : α → EStateM ε σ PUnit} {xs : List α}

/-- What every step of a loop keeps, the loop keeps. -/
theorem wp_forM (h : ∀ a ∈ xs, ∀ s, I s → wp (f a) (fun _ => I) E s) (hs : I s) :
    wp (xs.forM f) (fun _ => I) E s := by
  induction xs generalizing s with
  | nil => exact hs
  | cons a rest ih =>
    change wp (f a >>= fun _ => rest.forM f) _ _ s
    rw [wp_bind]
    refine wp_mono (h a List.mem_cons_self s hs) (fun _ t ht => ?_) fun _ _ he => he
    exact ih (fun b hb => h b (List.mem_cons_of_mem _ hb)) ht

/-- What a step achieves for its element, and no later step undoes, the loop achieves for
every element. -/
theorem wp_forM_each
    (h : ∀ a ∈ xs, ∀ s, I s → wp (f a) (fun _ t => I t ∧ Q a t ∧ ∀ b, Q b s → Q b t) E s)
    (hs : I s) : wp (xs.forM f) (fun _ t => I t ∧ (∀ a ∈ xs, Q a t) ∧ ∀ b, Q b s → Q b t) E s := by
  induction xs generalizing s with
  | nil => exact ⟨hs, List.forall_mem_nil _, fun _ hb => hb⟩
  | cons a rest ih =>
    change wp (f a >>= fun _ => rest.forM f) _ _ s
    rw [wp_bind]
    refine wp_mono (h a List.mem_cons_self s hs) (fun _ t ht => ?_) fun _ _ he => he
    refine wp_mono (ih (fun b hb => h b (List.mem_cons_of_mem _ hb)) ht.1) (fun _ u hu => ?_)
      fun _ _ he => he
    refine ⟨hu.1, List.forall_mem_cons.mpr ⟨hu.2.2 a ht.2.1, hu.2.1⟩, fun b hb => ?_⟩
    exact hu.2.2 b (ht.2.2 b hb)

/-! Runs: a sequence goes on from where its first part returned. -/

theorem bind_of_ok {f : α → EStateM ε σ β} (h : x s = .ok a t) : (x >>= f) s = f a t := by
  show EStateM.bind x f s = f a t
  unfold EStateM.bind
  rw [h]

theorem get_bind {f : σ → EStateM ε σ β} : (get >>= f) s = f s s := rfl

theorem modify_bind {g : σ → σ} {f : PUnit → EStateM ε σ β} : (modify g >>= f) s = f ⟨⟩ (g s) := rfl

theorem orThrow_bind {x : Except ε α} {f : α → EStateM ε σ β} (h : x = .ok a) :
    (orThrow x >>= f) s = f a s := by
  rw [h]
  rfl

/-- What follows a computation that only fails matters for its value alone. -/
theorem orThrow_bind_congr {x : Except ε α} {f g : α → EStateM ε σ β}
    (h : ∀ a, x = .ok a → f a = g a) : (orThrow x >>= f) = (orThrow x >>= g) := by
  cases x with
  | ok a =>
    funext s
    rw [orThrow_bind rfl, orThrow_bind rfl, h a rfl]
  | error e => rfl

/-- A program meets its postconditions exactly in the states of `c` if each exit
does. -/
theorem wp_iff {P : α → σ → Prop} {F : ε → σ → Prop} {c : Prop}
    (h : wp x (fun a t => P a t ↔ c) (fun e t => F e t ↔ c) s) : wp x P F s ↔ c := by
  unfold wp at h ⊢
  cases hr : x s with
  | ok a t =>
    rw [hr] at h
    exact h
  | error e t =>
    rw [hr] at h
    exact h

/-- Partial correctness. -/
theorem wp_true_iff {P : α → σ → Prop} :
    wp x P (fun _ _ => True) s ↔ ∀ a t, x s = .ok a t → P a t := by
  unfold wp
  cases x s with
  | ok a t => simp
  | error e t => simp

/-- A program returns a value of `p` exactly in the states of `c`. -/
theorem exists_ok_iff {p : α → Prop} {c : Prop}
    (h : wp x (fun a _ => p a ↔ c) (fun _ _ => ¬ c) s) : (∃ a t, x s = .ok a t ∧ p a) ↔ c := by
  unfold wp at h
  cases hr : x s with
  | ok a t =>
    rw [hr] at h
    simp [h]
  | error e t =>
    rw [hr] at h
    simp [h]

/-- Total correctness. -/
theorem wp_false_iff {P : α → σ → Prop} :
    wp x P (fun _ _ => False) s ↔ ∃ a t, x s = .ok a t ∧ P a t := by
  unfold wp
  cases hr : x s with
  | ok a t =>
    refine ⟨fun h => ⟨a, t, rfl, h⟩, ?_⟩
    rintro ⟨_, _, h, hP⟩
    cases h
    exact hP
  | error e t => simp

/-- A run that returns with this, as a test. -/
def returns (x : EStateM ε σ α) (s : σ) (p : α → σ → Bool) : Bool :=
  match x s with
  | .ok a t => p a t
  | .error _ _ => false

theorem exists_ok_of_returns {p : α → σ → Bool}
    (h : returns x s p = true) : ∃ a t, x s = .ok a t ∧ p a t = true := by
  unfold returns at h
  cases hr : x s with
  | ok a t =>
    rw [hr] at h
    exact ⟨a, t, rfl, h⟩
  | error e t =>
    rw [hr] at h
    cases h

/-! ## The state at the end -/

/-- What a program leaves, whether it returns or throws. -/
def after (x : EStateM ε σ α) (s : σ) : σ :=
  match x s with
  | .ok _ t => t
  | .error _ t => t

theorem after_of_wp {P : σ → Prop} (h : wp x (fun _ => P) (fun _ => P) s) : P (after x s) := by
  unfold after
  unfold wp at h
  cases hr : x s with
  | ok a t =>
    rw [hr] at h
    exact h
  | error e t =>
    rw [hr] at h
    exact h

/-! ## A part of the state -/

/-- Run a program on a part of the state. -/
def focus {τ : Type} (part : τ → σ) (put : σ → τ → τ) (x : EStateM ε σ α) : EStateM ε τ α :=
  fun t =>
    match x (part t) with
    | .ok a s => .ok a (put s t)
    | .error e s => .error e (put s t)

@[simp]
theorem wp_focus {τ : Type} {part : τ → σ} {put : σ → τ → τ}
    {Q : α → τ → Prop} {E : ε → τ → Prop} {t : τ} :
    wp (focus part put x) Q E t =
      wp x (fun a s => Q a (put s t)) (fun e s => E e (put s t)) (part t) := by
  unfold wp focus
  cases x (part t) with
  | ok a s => rfl
  | error e s => rfl

/-! ## Invariants -/

/-- The invariant holds whenever the program returns, and `E` when it throws. -/
def Keeps (I : σ → Prop) (E : ε → σ → Prop) (x : EStateM ε σ α) : Prop :=
  ∀ s, I s → wp x (fun _ => I) E s

section Invariants

theorem Keeps.pure (a : α) : Keeps I E (Pure.pure a : EStateM ε σ α) :=
  fun _ hs => hs

theorem Keeps.bind {f : α → EStateM ε σ β} (hx : Keeps I E x)
    (hf : ∀ a, Keeps I E (f a)) : Keeps I E (x >>= f) := by
  intro s hs
  rw [wp_bind]
  exact wp_mono (hx s hs) (fun a t ht => hf a t ht) fun _ _ ht => ht

theorem Keeps.get : Keeps I E (MonadState.get : EStateM ε σ σ) :=
  fun _ hs => hs

theorem Keeps.modify {f : σ → σ} (hf : ∀ s, I s → I (f s)) :
    Keeps I E (modifyGet fun s => (⟨⟩, f s) : EStateM ε σ PUnit) :=
  hf

theorem Keeps.orThrow (x : Except ε α) (hE : ∀ e s, I s → E e s) :
    Keeps I E (Lib.orThrow x : EStateM ε σ α) := by
  intro s hs
  cases x with
  | ok a => exact hs
  | error e => exact hE e s hs

theorem Keeps.ite {c : Prop} [Decidable c] {x y : EStateM ε σ α} (hx : Keeps I E x)
    (hy : Keeps I E y) : Keeps I E (if c then x else y) := by
  split
  · exact hx
  · exact hy

/-- A handler starts from what holds when the exception is thrown. -/
theorem Keeps.tryCatch {D : ε → σ → Prop} {handler : ε → EStateM ε σ α}
    (hx : Keeps I D x) (hh : ∀ e s, D e s → wp (handler e) (fun _ => I) E s) :
    Keeps I E (MonadExcept.tryCatch x handler) := by
  intro s hs
  rw [wp_tryCatch]
  exact wp_mono (hx s hs) (fun _ _ ht => ht) hh

theorem Keeps.forM (h : ∀ a ∈ xs, Keeps I E (f a)) : Keeps I E (xs.forM f) :=
  fun _ hs => wp_forM (fun a ha s hs => h a ha s hs) hs

end Invariants

/-! ## Frames -/

/-- What a program may do to the state, as a relation that steps can be chained in. -/
structure Frame (σ : Type) where
  rel : σ → σ → Prop
  refl : ∀ s, rel s s
  trans : ∀ {s t u}, rel s t → rel t u → rel s u

/-- What `f` observes stays the same. -/
def Frame.same {γ : Type} (f : σ → γ) : Frame σ where
  rel s t := f t = f s
  refl _ := rfl
  trans h h' := h'.trans h

/-- What `f` counts does not get less. -/
def Frame.rises (f : σ → Nat) : Frame σ where
  rel s t := f s ≤ f t
  refl _ := Nat.le_refl _
  trans h h' := Nat.le_trans h h'

/-- The list `f` observes only grows, at its front, and by elements of `P`. -/
def Frame.adds {γ : Type} (f : σ → List γ) (P : γ → Prop) : Frame σ where
  rel s t := ∃ es, f t = es ++ f s ∧ ∀ e ∈ es, P e
  refl _ := ⟨[], rfl, nofun⟩
  trans := by
    rintro s t u ⟨es, ht, hes⟩ ⟨fs, hu, hfs⟩
    refine ⟨fs ++ es, by rw [hu, ht, List.append_assoc], fun e he => ?_⟩
    rcases List.mem_append.mp he with he | he
    · exact hfs e he
    · exact hes e he

/-- The program stays in the frame, whether it returns or throws. -/
def Within (F : Frame σ) (x : EStateM ε σ α) : Prop :=
  ∀ s, wp x (fun _ t => F.rel s t) (fun _ t => F.rel s t) s

section Frames

variable {F : Frame σ}

theorem Within.pure (a : α) : Within F (Pure.pure a : EStateM ε σ α) := fun s => F.refl s

theorem Within.throw (e : ε) : Within F (throw e : EStateM ε σ α) := fun s => F.refl s

theorem Within.orThrow (x : Except ε α) : Within F (Lib.orThrow x : EStateM ε σ α) := by
  intro s
  rw [wp_orThrow]
  cases x with
  | ok a => exact F.refl s
  | error e => exact F.refl s

theorem Within.bind {g : α → EStateM ε σ β} (hx : Within F x)
    (hg : ∀ a, Within F (g a)) : Within F (x >>= g) := by
  intro s
  rw [wp_bind]
  refine wp_mono (hx s) (fun a t ht => ?_) (fun _ _ ht => ht)
  exact wp_mono (hg a t) (fun _ _ hu => F.trans ht hu) (fun _ _ hu => F.trans ht hu)

/-- The rest is run with the value of the first part only. -/
theorem Within.orThrow_bind {x : Except ε α} {g : α → EStateM ε σ β}
    (hg : ∀ a, x = .ok a → Within F (g a)) : Within F (Lib.orThrow x >>= g) := by
  intro s
  rw [wp_bind, wp_orThrow]
  cases x with
  | ok a => exact hg a rfl s
  | error e => exact F.refl s

theorem Within.get : Within F (MonadState.get : EStateM ε σ σ) := fun s => F.refl s

theorem Within.modify {g : σ → σ} (h : ∀ s, F.rel s (g s)) :
    Within F (modify g : EStateM ε σ PUnit) := h

theorem Within.ite {c : Prop} [Decidable c] {x y : EStateM ε σ α} (hx : Within F x)
    (hy : Within F y) : Within F (if c then x else y) := by
  intro s
  rw [wp_ite]
  split
  · exact hx s
  · exact hy s

theorem Within.tryCatch {handler : ε → EStateM ε σ α} (hx : Within F x)
    (hh : ∀ e, Within F (handler e)) : Within F (MonadExcept.tryCatch x handler) := by
  intro s
  rw [wp_tryCatch]
  refine wp_mono (hx s) (fun _ _ ht => ht) (fun e t ht => ?_)
  exact wp_mono (hh e t) (fun _ _ hu => F.trans ht hu) (fun _ _ hu => F.trans ht hu)

theorem Within.forM (h : ∀ a ∈ xs, Within F (f a)) : Within F (xs.forM f) := by
  induction xs with
  | nil => exact Within.pure _
  | cons a rest ih =>
    change Within F (f a >>= fun _ => rest.forM f)
    refine (h a List.mem_cons_self).bind fun _ => ?_
    exact ih fun b hb => h b (List.mem_cons_of_mem _ hb)

theorem Within.ok (hx : Within F x) (h : x s = .ok a t) : F.rel s t :=
  wp_ok (Q := fun _ t => F.rel s t) (hx s) h

theorem Within.error (hx : Within F x) (h : x s = .error e t) : F.rel s t := by
  have hs := hx s
  unfold wp at hs
  rwa [h] at hs

/-- The rest is run from the states that the first part returns in. -/
theorem Within.bind_run {g : α → EStateM ε σ β} (hx : Within F x)
    (hg : ∀ s a t, x s = .ok a t → wp (g a) (fun _ u => F.rel t u) (fun _ u => F.rel t u) t) :
    Within F (x >>= g) := by
  intro s
  rw [wp_bind]
  refine wp_of_run (fun a t hrun => ?_) fun e t hrun => hx.error hrun
  have ht := hx.ok hrun
  exact wp_mono (hg s a t hrun) (fun _ _ hu => F.trans ht hu) fun _ _ hu => F.trans ht hu

end Frames

/-! ## What a program throws -/

/-- The program throws nothing but exceptions of `P`. -/
def Throws (P : ε → Prop) (x : EStateM ε σ α) : Prop :=
  ∀ s, wp x (fun _ _ => True) (fun e _ => P e) s

section Exceptions

variable {P : ε → Prop}

theorem Throws.pure (a : α) : Throws P (Pure.pure a : EStateM ε σ α) := fun _ => trivial

theorem Throws.orThrow {x : Except ε α} (h : ∀ e, x = .error e → P e) :
    Throws P (Lib.orThrow x : EStateM ε σ α) := by
  intro s
  rw [wp_orThrow]
  cases x with
  | ok a => exact trivial
  | error e => exact h e rfl

theorem Throws.bind {g : α → EStateM ε σ β} (hx : Throws P x)
    (hg : ∀ a, Throws P (g a)) : Throws P (x >>= g) := by
  intro s
  rw [wp_bind]
  exact wp_mono (hx s) (fun a t _ => hg a t) fun _ _ he => he

theorem Throws.get : Throws P (MonadState.get : EStateM ε σ σ) := fun _ => trivial

theorem Throws.modify (g : σ → σ) : Throws P (modify g : EStateM ε σ PUnit) := fun _ => trivial

theorem Throws.ite {c : Prop} [Decidable c] {x y : EStateM ε σ α} (hx : Throws P x)
    (hy : Throws P y) : Throws P (if c then x else y) := by
  split
  · exact hx
  · exact hy

/-- What is caught is not thrown. -/
theorem Throws.tryCatch {handler : ε → EStateM ε σ α}
    (hh : ∀ e, Throws P (handler e)) : Throws P (MonadExcept.tryCatch x handler) := by
  intro s
  rw [wp_tryCatch]
  exact wp_of_run (fun _ _ _ => trivial) fun e t _ => hh e t

theorem Throws.forM (h : ∀ a ∈ xs, Throws P (f a)) : Throws P (xs.forM f) := by
  intro s
  exact wp_forM (I := fun _ => True) (fun a ha t _ => h a ha t) trivial

end Exceptions

end Lib
end AkLite
