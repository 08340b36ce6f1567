/-
Programs that keep a log of what they ask for.

The log stands beside the state and no program can read it.  A program that is written
with a log is one without it once the log is dropped (`Erases`), and the rules below
compare the two construct by construct.
-/
import AkLite.Lib.Effect

namespace AkLite
namespace Lib

variable {ε σ τ α β : Type}

/-- The latest entry of the log stands first. -/
structure Logged (σ τ : Type) where
  state : σ
  log : List τ

/-- A program without a log. -/
def quietly (x : EStateM ε σ α) : EStateM ε (Logged σ τ) α := fun s =>
  match x s.state with
  | .ok a t => .ok a { s with state := t }
  | .error e t => .error e { s with state := t }

def record (entry : τ) : EStateM ε (Logged σ τ) PUnit :=
  modify fun s => { s with log := entry :: s.log }

theorem wp_quietly {x : EStateM ε σ α} {Q : α → Logged σ τ → Prop} {E : ε → Logged σ τ → Prop}
    {s : Logged σ τ} :
    wp (quietly x) Q E s =
      wp x (fun a t => Q a { s with state := t }) (fun e t => E e { s with state := t })
        s.state := by
  unfold wp quietly
  cases x s.state with
  | ok a t => rfl
  | error e t => rfl

theorem wp_quietly_log {x : EStateM ε σ α} {I : List τ → Prop} {s : Logged σ τ} (hs : I s.log) :
    wp (quietly x) (fun _ t => I t.log) (fun _ t => I t.log) s := by
  rw [wp_quietly]
  exact wp_of_run (fun _ _ _ => hs) fun _ _ _ => hs

theorem wp_record {entry : τ} {Q : PUnit → Logged σ τ → Prop} {E : ε → Logged σ τ → Prop}
    {s : Logged σ τ} :
    wp (record entry) Q E s = Q ⟨⟩ { s with log := entry :: s.log } := rfl

/-- The end of a run without the log. -/
def unlogged : EStateM.Result ε (Logged σ τ) α → EStateM.Result ε σ α
  | .ok a t => .ok a t.state
  | .error e t => .error e t.state

/-- `x` is `y` with a log. -/
def Erases (x : EStateM ε (Logged σ τ) α) (y : EStateM ε σ α) : Prop :=
  ∀ s, unlogged (x s) = y s.state

variable {x : EStateM ε (Logged σ τ) α} {y : EStateM ε σ α}

/-- What holds without the log holds with it. -/
theorem Erases.wp (h : Erases x y) {Q : α → σ → Prop} {E : ε → σ → Prop} {s : Logged σ τ}
    (hy : wp y Q E s.state) : wp x (fun a t => Q a t.state) (fun e t => E e t.state) s := by
  have hs := h s
  unfold Lib.wp at hy ⊢
  cases hr : x s with
  | ok a t =>
    rw [hr] at hs
    rw [← hs] at hy
    exact hy
  | error e t =>
    rw [hr] at hs
    rw [← hs] at hy
    exact hy

theorem Erases.quietly (x : EStateM ε σ α) : Erases (τ := τ) (Lib.quietly x) x := by
  intro s
  unfold Lib.quietly unlogged
  cases x s.state with
  | ok a t => rfl
  | error e t => rfl

theorem Erases.pure (a : α) :
    Erases (τ := τ) (Pure.pure a : EStateM ε (Logged σ τ) α) (Pure.pure a) :=
  fun _ => rfl

theorem Erases.bind {f : α → EStateM ε (Logged σ τ) β} {g : α → EStateM ε σ β} (hx : Erases x y)
    (hf : ∀ a, Erases (f a) (g a)) : Erases (x >>= f) (y >>= g) := by
  intro s
  have hs := hx s
  change unlogged (EStateM.bind x f s) = EStateM.bind y g s.state
  unfold EStateM.bind
  cases hr : x s with
  | ok a t =>
    rw [hr] at hs
    rw [← hs]
    exact hf a t
  | error e t =>
    rw [hr] at hs
    rw [← hs]
    rfl

/-- An entry in the log is nothing to the program without it. -/
theorem Erases.record_bind (hx : Erases x y) (entry : τ) :
    Erases (record entry >>= fun _ => x) y := by
  intro s
  exact hx { s with log := entry :: s.log }

theorem Erases.map (hx : Erases x y) (f : α → β) : Erases (f <$> x) (f <$> y) := by
  intro s
  have hs := hx s
  change unlogged (EStateM.map f x s) = EStateM.map f y s.state
  unfold EStateM.map
  cases hr : x s with
  | ok a t =>
    rw [hr] at hs
    rw [← hs]
    rfl
  | error e t =>
    rw [hr] at hs
    rw [← hs]
    rfl

theorem Erases.ite {c : Prop} [Decidable c] {x x' : EStateM ε (Logged σ τ) α}
    {y y' : EStateM ε σ α} (hx : Erases x y) (hx' : Erases x' y') :
    Erases (if c then x else x') (if c then y else y') := by
  by_cases hc : c
  · rwa [if_pos hc, if_pos hc]
  · rwa [if_neg hc, if_neg hc]

theorem Erases.tryCatch {f : ε → EStateM ε (Logged σ τ) α} {g : ε → EStateM ε σ α} (hx : Erases x y)
    (hf : ∀ e, Erases (f e) (g e)) :
    Erases (MonadExcept.tryCatch x f) (MonadExcept.tryCatch y g) := by
  intro s
  have hs := hx s
  change unlogged (EStateM.tryCatch x f s) = EStateM.tryCatch y g s.state
  unfold EStateM.tryCatch
  cases hr : x s with
  | ok a t =>
    rw [hr] at hs
    rw [← hs]
    rfl
  | error e t =>
    rw [hr] at hs
    rw [← hs]
    exact hf e t

end Lib
end AkLite
