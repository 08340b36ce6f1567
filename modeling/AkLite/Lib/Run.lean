/-
Runs of labelled transition systems.

A system is a step relation `step : σ → α → σ → Prop` between states, with the
label naming the call and everything the environment decides during it.  A
condition `cond s a` restricts the runs considered to those whose every step
meets it in the state it is taken from.  `Reaches` is the reflexive transitive
closure, so each prefix of a run is a run, and a fact about every reached state
is a fact about every state along the run.
-/
import Mathlib.Logic.Relation

namespace AkLite
namespace Lib

variable {σ α : Type*}

/-- One step whose label meets `cond` in the state it leaves. -/
def Moves (step : σ → α → σ → Prop) (cond : σ → α → Prop) (s t : σ) : Prop :=
  ∃ a, cond s a ∧ step s a t

/-- States reachable from `s` by steps that all meet `cond`. -/
def Reaches (step : σ → α → σ → Prop) (cond : σ → α → Prop) : σ → σ → Prop :=
  Relation.ReflTransGen (Moves step cond)

/-- The invariant rule: what holds at the start and survives each admitted step
holds in every state reached. -/
theorem Reaches.invariant {step : σ → α → σ → Prop} {cond : σ → α → Prop}
    (Inv : σ → Prop)
    (hstep : ∀ s a t, Inv s → cond s a → step s a t → Inv t)
    {s t : σ} (hs : Inv s) (h : Reaches step cond s t) : Inv t := by
  induction h with
  | refl => exact hs
  | tail _ hmove ih =>
    obtain ⟨a, hcond, ha⟩ := hmove
    exact hstep _ a _ ih hcond ha

/-- Runs are extended by one admitted step at the end. -/
theorem Reaches.snoc {step : σ → α → σ → Prop} {cond : σ → α → Prop} {s t u : σ}
    (h : Reaches step cond s t) (a : α) (hcond : cond t a) (ha : step t a u) :
    Reaches step cond s u :=
  Relation.ReflTransGen.tail h ⟨a, hcond, ha⟩

/-- A run, with the state that each of its labels is taken in. -/
inductive Visits (step : σ → α → σ → Prop) : σ → List (σ × α) → σ → Prop
  | nil (s : σ) : Visits step s [] s
  | cons {s t u : σ} {a : α} {visits : List (σ × α)} (h : step s a t)
      (rest : Visits step t visits u) : Visits step s ((s, a) :: visits) u

/-- Take the labels of a list in order with an executable step.  A label that is
not enabled, or that does not meet `cond`, ends the attempt. -/
def runList (step : σ → α → Option σ) (cond : σ → α → Prop) [∀ s a, Decidable (cond s a)] :
    σ → List α → Option σ
  | s, [] => some s
  | s, a :: rest => if cond s a then (step s a).bind fun t => runList step cond t rest else none

theorem reaches_of_runList {step : σ → α → Option σ} {cond : σ → α → Prop}
    [∀ s a, Decidable (cond s a)] {l : List α} {s t : σ} (h : runList step cond s l = some t) :
    Reaches (fun s a t => step s a = some t) cond s t := by
  induction l generalizing s with
  | nil =>
    cases h
    exact Relation.ReflTransGen.refl
  | cons a rest ih =>
    by_cases hcond : cond s a
    · rw [runList, if_pos hcond] at h
      obtain ⟨u, hu, hrest⟩ := Option.bind_eq_some_iff.mp h
      exact Relation.ReflTransGen.head ⟨a, hcond, hu⟩ (ih hrest)
    · rw [runList, if_neg hcond] at h
      exact absurd h (by simp)

end Lib
end AkLite
