/-
Inversion rules for computations that may fail.

A `do` block over `Except` that ends in a value passed every step of it.  The
rules below take such a block apart one step at a time, so that a proof about a
checking function never unfolds the monad.
-/
import Mathlib.Algebra.Group.Defs
import Mathlib.Data.List.Basic

namespace AkLite
namespace Lib

universe u v

variable {ε ε' : Type u} {α β : Type v} {x : Except ε α} {a : α}

/-- A sequence succeeds when both parts do. -/
theorem bind_eq_ok {f : α → Except ε β} {b : β} :
    x >>= f = .ok b ↔ ∃ a, x = .ok a ∧ f a = .ok b := by
  constructor
  · intro h
    cases x with
    | error e => cases h
    | ok a => exact ⟨a, rfl, h⟩
  · rintro ⟨a, rfl, h⟩
    exact h

theorem ok_bind (a : α) (f : α → Except ε β) : (.ok a >>= f) = f a := rfl

theorem mapError_eq_ok {f : ε → ε'} : x.mapError f = .ok a ↔ x = .ok a := by
  cases x with
  | error e => simp [Except.mapError]
  | ok a => simp [Except.mapError]

/-- A guard that throws was not taken. -/
theorem ite_error_eq_ok {p : Prop} [Decidable p] {e : ε} :
    (if p then .error e else x) = .ok a ↔ ¬ p ∧ x = .ok a := by
  by_cases h : p <;> simp [h]

/-- The computation does not fail. -/
def Returns (x : Except ε α) : Prop := ∃ a, x = .ok a

@[simp]
theorem returns_ok (a : α) : Returns (.ok a : Except ε α) := ⟨a, rfl⟩

@[simp]
theorem returns_pure (a : α) : Returns (pure a : Except ε α) := ⟨a, rfl⟩

@[simp]
theorem not_returns_error (e : ε) : ¬ Returns (.error e : Except ε α) := by
  rintro ⟨a, h⟩
  cases h

theorem returns_mapError_iff {f : ε → ε'} : Returns (x.mapError f) ↔ Returns x :=
  exists_congr fun _ => mapError_eq_ok

theorem returns_bind_iff {f : α → Except ε β} :
    Returns (x >>= f) ↔ ∃ a, x = .ok a ∧ Returns (f a) := by
  constructor
  · rintro ⟨b, hb⟩
    obtain ⟨a, ha, hfa⟩ := bind_eq_ok.mp hb
    exact ⟨a, ha, b, hfa⟩
  · rintro ⟨a, ha, b, hfa⟩
    exact ⟨b, bind_eq_ok.mpr ⟨a, ha, hfa⟩⟩

/-- A result that passes a test is found by evaluation. -/
theorem exists_ok_of_any {p : α → Bool} (h : x.toOption.any p = true) :
    ∃ a, x = .ok a ∧ p a = true := by
  cases x with
  | error e => cases h
  | ok a => exact ⟨a, rfl, h⟩

/-- What every step of a loop keeps, the loop keeps. -/
theorem foldlM_keeps {P : β → Prop} {f : β → α → Except ε β}
    {xs : List α} (hstep : ∀ b a b', a ∈ xs → f b a = .ok b' → P b → P b') {b b' : β}
    (h : xs.foldlM f b = .ok b') (hb : P b) : P b' := by
  induction xs generalizing b with
  | nil =>
    cases h
    exact hb
  | cons a rest ih =>
    obtain ⟨c, hc, h⟩ := bind_eq_ok.mp h
    refine ih (fun b a b' ha => hstep b a b' (List.mem_cons_of_mem _ ha)) h ?_
    exact hstep b a c List.mem_cons_self hc hb

/-- A loop whose steps all return, returns. -/
theorem foldlM_returns {f : β → α → Except ε β} {xs : List α}
    (hstep : ∀ b, ∀ a ∈ xs, ∃ b', f b a = .ok b') (b : β) : ∃ b', xs.foldlM f b = .ok b' := by
  induction xs generalizing b with
  | nil => exact ⟨b, rfl⟩
  | cons a rest ih =>
    obtain ⟨c, hc⟩ := hstep b a List.mem_cons_self
    obtain ⟨b', hb'⟩ := ih (fun b a ha => hstep b a (List.mem_cons_of_mem _ ha)) c
    exact ⟨b', bind_eq_ok.mpr ⟨c, hc, hb'⟩⟩

/-- The steps of a loop that returns have returned. -/
theorem foldlM_step {f : β → α → Except ε β} {xs : List α} {b b' : β}
    (h : xs.foldlM f b = .ok b') : ∀ a ∈ xs, ∃ c, Returns (f c a) := by
  induction xs generalizing b with
  | nil => simp
  | cons x rest ih =>
    obtain ⟨c, hc, h⟩ := bind_eq_ok.mp h
    intro a ha
    rcases List.mem_cons.mp ha with rfl | ha
    · exact ⟨b, c, hc⟩
    · exact ih h a ha

/-- A loop that adds up the weights of some elements.  A step may refuse an element, and it
refuses a total that has no representation. -/
theorem foldlM_sum_iff {M : Type v} [AddMonoid M]
    {f : β → α → Except ε β} {val : β → M} (hinj : Function.Injective val)
    (hdown : ∀ b m k, val b = m + k → ∃ c, val c = m) {p : α → Bool} {P : α → Prop}
    {weight : α → M} {xs : List α} (hskip : ∀ a ∈ xs, p a = false → ∀ b, f b a = .ok b)
    (hadd : ∀ a ∈ xs, p a = true → ∀ b b', f b a = .ok b' ↔ P a ∧ val b' = val b + weight a)
    {b b' : β} :
    xs.foldlM f b = .ok b' ↔
      (∀ a ∈ xs.filter p, P a) ∧ val b' = val b + ((xs.filter p).map weight).sum := by
  induction xs generalizing b with
  | nil =>
    simp only [List.filter_nil, List.map_nil, List.sum_nil, add_zero]
    constructor
    · intro h
      cases h
      exact ⟨List.forall_mem_nil _, rfl⟩
    · rintro ⟨_, h⟩
      exact congrArg Except.ok (hinj h).symm
  | cons a rest ih =>
    have ih := fun c => @ih (fun x hx => hskip x (List.mem_cons_of_mem _ hx))
      (fun x hx => hadd x (List.mem_cons_of_mem _ hx)) c
    rw [List.foldlM_cons]
    cases hp : p a with
    | false =>
      rw [hskip a List.mem_cons_self hp, ok_bind, ih b, List.filter_cons_of_neg (by simp [hp])]
    | true =>
      have hadd := hadd a List.mem_cons_self hp b
      rw [List.filter_cons_of_pos hp, List.forall_mem_cons, List.map_cons, List.sum_cons,
        ← add_assoc, bind_eq_ok]
      constructor
      · rintro ⟨c, hc, h⟩
        obtain ⟨ha, hval⟩ := (hadd c).mp hc
        obtain ⟨hrest, hsum⟩ := (ih c).mp h
        exact ⟨⟨ha, hrest⟩, by rw [hsum, hval]⟩
      · rintro ⟨⟨ha, hrest⟩, hsum⟩
        -- the total before the rest has a representation, since the total after it has
        obtain ⟨c, hval⟩ := hdown b' _ _ hsum
        exact ⟨c, (hadd c).mpr ⟨ha, hval⟩, (ih c).mpr ⟨hrest, by rw [hsum, hval]⟩⟩

section Maps

variable {f : α → Except ε β} {xs : List α} {ys : List β}

/-- A map returns the result for the first element and those for the others. -/
theorem mapM_cons_eq_ok {x : α} : (x :: xs).mapM f = .ok ys ↔
      ∃ y ys', f x = .ok y ∧ xs.mapM f = .ok ys' ∧ ys = y :: ys' := by
  rw [List.mapM_cons, bind_eq_ok]
  refine exists_congr fun y => ?_
  constructor
  · rintro ⟨hy, h⟩
    obtain ⟨ys', hys, h⟩ := bind_eq_ok.mp h
    exact ⟨ys', hy, hys, (Except.ok.inj h).symm⟩
  · rintro ⟨ys', hy, hys, rfl⟩
    exact ⟨hy, bind_eq_ok.mpr ⟨ys', hys, rfl⟩⟩

/-- The result of a map has the result for every element. -/
theorem exists_mem_mapM (h : xs.mapM f = .ok ys) (ha : a ∈ xs) : ∃ b ∈ ys, f a = .ok b := by
  induction xs generalizing ys with
  | nil => cases ha
  | cons x rest ih =>
    obtain ⟨y, ys', hy, hys, rfl⟩ := mapM_cons_eq_ok.mp h
    rcases List.mem_cons.mp ha with rfl | ha
    · exact ⟨y, List.mem_cons_self, hy⟩
    · obtain ⟨b, hb, hfa⟩ := ih hys ha
      exact ⟨b, List.mem_cons_of_mem _ hb, hfa⟩

/-- A map that returns has returned for every element. -/
theorem mapM_eq_ok (h : xs.mapM f = .ok ys) : ∀ a ∈ xs, ∃ b, f a = .ok b := by
  intro a ha
  obtain ⟨b, _, hb⟩ := exists_mem_mapM h ha
  exact ⟨b, hb⟩

/-- A map returns if it does for every element. -/
theorem returns_mapM_iff : Returns (xs.mapM f) ↔ ∀ a ∈ xs, Returns (f a) := by
  constructor
  · rintro ⟨ys, h⟩
    exact mapM_eq_ok h
  · intro h
    induction xs with
    | nil => exact ⟨[], rfl⟩
    | cons x rest ih =>
      obtain ⟨y, hy⟩ := h x List.mem_cons_self
      obtain ⟨ys, hys⟩ := ih fun a ha => h a (List.mem_cons_of_mem _ ha)
      exact ⟨y :: ys, mapM_cons_eq_ok.mpr ⟨y, ys, hy, hys, rfl⟩⟩

/-- A map goes position by position. -/
theorem mapM_getElem? (h : xs.mapM f = .ok ys) (i : Nat) :
    (∃ a b, xs[i]? = some a ∧ ys[i]? = some b ∧ f a = .ok b) ∨ (xs[i]? = none ∧ ys[i]? = none) := by
  induction xs generalizing ys i with
  | nil =>
    cases h
    exact .inr ⟨rfl, rfl⟩
  | cons x rest ih =>
    obtain ⟨y, ys', hy, hys, rfl⟩ := mapM_cons_eq_ok.mp h
    cases i with
    | zero => exact .inl ⟨x, y, rfl, rfl, hy⟩
    | succ i => exact ih hys i

/-- What a step of a map leaves as it is, the map leaves. -/
theorem mapM_map {γ : Type v} {g : α → γ} {k : β → γ} (h : xs.mapM f = .ok ys)
    (hk : ∀ a b, f a = .ok b → k b = g a) : ys.map k = xs.map g := by
  induction xs generalizing ys with
  | nil =>
    cases h
    rfl
  | cons x rest ih =>
    obtain ⟨y, ys', hy, hys, rfl⟩ := mapM_cons_eq_ok.mp h
    rw [List.map_cons, List.map_cons, hk x y hy, ih hys]

/-- A map gives what every step of it gives. -/
theorem mapM_eq_ok_map {g : α → β} : xs.mapM f = .ok (xs.map g) ↔ ∀ a ∈ xs, f a = .ok (g a) := by
  induction xs with
  | nil => exact iff_of_true rfl (List.forall_mem_nil _)
  | cons x rest ih =>
    rw [List.map_cons, mapM_cons_eq_ok, List.forall_mem_cons, ← ih]
    constructor
    · rintro ⟨y, ys, hy, hys, hcons⟩
      obtain ⟨rfl, rfl⟩ := List.cons.inj hcons
      exact ⟨hy, hys⟩
    · rintro ⟨hx, hrest⟩
      exact ⟨g x, rest.map g, hx, hrest, rfl⟩

/-- A map that returns, without its failures. -/
theorem eq_filterMap_of_mapM (h : xs.mapM f = .ok ys) :
    ys = xs.filterMap fun a => (f a).toOption := by
  induction xs generalizing ys with
  | nil =>
    cases h
    rfl
  | cons x rest ih =>
    obtain ⟨y, ys', hy, hys, rfl⟩ := mapM_cons_eq_ok.mp h
    rw [List.filterMap_cons, hy, ← ih hys]
    rfl

/-- Every result of a map is the result for some element. -/
theorem exists_of_mem_mapM (h : xs.mapM f = .ok ys) {b : β} (hb : b ∈ ys) :
    ∃ a ∈ xs, f a = .ok b := by
  induction xs generalizing ys with
  | nil =>
    cases h
    cases hb
  | cons x rest ih =>
    obtain ⟨y, ys', hy, hys, rfl⟩ := mapM_cons_eq_ok.mp h
    rcases List.mem_cons.mp hb with rfl | hb
    · exact ⟨x, List.mem_cons_self, hy⟩
    · obtain ⟨a, ha, hfa⟩ := ih hys hb
      exact ⟨a, List.mem_cons_of_mem _ ha, hfa⟩

end Maps

end Lib
end AkLite
