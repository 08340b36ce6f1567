/-
Programs that act exactly under a condition.

A state counts the actions that were taken in it, and a frame says what else is to stay as
it is.  `ActsIff act F c x s` says that `x`, started in `s`, takes an action if `c` holds
and stays in the frame if it does not, whether it returns or throws.  The condition is
fixed while a program is taken apart: a part that ends the program early has to refute it,
and the part that acts has to show it.
-/
import AkLite.Lib.Effect

namespace AkLite
namespace Lib

variable {ε σ α β : Type}

def ActsIff (act : σ → Nat) (F : Frame σ) (c : Prop) (x : EStateM ε σ α) (s : σ) : Prop :=
  wp x (fun _ t => (c → act s < act t) ∧ (¬ c → F.rel s t))
    (fun _ t => (c → act s < act t) ∧ (¬ c → F.rel s t)) s

namespace ActsIff

variable {act : σ → Nat} {F : Frame σ} {c : Prop} {s : σ}

variable {x : EStateM ε σ α} {g : α → EStateM ε σ β}

/-- A program that never acts. -/
theorem of_within (hc : ¬ c) (hx : Within F x) : ActsIff act F c x s :=
  wp_mono (hx s) (fun _ _ h => ⟨fun h' => absurd h' hc, fun _ => h⟩)
    (fun _ _ h => ⟨fun h' => absurd h' hc, fun _ => h⟩)

/-- A program that always acts. -/
theorem of_acts (hc : c) (hx : wp x (fun _ t => act s < act t) (fun _ t => act s < act t) s) :
    ActsIff act F c x s :=
  wp_mono hx (fun _ _ h => ⟨fun _ => h, fun h' => absurd hc h'⟩)
    (fun _ _ h => ⟨fun _ => h, fun h' => absurd hc h'⟩)

/-- A program of which one action is known. -/
theorem modify_bind_acts {f : σ → σ} {g : PUnit → EStateM ε σ β} (hc : c) (hf : act s < act (f s))
    (hg : Within (.rises act) (g ⟨⟩)) : ActsIff act F c (modify f >>= g) s := by
  refine of_acts hc ?_
  rw [wp_bind, wp_modify]
  exact wp_mono (hg (f s)) (fun _ _ h => Nat.lt_of_lt_of_le hf h)
    (fun _ _ h => Nat.lt_of_lt_of_le hf h)

theorem orThrow_bind {x : Except ε α} (herr : ∀ e, x = .error e → ¬ c)
    (hok : ∀ a, x = .ok a → ActsIff act F c (g a) s) : ActsIff act F c (Lib.orThrow x >>= g) s := by
  cases x with
  | ok a => exact hok a rfl
  | error e => exact of_within (herr e rfl) (.throw e)

theorem get_bind {g : σ → EStateM ε σ β} (hg : ActsIff act F c (g s) s) :
    ActsIff act F c (MonadState.get >>= g) s := hg

/-- A change that is no action. -/
theorem modify_bind {f : σ → σ} {g : PUnit → EStateM ε σ β} (hact : act (f s) = act s)
    (hF : F.rel s (f s)) (hg : ActsIff act F c (g ⟨⟩) (f s)) :
    ActsIff act F c (modify f >>= g) s := by
  unfold ActsIff
  rw [wp_bind, wp_modify]
  refine wp_mono hg (fun _ t h => ?_) (fun _ t h => ?_)
  · exact ⟨fun hc => hact ▸ h.1 hc, fun hc => F.trans hF (h.2 hc)⟩
  · exact ⟨fun hc => hact ▸ h.1 hc, fun hc => F.trans hF (h.2 hc)⟩

/-- A part that leaves the state as it is. -/
theorem bind_of_ok {a : α} (hx : x s = .ok a s) (hg : ActsIff act F c (g a) s) :
    ActsIff act F c (x >>= g) s := by
  unfold ActsIff wp
  rw [Lib.bind_of_ok hx]
  exact hg

/-- A part that acts, whatever follows. -/
theorem bind_acts (hc : c) (hx : ActsIff act F c x s) (hrises : ∀ a, Within (.rises act) (g a)) :
    ActsIff act F c (x >>= g) s := by
  refine of_acts hc ?_
  rw [wp_bind]
  refine wp_mono hx (fun a t ht => ?_) (fun _ _ h => h.1 hc)
  exact wp_mono (hrises a t) (fun _ _ h => Nat.lt_of_lt_of_le (ht.1 hc) h)
    (fun _ _ h => Nat.lt_of_lt_of_le (ht.1 hc) h)

/-- What follows does not act itself. -/
theorem bind_within (hx : ActsIff act F c x s) (hrises : ∀ a, Within (.rises act) (g a))
    (hF : ∀ a, Within F (g a)) : ActsIff act F c (x >>= g) s := by
  unfold ActsIff
  rw [wp_bind]
  refine wp_mono hx (fun a t ht => ?_) (fun _ _ h => h)
  refine wp_mono (wp_and (hrises a t) (hF a t)) (fun _ u hu => ?_) (fun _ u hu => ?_)
  · exact ⟨fun hc => Nat.lt_of_lt_of_le (ht.1 hc) hu.1, fun hc => F.trans (ht.2 hc) hu.2⟩
  · exact ⟨fun hc => Nat.lt_of_lt_of_le (ht.1 hc) hu.1, fun hc => F.trans (ht.2 hc) hu.2⟩

theorem ite {p : Prop} [Decidable p] {x y : EStateM ε σ α} (hx : p → ActsIff act F c x s)
    (hy : ¬ p → ActsIff act F c y s) : ActsIff act F c (if p then x else y) s := by
  split
  · next h => exact hx h
  · next h => exact hy h

theorem tryCatch {handler : ε → EStateM ε σ α} (hx : ActsIff act F c x s)
    (hrises : ∀ e, Within (.rises act) (handler e)) (hF : ∀ e, Within F (handler e)) :
    ActsIff act F c (MonadExcept.tryCatch x handler) s := by
  unfold ActsIff
  rw [wp_tryCatch]
  refine wp_mono hx (fun _ _ h => h) (fun e t ht => ?_)
  refine wp_mono (wp_and (hrises e t) (hF e t)) (fun _ u hu => ?_) (fun _ u hu => ?_)
  · exact ⟨fun hc => Nat.lt_of_lt_of_le (ht.1 hc) hu.1, fun hc => F.trans (ht.2 hc) hu.2⟩
  · exact ⟨fun hc => Nat.lt_of_lt_of_le (ht.1 hc) hu.1, fun hc => F.trans (ht.2 hc) hu.2⟩

/-- The state at the end, whether the program returned or threw. -/
theorem after (h : ActsIff act F c x s) :
    (c → act s < act (Lib.after x s)) ∧ (¬ c → F.rel s (Lib.after x s)) :=
  after_of_wp (P := fun t => (c → act s < act t) ∧ (¬ c → F.rel s t)) h

end ActsIff

end Lib
end AkLite
