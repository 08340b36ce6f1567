/-
Natural numbers in double precision.

A double keeps 53 binary digits.  `round` takes a natural number to the nearest one with
that many, and to the even one of two that are equally near.  The scale of a number does
not matter for its digits, so the product of a natural number with a fraction whose
denominator is a power of two is rounded as the product with the numerator.
-/
import Mathlib.Algebra.Order.Ring.Nat
import Mathlib.Data.Nat.Log

namespace AkLite
namespace Lib
namespace Binary64

/-- The number of binary digits that do not fit. -/
def excess (n : Nat) : Nat := n.log2 - 52

/-- The nearest multiple of a positive number, the even one if there are two. -/
def nearest (n unit : Nat) : Nat :=
  if unit < 2 * (n % unit) ∨ (unit = 2 * (n % unit) ∧ n / unit % 2 = 1) then
    (n / unit + 1) * unit
  else n / unit * unit

def round (n : Nat) : Nat := nearest n (2 ^ excess n)

theorem nearest_le (n unit : Nat) : 2 * nearest n unit ≤ 2 * n + unit := by
  have hdiv := Nat.div_add_mod n unit
  rw [Nat.mul_comm] at hdiv
  unfold nearest
  split
  · next h => rw [Nat.add_mul]; omega
  · omega

/-- A multiple of the unit that is not above a number is not above its nearest one. -/
theorem div_le_nearest_div (n : Nat) {unit m : Nat} (h : unit ∣ m) :
    n / m ≤ nearest n unit / m := by
  have hle : n / unit * unit ≤ nearest n unit := by
    unfold nearest
    split
    · exact Nat.mul_le_mul_right _ (Nat.le_succ _)
    · exact le_rfl
  obtain ⟨c, rfl⟩ := h
  refine Nat.le_trans ?_ (Nat.div_le_div_right hle)
  rcases Nat.eq_zero_or_pos unit with rfl | hpos
  · simp
  · rw [← Nat.div_div_eq_div_mul, ← Nat.div_div_eq_div_mul, Nat.mul_div_cancel _ hpos]

/-- The multiple that is less than half a unit away. -/
theorem nearest_eq {n unit q : Nat} (hlow : 2 * (q * unit) < 2 * n + unit)
    (hhigh : 2 * n < 2 * (q * unit) + unit) : nearest n unit = q * unit := by
  have hdiv := Nat.div_add_mod' n unit
  have hmod : n % unit < unit := Nat.mod_lt n (by omega)
  unfold nearest
  rcases Nat.lt_trichotomy (n / unit) q with hlt | heq | hgt
  · have hnext : n / unit + 1 = q := by
      by_contra hne
      have := Nat.mul_le_mul_right unit (show n / unit + 2 ≤ q by omega)
      rw [Nat.add_mul] at this
      omega
    have hq : q * unit = n / unit * unit + unit := by rw [← hnext, Nat.succ_mul]
    rw [if_pos (.inl (by omega)), hnext]
  · rw [heq] at hdiv ⊢
    rw [if_neg (by omega)]
  · have := Nat.mul_le_mul_right unit (Nat.succ_le_of_lt hgt)
    rw [Nat.succ_mul] at this
    omega

theorem excess_le {n bits : Nat} (h : n < 2 ^ (53 + bits)) : excess n ≤ bits := by
  unfold excess
  by_cases hn : n = 0
  · simp [hn]
  · have := (Nat.log2_lt hn).mpr h
    omega

theorem excess_eq {n bits : Nat} (hlow : 2 ^ (52 + bits) ≤ n) (h : n < 2 ^ (53 + bits)) :
    excess n = bits := by
  have hn : n ≠ 0 := Nat.ne_of_gt (Nat.lt_of_lt_of_le (Nat.two_pow_pos _) hlow)
  have := (Nat.le_log2 hn).mpr hlow
  have := (Nat.log2_lt hn).mpr h
  unfold excess
  omega

/-- Fifty-three digits are kept as they are. -/
theorem round_of_lt {n : Nat} (h : n < 2 ^ 53) : round n = n := by
  have hexcess : excess n = 0 := Nat.le_zero.mp (excess_le h)
  simp [round, hexcess, nearest, Nat.mod_one]

/-- `static_cast<uint64_t>(n * x)` for the double `x` that is the numerator over `2 ^ scale`. -/
def mulTrunc (n numerator scale : Nat) : Nat := round (round n * numerator) / 2 ^ scale

end Binary64
end Lib
end AkLite
