/-
# Rounding to the nearest double

An exact result is a ratio of whole numbers of quanta.  It is rounded to the
nearest whole multiple of the spacing of the doubles around it, a half going to
the even neighbour (`roundDiv`); a magnitude that reaches 2¹⁰²⁴ in this way
becomes infinite, one that reaches zero becomes the zero of its sign.
-/

import Lisplet.Double.Basic

namespace Lisplet
namespace Double

/-- The whole number nearest to `num / den`, a half going to the even one. -/
def roundDiv (num den : Nat) : Nat :=
  if 2 * (num % den) < den then num / den
  else if den < 2 * (num % den) then num / den + 1
  else num / den + num / den % 2

theorem roundDiv_le (num den : Nat) : roundDiv num den ≤ num / den + 1 := by
  unfold roundDiv
  split
  · omega
  · split <;> omega

/-- An exact quotient is not changed by rounding. -/
theorem roundDiv_mul (n : Nat) {den : Nat} (h : 0 < den) : roundDiv (n * den) den = n := by
  unfold roundDiv
  rw [Nat.mul_mod_left, Nat.mul_div_cancel n h, if_pos (by omega)]

/-- The multiple of the local spacing nearest to `num / den` quanta. -/
def nearest (num den : Nat) : Nat :=
  roundDiv num (den <<< surplus (num / den)) <<< surplus (num / den)

theorem representable_nearest {num den : Nat} (h : nearest num den < limit) :
    Representable (nearest num den) := by
  refine representable_shiftLeft ?_ h
  have hq : num / den / (1 <<< surplus (num / den)) < 1 <<< 53 := by
    have := lt_shiftLeft_surplus (num / den)
    rw [Nat.div_lt_iff_lt_mul (shiftLeft_pos Nat.one_pos _)]
    rwa [Nat.one_shiftLeft, Nat.pow_add, ← Nat.one_shiftLeft, ← Nat.one_shiftLeft] at this
  have hdiv : num / (den <<< surplus (num / den)) = num / den / (1 <<< surplus (num / den)) := by
    rw [Nat.div_div_eq_div_mul, Nat.shiftLeft_eq den, ← Nat.one_shiftLeft]
  have := roundDiv_le num (den <<< surplus (num / den))
  rw [hdiv] at this
  omega

/-- A representable number of quanta is its own rounding. -/
theorem nearest_one {q : Nat} (h : Representable q) : nearest q 1 = q := by
  obtain ⟨m, hm⟩ := h.2
  have hround : roundDiv q (1 <<< surplus q) = m := by
    have := roundDiv_mul m (shiftLeft_pos Nat.one_pos (surplus q))
    rwa [Nat.mul_comm, ← hm] at this
  rw [nearest, Nat.div_one, hround, Nat.shiftLeft_eq, ← Nat.one_shiftLeft, Nat.mul_comm, ← hm]

/-- The double nearest to a magnitude of `num / den` quanta with a sign. -/
def ofRatio (negative : Bool) (num den : Nat) : Double :=
  if h : nearest num den < limit then
    .finite negative (nearest num den) (representable_nearest h)
  else .infinite negative

end Double
end Lisplet
