/-
# What it is to be correctly rounded

A number of quanta has a *significand* of at most 53 binary digits and an exponent
(`IsSignificand`); below the limit these numbers are the doubles
(`representable_iff`).  The number nearest to a rational is the one of them that no
other is closer to; of two that are equally close it is the one with the even
significand (`IsNearest`).  There is no largest among them, so that a number which
is nearest may have reached the limit: then the double is infinite (`IsRounded`).

Nothing in this mentions how a double is computed.  It leaves no choice
(`IsRounded.unique`), and the double computed from a decimal satisfies it
(`isRounded_ofDecimal`).  Where the infinite and the zero begin is a consequence
(`IsRounded.infinite_iff`, `IsRounded.zero_iff`).
-/

import Mathlib.Algebra.Order.Field.Power
import Mathlib.Algebra.Order.Field.Rat
import Mathlib.Data.Nat.Cast.Order.Field
import Mathlib.Tactic.FieldSimp
import Mathlib.Tactic.Linarith
import Lisplet.Proofs.Rounding

namespace Lisplet
namespace Double

/-! ### Significands -/

/-- The significand `m` and the exponent `e` of a number of `q` quanta: at most 53 binary
digits, and all 53 of them unless the exponent is the least. -/
structure IsSignificand (q m e : Nat) : Prop where
  eq : q = m * 2 ^ e
  lt : m < 2 ^ 53
  normal : 2 ^ 52 ≤ m ∨ e = 0

variable {q q' m m' e e' : Nat}

/-- A number whose exponent is `n` at most has no more than 53 binary digits beyond `n`. -/
theorem IsSignificand.lt_two_pow (h : IsSignificand q m e) {n : Nat} (hn : e ≤ n) :
    q < 2 ^ (53 + n) := by
  calc q
    _ = m * 2 ^ e := h.eq
    _ < 2 ^ 53 * 2 ^ e := Nat.mul_lt_mul_of_pos_right h.lt (Nat.two_pow_pos e)
    _ = 2 ^ (53 + e) := (Nat.pow_add ..).symm
    _ ≤ 2 ^ (53 + n) := Nat.pow_le_pow_right (by decide) (by omega)

/-- A number whose exponent is more than `n` has more. -/
theorem IsSignificand.two_pow_le (h : IsSignificand q m e) {n : Nat} (hn : n < e) :
    2 ^ (53 + n) ≤ q := by
  have hm : 2 ^ 52 ≤ m := h.normal.resolve_right (by omega)
  calc 2 ^ (53 + n)
    _ ≤ 2 ^ (52 + e) := Nat.pow_le_pow_right (by decide) (by omega)
    _ = 2 ^ 52 * 2 ^ e := Nat.pow_add ..
    _ ≤ m * 2 ^ e := Nat.mul_le_mul_right _ hm
    _ = q := h.eq.symm

/-- At most 53 digits with zeros behind them have a significand, which is even if they
are: 53 digits that are carried over to a 54th are zeros. -/
theorem exists_isSignificand {r : Nat} (hle : r ≤ 2 ^ 53) (hnormal : 2 ^ 52 ≤ r ∨ e = 0) :
    ∃ m e', IsSignificand (r * 2 ^ e) m e' ∧ (Even r → Even m) := by
  rcases Nat.eq_or_lt_of_le hle with rfl | hlt
  · refine ⟨2 ^ 52, e + 1, ⟨?_, by decide, .inl (Nat.le_refl _)⟩, fun _ => by decide⟩
    rw [Nat.pow_succ 2 e]
    ring
  · exact ⟨r, e, ⟨rfl, hlt, hnormal⟩, id⟩

theorem IsSignificand.unique (h : IsSignificand q m e) (h' : IsSignificand q m' e') :
    m = m' ∧ e = e' := by
  have he : e = e' := by
    rcases Nat.lt_trichotomy e e' with hlt | heq | hlt
    · exact absurd (h'.two_pow_le hlt) (Nat.not_le.2 (h.lt_two_pow (Nat.le_refl e)))
    · exact heq
    · exact absurd (h.two_pow_le hlt) (Nat.not_le.2 (h'.lt_two_pow (Nat.le_refl e')))
  subst he
  exact ⟨Nat.eq_of_mul_eq_mul_right (Nat.two_pow_pos e) (h.eq.symm.trans h'.eq), rfl⟩

/-- A number with surplus digits has 53 others. -/
theorem two_pow_le_of_surplus_pos (h : 0 < surplus q) : 2 ^ (52 + surplus q) ≤ q := by
  have hne : q ≠ 0 := by
    rintro rfl
    exact absurd h (by decide)
  have hlog : q.log2 = 52 + surplus q := by
    unfold surplus at h ⊢
    omega
  exact hlog ▸ Nat.log2_self_le hne

/-- **The doubles are the numbers with a significand that stay below the limit.** -/
theorem representable_iff : Representable q ↔ q < limit ∧ ∃ m e, IsSignificand q m e := by
  constructor
  · rintro ⟨hlimit, m, hm⟩
    have hlt := lt_shiftLeft_surplus q
    have hle := @two_pow_le_of_surplus_pos q
    generalize surplus q = s at hm hlt hle
    rw [one_shiftLeft_eq] at hm hlt
    subst hm
    refine ⟨hlimit, m, s, Nat.mul_comm .., ?_, ?_⟩
    · rw [Nat.add_comm, Nat.pow_add] at hlt
      exact Nat.lt_of_mul_lt_mul_left hlt
    · refine (Nat.eq_zero_or_pos s).symm.imp_left fun hpos => ?_
      rw [Nat.add_comm, Nat.pow_add] at hle
      exact Nat.le_of_mul_le_mul_left (hle hpos) (Nat.two_pow_pos s)
  · rintro ⟨hlimit, m, e, hq⟩
    rw [hq.eq, ← Nat.shiftLeft_eq] at hlimit ⊢
    refine representable_shiftLeft ?_ hlimit
    rw [one_shiftLeft_eq]
    exact Nat.le_of_lt hq.lt

/-! ### The nearest number -/

/-- The number of quanta nearest to `v`: no other number with a significand is closer, and
if one is as close, the significand of `q` is even. -/
def IsNearest (v : ℚ) (q : Nat) : Prop :=
  ∃ m e, IsSignificand q m e ∧ ∀ q' m' e', IsSignificand q' m' e' →
    |v - q| ≤ |v - q'| ∧ (|v - q| = |v - q'| → q = q' ∨ Even m)

/-- One more in the significand is one spacing more. -/
theorem IsSignificand.add_spacing (h : IsSignificand q m e) : q + 2 ^ e = (m + 1) * 2 ^ e := by
  rw [h.eq, Nat.succ_mul]

/-- A number with a significand, moved up by its spacing, has one again. -/
theorem IsSignificand.exists_next (h : IsSignificand q m e) :
    ∃ m' e', IsSignificand (q + 2 ^ e) m' e' ∧ (Even m → m' = m + 1) := by
  have hlt := h.lt
  have hnormal : 2 ^ 52 ≤ m + 1 ∨ e = 0 := h.normal.imp_left Nat.le_succ_of_le
  obtain ⟨m', e', h', -⟩ := exists_isSignificand hlt hnormal
  rw [← h.add_spacing] at h'
  -- an odd number is not carried over to a digit more
  refine ⟨m', e', h', fun ⟨k, hk⟩ => ?_⟩
  have hodd : IsSignificand (q + 2 ^ e) (m + 1) e := ⟨h.add_spacing, by omega, hnormal⟩
  exact (h'.unique hodd).1

/-- Nothing lies between a number with a significand and the next one. -/
theorem IsSignificand.add_le (h : IsSignificand q m e) (h' : IsSignificand q' m' e')
    (hlt : q < q') : q + 2 ^ e ≤ q' := by
  rw [h.add_spacing]
  rcases Nat.lt_trichotomy e e' with he | rfl | he
  · refine (Nat.mul_le_mul_right _ h.lt).trans ?_
    rw [← Nat.pow_add]
    exact h'.two_pow_le he
  · rw [h.eq, h'.eq] at hlt
    rw [h'.eq]
    exact Nat.mul_le_mul_right _ (Nat.lt_of_mul_lt_mul_right hlt)
  · have hq := h.two_pow_le he
    have hq' := h'.lt_two_pow (Nat.le_refl e')
    omega

variable {v : ℚ} {p : Nat}

section

variable (h : IsNearest v q) (hp : IsSignificand p m e)

include h hp

/-- Above the point halfway to the next number, that number is closer. -/
theorem IsNearest.lt_of_half_lt (hv : (p : ℚ) + 2 ^ e / 2 < v) : p < q := by
  obtain ⟨n, k, hq, hmin⟩ := h
  obtain ⟨m', e', hp', -⟩ := hp.exists_next
  have hspacing : (0 : ℚ) < 2 ^ e := pow_pos two_pos e
  have hupper := (hmin _ m' e' hp').1
  rw [Nat.cast_add, Nat.cast_pow, Nat.cast_two] at hupper
  by_contra hnot
  have hle : (q : ℚ) ≤ p := by exact_mod_cast Nat.not_lt.1 hnot
  rw [abs_of_nonneg (by linarith : 0 ≤ v - q)] at hupper
  rcases le_abs.1 hupper with h | h <;> linarith

/-- Below that point the next number is not as close. -/
theorem IsNearest.le_of_lt_half (hv : v < (p : ℚ) + 2 ^ e / 2) : q ≤ p := by
  obtain ⟨n, k, hq, hmin⟩ := h
  have hspacing : (0 : ℚ) < 2 ^ e := pow_pos two_pos e
  have hlower := (hmin p m e hp).1
  by_contra hnot
  have hle : (p : ℚ) + 2 ^ e ≤ q := by exact_mod_cast hp.add_le hq (Nat.not_le.1 hnot)
  rw [abs_of_nonpos (by linarith : v - q ≤ 0)] at hlower
  rcases le_abs.1 hlower with h | h <;> linarith

/-- At that point the even significand decides. -/
theorem IsNearest.lt_iff_odd (hv : (p : ℚ) + 2 ^ e / 2 = v) : p < q ↔ Odd m := by
  obtain ⟨n, k, hq, hmin⟩ := h
  obtain ⟨m', e', hp', hnext⟩ := hp.exists_next
  have hspacing : (0 : ℚ) < 2 ^ e := pow_pos two_pos e
  obtain ⟨hlower, hlowerTie⟩ := hmin p m e hp
  obtain ⟨hupper, hupperTie⟩ := hmin _ m' e' hp'
  rw [Nat.cast_add, Nat.cast_pow, Nat.cast_two] at hupper hupperTie
  have hhalfLower : |v - p| = 2 ^ e / 2 := by
    rw [abs_of_nonneg] <;> linarith
  have hhalfUpper : |v - (p + 2 ^ e)| = 2 ^ e / 2 := by
    rw [abs_of_nonpos] <;> linarith
  rw [hhalfLower] at hlower hlowerTie
  rw [hhalfUpper] at hupper hupperTie
  constructor
  · -- the nearest number is the next one, and its significand is even
    intro hlt
    have hle : (p : ℚ) + 2 ^ e ≤ q := by exact_mod_cast hp.add_le hq hlt
    rw [abs_of_nonpos (by linarith : v - q ≤ 0)] at hlower hlowerTie
    have heven : Even n := (hlowerTie (by linarith)).resolve_left (Nat.ne_of_gt hlt)
    refine Nat.not_even_iff_odd.1 fun hm => ?_
    have heq : q = p + 2 ^ e := by exact_mod_cast (by linarith : (q : ℚ) = p + 2 ^ e)
    obtain ⟨hn, -⟩ := hq.unique (heq ▸ hp')
    rw [hn, hnext hm] at heven
    exact Nat.even_add_one.1 heven hm
  · -- otherwise it is the lower one, and that has an odd significand
    intro hodd
    by_contra hnot
    have hle : (q : ℚ) ≤ p := by exact_mod_cast Nat.not_lt.1 hnot
    rw [abs_of_nonneg (by linarith : 0 ≤ v - q)] at hupper hupperTie
    obtain rfl : q = p := by exact_mod_cast (by linarith : (q : ℚ) = p)
    have hne : q ≠ q + 2 ^ e := Nat.ne_of_lt (Nat.lt_add_of_pos_right (Nat.two_pow_pos e))
    have heven : Even n := (hupperTie (by linarith)).resolve_left hne
    obtain ⟨rfl, -⟩ := hq.unique hp
    exact Nat.not_even_iff_odd.2 hodd heven

/-- **The nearest number changes halfway between neighbours.**  At the point halfway it is
the lower of the two, unless the significand of that is odd. -/
theorem IsNearest.lt_iff :
    p < q ↔ (p : ℚ) + 2 ^ e / 2 < v ∨ (p : ℚ) + 2 ^ e / 2 = v ∧ Odd m := by
  rcases lt_trichotomy ((p : ℚ) + 2 ^ e / 2) v with hv | hv | hv
  · exact iff_of_true (h.lt_of_half_lt hp hv) (.inl hv)
  · rw [h.lt_iff_odd hp hv, or_iff_right hv.not_lt, and_iff_right hv]
  · refine iff_of_false (Nat.not_lt.2 (h.le_of_lt_half hp hv)) ?_
    exact not_or.2 ⟨hv.not_gt, fun heq => hv.ne' heq.1⟩

end

/-- **At most one number is nearest.** -/
theorem IsNearest.unique (h : IsNearest v q) (h' : IsNearest v q') : q = q' := by
  obtain ⟨m, e, hq, -⟩ := id h
  obtain ⟨m', e', hq', -⟩ := id h'
  refine Nat.le_antisymm (Nat.not_lt.1 fun hlt => ?_) (Nat.not_lt.1 fun hlt => ?_)
  · exact Nat.lt_irrefl q' ((h'.lt_iff hq').2 ((h.lt_iff hq').1 hlt))
  · exact Nat.lt_irrefl q ((h.lt_iff hq).2 ((h'.lt_iff hq).1 hlt))

/-- A power of two beyond the first 53 digits is reached half a spacing below it. -/
theorem IsNearest.two_pow_le_iff (h : IsNearest v q) (n : Nat) :
    2 ^ (53 + n) ≤ q ↔ (2 : ℚ) ^ (53 + n) - 2 ^ n / 2 ≤ v := by
  have hp : IsSignificand ((2 ^ 53 - 1) * 2 ^ n) (2 ^ 53 - 1) n :=
    ⟨rfl, by decide, .inl (by decide)⟩
  have hnext : (2 ^ 53 - 1) * 2 ^ n + 2 ^ n = 2 ^ (53 + n) := by
    rw [Nat.pow_add, ← Nat.succ_mul]
    rfl
  have hcast : (((2 ^ 53 - 1) * 2 ^ n : Nat) : ℚ) + 2 ^ n = 2 ^ (53 + n) := by
    exact_mod_cast hnext
  have hle : 2 ^ (53 + n) ≤ q ↔ (2 ^ 53 - 1) * 2 ^ n < q := by
    obtain ⟨m, e, hq, -⟩ := h
    rw [← hnext]
    exact ⟨fun hle => Nat.lt_of_lt_of_le (Nat.lt_add_of_pos_right (Nat.two_pow_pos n)) hle,
      hp.add_le hq⟩
  rw [hle, h.lt_iff hp, and_iff_left (by decide : Odd (2 ^ 53 - 1)), ← le_iff_lt_or_eq, ← hcast]
  constructor <;> intro <;> linarith

/-- One half is the largest number that is nearest to zero. -/
theorem IsNearest.eq_zero_iff (h : IsNearest v q) : q = 0 ↔ v ≤ 1 / 2 := by
  have hp : IsSignificand 0 0 0 := ⟨rfl, by decide, .inr rfl⟩
  have hpos := h.lt_iff hp
  rw [Nat.cast_zero, zero_add, pow_zero, or_iff_left (fun h => absurd h.2 (by decide))] at hpos
  rw [← not_lt, ← hpos, Nat.pos_iff_ne_zero, not_not]

/-! ### Rounding of a ratio -/

variable {num den : Nat}

theorem div_lt_half_iff (a : Nat) (hden : 0 < den) : (a / den : ℚ) < 1 / 2 ↔ 2 * a < den := by
  rw [div_lt_div_iff₀ (Nat.cast_pos.2 hden) two_pos, one_mul, mul_comm]
  norm_cast

theorem half_lt_div_iff (a : Nat) (hden : 0 < den) : 1 / 2 < (a / den : ℚ) ↔ den < 2 * a := by
  rw [div_lt_div_iff₀ two_pos (Nat.cast_pos.2 hden), one_mul, mul_comm]
  norm_cast

/-- A quotient is its whole part and a fraction. -/
theorem div_eq_add_fraction (num : Nat) (hden : 0 < den) :
    (num / den : ℚ) = (num / den : Nat) + (num % den : Nat) / den := by
  have hne : (den : ℚ) ≠ 0 := (Nat.cast_pos.2 hden).ne'
  have hnum : (num : ℚ) = den * (num / den : Nat) + (num % den : Nat) := by
    exact_mod_cast (Nat.div_add_mod num den).symm
  rw [hnum, add_div, mul_div_cancel_left₀ _ hne]

/-- A quotient is rounded by less than one half, or by one half to an even number. -/
theorem abs_sub_roundDiv (num : Nat) (hden : 0 < den) :
    |(num / den : ℚ) - roundDiv num den| < 1 / 2 ∨
      |(num / den : ℚ) - roundDiv num den| = 1 / 2 ∧ Even (roundDiv num den) := by
  have hnonneg : (0 : ℚ) ≤ (num % den : Nat) / den :=
    div_nonneg (Nat.cast_nonneg _) (Nat.cast_nonneg _)
  have hlt : (num % den : Nat) / (den : ℚ) < 1 := by
    rw [div_lt_one₀ (Nat.cast_pos.2 hden)]
    exact_mod_cast Nat.mod_lt num hden
  rw [div_eq_add_fraction num hden, roundDiv]
  simp only [← div_lt_half_iff _ hden, ← half_lt_div_iff _ hden]
  generalize (num % den : Nat) / (den : ℚ) = fraction at *
  generalize num / den = whole
  split
  · left
    rwa [add_sub_cancel_left, abs_of_nonneg hnonneg]
  split
  · left
    rw [Nat.cast_add, Nat.cast_one, add_sub_add_left_eq_sub, abs_lt]
    constructor <;> linarith
  · have hhalf : fraction = 1 / 2 := by linarith
    right
    rw [hhalf, Nat.cast_add, add_sub_add_left_eq_sub, Nat.even_iff]
    refine ⟨?_, by omega⟩
    rcases Nat.mod_two_eq_zero_or_one whole with h | h <;> rw [h] <;> norm_num [abs_of_nonneg]

/-- No whole number is closer to a quotient than the rounded one. -/
theorem abs_sub_roundDiv_le (num : Nat) (hden : 0 < den) (k : Nat) :
    |(num / den : ℚ) - roundDiv num den| ≤ |(num / den : ℚ) - k| ∧
      (|(num / den : ℚ) - roundDiv num den| = |(num / den : ℚ) - k| →
        roundDiv num den = k ∨ Even (roundDiv num den)) := by
  have hround := abs_sub_roundDiv num hden
  generalize roundDiv num den = r at *
  generalize (num / den : ℚ) = x at *
  rcases eq_or_ne r k with rfl | hne
  · exact ⟨le_refl _, fun _ => .inl rfl⟩
  · have hapart : (1 : ℚ) ≤ |(r : ℚ) - k| := by
      have h : (1 : ℤ) ≤ |(r : ℤ) - k| := Int.one_le_abs (by omega)
      exact_mod_cast h
    have htriangle : |(r : ℚ) - k| ≤ |x - r| + |x - k| := by
      rw [abs_sub_comm x r]
      exact abs_sub_le _ _ _
    rcases hround with hlt | ⟨heq, heven⟩
    · exact ⟨by linarith, fun h => by linarith⟩
    · exact ⟨by linarith, fun _ => .inr heven⟩

/-- No multiple of a power of two is closer to a ratio than the rounded one. -/
theorem abs_sub_roundDiv_mul_le (num : Nat) (hden : 0 < den) (s k : Nat) :
    |(num / den : ℚ) - (roundDiv num (den * 2 ^ s) * 2 ^ s : Nat)| ≤
        |(num / den : ℚ) - (k * 2 ^ s : Nat)| ∧
      (|(num / den : ℚ) - (roundDiv num (den * 2 ^ s) * 2 ^ s : Nat)| =
          |(num / den : ℚ) - (k * 2 ^ s : Nat)| →
        roundDiv num (den * 2 ^ s) * 2 ^ s = k * 2 ^ s ∨ Even (roundDiv num (den * 2 ^ s))) := by
  have hspacing : (0 : ℚ) < 2 ^ s := pow_pos two_pos s
  have hscale : ∀ n : Nat, |(num / den : ℚ) - (n * 2 ^ s : Nat)| =
      |(num / (den * 2 ^ s : Nat) : ℚ) - n| * 2 ^ s := by
    intro n
    have hden : (num / (den * 2 ^ s : Nat) : ℚ) * 2 ^ s = num / den := by
      rw [Nat.cast_mul, Nat.cast_pow, Nat.cast_two, div_mul_eq_mul_div,
        mul_div_mul_right _ _ hspacing.ne']
    calc |(num / den : ℚ) - (n * 2 ^ s : Nat)|
      _ = |((num / (den * 2 ^ s : Nat) : ℚ) - n) * 2 ^ s| := by
        rw [sub_mul, hden, Nat.cast_mul, Nat.cast_pow, Nat.cast_two]
      _ = |(num / (den * 2 ^ s : Nat) : ℚ) - n| * 2 ^ s := by
        rw [abs_mul, abs_of_pos hspacing]
  obtain ⟨hle, htie⟩ := abs_sub_roundDiv_le num (Nat.mul_pos hden (Nat.two_pow_pos s)) k
  rw [hscale, hscale]
  refine ⟨mul_le_mul_of_nonneg_right hle hspacing.le, fun h => ?_⟩
  exact (htie (mul_right_cancel₀ hspacing.ne' h)).imp_left fun h => by rw [h]

/-- What is left of a ratio without its surplus digits is rounded to 53 digits. -/
theorem roundDiv_surplus (num den : Nat) :
    roundDiv num (den * 2 ^ surplus (num / den)) ≤ 2 ^ 53 ∧
      (2 ^ 52 ≤ roundDiv num (den * 2 ^ surplus (num / den)) ∨ surplus (num / den) = 0) := by
  have hle := roundDiv_le num (den * 2 ^ surplus (num / den))
  have hge := le_roundDiv num (den * 2 ^ surplus (num / den))
  rw [← Nat.div_div_eq_div_mul] at hle hge
  have hlt := lt_shiftLeft_surplus (num / den)
  have hleading := @two_pow_le_of_surplus_pos (num / den)
  generalize num / den = w at *
  rw [one_shiftLeft_eq, Nat.pow_add, ← Nat.div_lt_iff_lt_mul (Nat.two_pow_pos _)] at hlt
  rw [Nat.pow_add, ← Nat.le_div_iff_mul_le (Nat.two_pow_pos _)] at hleading
  refine ⟨by omega, (Nat.eq_zero_or_pos _).symm.imp_left fun hpos => ?_⟩
  exact (hleading hpos).trans hge

/-- **The computed number of quanta is the nearest one.** -/
theorem isNearest_nearest (num : Nat) (hden : 0 < den) :
    IsNearest (num / den : ℚ) (nearest num den) := by
  have hleading := @two_pow_le_of_surplus_pos (num / den)
  obtain ⟨hle, hnormal⟩ := roundDiv_surplus num den
  have hclosest := abs_sub_roundDiv_mul_le num hden (surplus (num / den))
  rw [nearest, Nat.shiftLeft_eq, Nat.shiftLeft_eq]
  generalize surplus (num / den) = s at *
  generalize roundDiv num (den * 2 ^ s) = r at *
  obtain ⟨m, e, hsignificand, heven⟩ := exists_isSignificand hle hnormal
  refine ⟨m, e, hsignificand, fun q' m' e' h' => ?_⟩
  rcases Nat.lt_or_ge e' s with hlt | hge
  · -- below the ratio the spacing may be less; all of these are farther off than the
    -- number of the wider spacing between them and the ratio
    have hpivot := (hclosest (2 ^ 52)).1
    have hfar : q' < 2 ^ 52 * 2 ^ s := by
      rw [← Nat.pow_add]
      exact (h'.lt_two_pow (Nat.le_refl e')).trans_le (Nat.pow_le_pow_right (by decide) (by omega))
    have hratio : ((2 ^ 52 * 2 ^ s : Nat) : ℚ) ≤ num / den := by
      rw [← Nat.pow_add]
      exact (Nat.cast_le.2 (hleading (by omega))).trans Nat.cast_div_le
    generalize 2 ^ 52 * 2 ^ s = p at *
    have hq' : (q' : ℚ) < p := Nat.cast_lt.2 hfar
    rw [abs_of_nonneg (sub_nonneg.2 hratio)] at hpivot
    rw [abs_of_nonneg (by linarith : (0 : ℚ) ≤ num / den - q')]
    exact ⟨by linarith, fun h => by linarith⟩
  · have hmultiple : q' = m' * 2 ^ (e' - s) * 2 ^ s := by
      rw [h'.eq, Nat.mul_assoc, ← Nat.pow_add, Nat.sub_add_cancel hge]
    rw [hmultiple]
    obtain ⟨hcloser, htie⟩ := hclosest (m' * 2 ^ (e' - s))
    exact ⟨hcloser, fun h => (htie h).imp_right heven⟩

/-! ### Correct rounding -/

/-- The double is the number of the given sign and the magnitude `v`, correctly rounded: its
number of quanta is the nearest one, and it is infinite if that is too large. -/
def IsRounded (negative : Bool) (v : ℚ) : Double → Prop
  | .nan => False
  | .infinite s => s = negative ∧ ∃ q, IsNearest (v * unit) q ∧ limit ≤ q
  | .finite s q _ => s = negative ∧ IsNearest (v * unit) q

variable {negative : Bool} {x y : Double}

/-- **At most one double is correctly rounded.** -/
theorem IsRounded.unique (hx : IsRounded negative v x) (hy : IsRounded negative v y) : x = y := by
  cases x with
  | nan => exact hx.elim
  | infinite s =>
    obtain ⟨rfl, q, hq, hlimit⟩ := hx
    cases y with
    | nan => exact hy.elim
    | infinite s' => rw [hy.1]
    | finite s' q' h' => exact absurd h'.1 (Nat.not_lt.2 (hq.unique hy.2 ▸ hlimit))
  | finite s q h =>
    obtain ⟨rfl, hq⟩ := hx
    cases y with
    | nan => exact hy.elim
    | infinite s' =>
      obtain ⟨-, q', hq', hlimit⟩ := hy
      exact absurd h.1 (Nat.not_lt.2 (hq'.unique hq ▸ hlimit))
    | finite s' q' h' =>
      obtain ⟨rfl, hq'⟩ := hy
      obtain rfl := hq.unique hq'
      rfl

theorem isRounded_ofRatio (negative : Bool) (num : Nat) (hden : 0 < den)
    (hv : v * unit = num / den) : IsRounded negative v (ofRatio negative num den) := by
  have hnearest := isNearest_nearest num hden
  rw [← hv] at hnearest
  rw [ofRatio]
  split
  · exact ⟨rfl, hnearest⟩
  · next hlimit => exact ⟨rfl, _, hnearest, Nat.not_lt.1 hlimit⟩

/-- Whether it is infinite and whether it is zero is to be seen from the nearest number. -/
theorem IsRounded.exists_nearest (h : IsRounded negative v x) :
    ∃ q, IsNearest (v * unit) q ∧ (x = .infinite negative ↔ limit ≤ q) ∧
      (x = zero negative ↔ q = 0) := by
  cases x with
  | nan => exact h.elim
  | infinite s =>
    obtain ⟨rfl, q, hq, hlimit⟩ := h
    have hne : q ≠ 0 := Nat.ne_of_gt (limit_pos.trans_le hlimit)
    exact ⟨q, hq, iff_of_true rfl hlimit, iff_of_false nofun hne⟩
  | finite s q hrepresentable =>
    obtain ⟨rfl, hq⟩ := h
    refine ⟨q, hq, iff_of_false nofun (Nat.not_le.2 hrepresentable.1), ?_⟩
    simp only [zero, finite.injEq, true_and]

/-- **It is infinite from halfway between the largest double and 2¹⁰²⁴ on.** -/
theorem IsRounded.infinite_iff (h : IsRounded negative v x) :
    x = .infinite negative ↔ (2 : ℚ) ^ 1024 - 2 ^ 970 ≤ v := by
  obtain ⟨q, hq, hinfinite, -⟩ := h.exists_nearest
  obtain ⟨u, hu, hunit⟩ := unit_eq
  obtain ⟨l, hl, hlimit⟩ := limit_eq
  obtain ⟨i, hi⟩ : ∃ i, i = 1024 := ⟨_, rfl⟩
  obtain ⟨j, hj⟩ : ∃ j, j = 970 := ⟨_, rfl⟩
  have hpos : (0 : ℚ) < 2 ^ u := pow_pos two_pos u
  have hhalf : (2 : ℚ) ^ (53 + (u + j + 1)) - 2 ^ (u + j + 1) / 2 = (2 ^ i - 2 ^ j) * 2 ^ u := by
    have hsum : 53 + (u + j + 1) = i + u := by omega
    rw [hsum, pow_succ, pow_add, pow_add]
    ring
  have hexponent : l = 53 + (u + j + 1) := by omega
  rw [hinfinite, hlimit, hexponent, hq.two_pow_le_iff, hhalf, hunit, Nat.cast_pow, Nat.cast_two,
    mul_le_mul_iff_left₀ hpos, hi, hj]

/-- **It is zero up to half of the least double.** -/
theorem IsRounded.zero_iff (h : IsRounded negative v x) :
    x = zero negative ↔ v ≤ 1 / 2 ^ 1075 := by
  obtain ⟨q, hq, -, hzero⟩ := h.exists_nearest
  obtain ⟨u, hu, hunit⟩ := unit_eq
  obtain ⟨i, hi⟩ : ∃ i, i = 1075 := ⟨_, rfl⟩
  have hpos : (0 : ℚ) < 2 ^ u := pow_pos two_pos u
  have hexponent : i = u + 1 := by omega
  rw [hzero, hq.eq_zero_iff, hunit, Nat.cast_pow, Nat.cast_two, ← le_div_iff₀ hpos, div_div,
    ← pow_succ', ← hexponent, hi]

end Double

namespace Decimal

/-- The magnitude of a decimal number. -/
def magnitude (d : Decimal) : ℚ := d.digits * 10 ^ d.exponent

theorem magnitude_mul_unit (d : Decimal) :
    d.magnitude * Double.unit = d.numerator / d.denominator := by
  have hexponent : (10 : ℚ) ^ d.exponent = 10 ^ d.exponent.toNat / 10 ^ (-d.exponent).toNat := by
    rw [← zpow_natCast, ← zpow_natCast, ← zpow_sub₀ (by norm_num), Int.toNat_sub_toNat_neg]
  rw [magnitude, hexponent, numerator, denominator, tenTo, tenTo, Nat.pow_eq, Nat.pow_eq]
  push_cast
  ring

end Decimal

namespace Double

/-- **The double of a decimal is correctly rounded.** -/
theorem isRounded_ofDecimal (d : Decimal) : IsRounded d.negative d.magnitude (ofDecimal d) := by
  rw [ofDecimal_eq_ofRatio]
  exact isRounded_ofRatio _ _ d.denominator_pos d.magnitude_mul_unit

end Double
end Lisplet
