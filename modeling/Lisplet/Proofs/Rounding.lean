/-
# Rounding of ratios and decimals

The double nearest to a ratio depends on the ratio alone, not on the pair of
numbers that writes it (`nearest_congr`).  So the double nearest to a decimal
depends on its sign and its magnitude alone (`ofDecimal_congr`); the shortcuts for
magnitudes far outside the range of doubles change nothing (`ofDecimal_eq_ofRatio`).

The shortest decimal of a double reads back whichever way the search ends
(`readsBack_shortest`): a hit on a grid has been tried, and the exact expansion
is the same ratio as the double.
-/

import Mathlib.Data.Nat.Log
import Mathlib.Tactic.Ring
import Lisplet.Double.Shortest

namespace Lisplet

open Decimal

namespace Double

theorem one_shiftLeft_eq (n : Nat) : 1 <<< n = 2 ^ n := Nat.one_shiftLeft n

-- the exponents are bound here and below: as literals, the powers would be computed
/-- The quanta in the number one are a power of two. -/
theorem unit_eq : ∃ n, n = 1074 ∧ unit = 2 ^ n := ⟨1074, rfl, one_shiftLeft_eq 1074⟩

/-- The least number of quanta that is too large is a power of two. -/
theorem limit_eq : ∃ n, n = 2098 ∧ limit = 2 ^ n := ⟨2098, rfl, one_shiftLeft_eq 2098⟩

/-! ### Ratios -/

variable {num den k : Nat}

theorem roundDiv_mul_mul (num den : Nat) (hk : 0 < k) :
    roundDiv (num * k) (den * k) = roundDiv num den := by
  have hlt : ∀ a b : Nat, 2 * (a * k) < b * k ↔ 2 * a < b := by
    intro a b
    rw [← Nat.mul_assoc]
    exact Nat.mul_lt_mul_right hk
  have hgt : ∀ a b : Nat, b * k < 2 * (a * k) ↔ b < 2 * a := by
    intro a b
    rw [← Nat.mul_assoc]
    exact Nat.mul_lt_mul_right hk
  simp only [roundDiv, Nat.mul_mod_mul_right, Nat.mul_div_mul_right _ _ hk, hlt, hgt]

theorem nearest_mul_mul (num den : Nat) (hk : 0 < k) :
    nearest (num * k) (den * k) = nearest num den := by
  have hshift : ∀ s, (den * k) <<< s = (den <<< s) * k := by
    intro s
    rw [Nat.shiftLeft_eq, Nat.shiftLeft_eq]
    ring
  rw [nearest, nearest, Nat.mul_div_mul_right _ _ hk, hshift, roundDiv_mul_mul _ _ hk]

/-- **The nearest double depends on the ratio alone.** -/
theorem nearest_congr {num' den' : Nat} (hden : 0 < den) (hden' : 0 < den')
    (h : num * den' = num' * den) : nearest num den = nearest num' den' :=
  calc nearest num den
    _ = nearest (num * den') (den * den') := (nearest_mul_mul num den hden').symm
    _ = nearest (num' * den) (den' * den) := by rw [h, Nat.mul_comm den den']
    _ = nearest num' den' := nearest_mul_mul num' den' hden

/-- A ratio below one half is rounded to zero. -/
theorem nearest_eq_zero (h : 2 * num < den) : nearest num den = 0 := by
  have hdiv : num / den = 0 := Nat.div_eq_of_lt (by omega)
  have hsurplus : surplus 0 = 0 := by decide
  rw [nearest, hdiv, hsurplus, Nat.shiftLeft_zero, Nat.shiftLeft_zero, roundDiv, hdiv,
    Nat.mod_eq_of_lt (by omega), if_pos h]

/-- Rounding adds to the whole part of a ratio. -/
theorem le_roundDiv (num den : Nat) : num / den ≤ roundDiv num den := by
  unfold roundDiv
  split
  · exact Nat.le_refl _
  · split <;> omega

/-- The leading binary digit of the whole part survives the rounding. -/
theorem two_pow_log2_le_nearest (hpos : 0 < num / den) :
    2 ^ (num / den).log2 ≤ nearest num den := by
  have hround : num / den / 2 ^ surplus (num / den) ≤
      roundDiv num (den <<< surplus (num / den)) := by
    rw [Nat.div_div_eq_div_mul, ← Nat.shiftLeft_eq]
    exact le_roundDiv _ _
  have hle : surplus (num / den) ≤ (num / den).log2 := by
    unfold surplus
    omega
  have hlead : 2 ^ ((num / den).log2 - surplus (num / den)) ≤
      num / den / 2 ^ surplus (num / den) := by
    rw [Nat.le_div_iff_mul_le (Nat.two_pow_pos _), ← Nat.pow_add, Nat.sub_add_cancel hle]
    exact Nat.log2_self_le (Nat.ne_of_gt hpos)
  calc 2 ^ (num / den).log2
    _ = 2 ^ ((num / den).log2 - surplus (num / den)) * 2 ^ surplus (num / den) := by
      rw [← Nat.pow_add, Nat.sub_add_cancel hle]
    _ ≤ roundDiv num (den <<< surplus (num / den)) * 2 ^ surplus (num / den) :=
      Nat.mul_le_mul_right _ (hlead.trans hround)
    _ = nearest num den := (Nat.shiftLeft_eq _ _).symm

/-- A ratio that reaches the limit is rounded to no less. -/
theorem limit_le_nearest (h : limit ≤ num / den) : limit ≤ nearest num den := by
  have hpos : 0 < num / den := Nat.lt_of_lt_of_le limit_pos h
  obtain ⟨n, -, hlimit⟩ := limit_eq
  rw [hlimit] at h ⊢
  have hlog : n ≤ (num / den).log2 := (Nat.le_log2 (Nat.ne_of_gt hpos)).2 h
  exact (Nat.pow_le_pow_right (by decide) hlog).trans (two_pow_log2_le_nearest hpos)

end Double

/-! ### Decimals -/

namespace Decimal

/-- Two decimals have the same magnitude. -/
def SameMagnitude (d d' : Decimal) : Prop :=
  d.numerator * d'.denominator = d'.numerator * d.denominator

theorem denominator_pos (d : Decimal) : 0 < d.denominator := Nat.pow_pos (by decide)

/-- Zeros may be appended to the digits if the power of ten makes up for them. -/
theorem sameMagnitude_appendZeros (s : Bool) (c i j : Nat) :
    SameMagnitude ⟨s, c * 10 ^ (i + j), -(j : Int)⟩ ⟨s, c, i⟩ := by
  have hi : (-(i : Int)).toNat = 0 := by omega
  have hj : (-(j : Int)).toNat = 0 := by omega
  simp only [SameMagnitude, numerator, denominator, tenTo, Nat.pow_eq, hi, hj, Int.neg_neg,
    Int.toNat_natCast, pow_zero, pow_add]
  ring

theorem two_pow_le_ten_pow : ∃ k n, k = 1024 ∧ n = 309 ∧ 2 ^ k ≤ 10 ^ n :=
  ⟨1024, 309, rfl, rfl, by decide +kernel⟩

/-- A decimal that is huge is too large for a double. -/
theorem limit_le_nearest_of_isHuge {d : Decimal} (h : d.isHuge = true) :
    Double.limit ≤ Double.nearest d.numerator d.denominator := by
  simp only [isHuge, Bool.and_eq_true, bne_iff_ne, decide_eq_true_eq] at h
  obtain ⟨hdigits, hexponent⟩ := h
  have hnat : (-d.exponent).toNat = 0 := by omega
  have hden : d.denominator = 1 := by rw [denominator, hnat]; rfl
  obtain ⟨n, hn, hunit⟩ := Double.unit_eq
  obtain ⟨l, hl, hlimit⟩ := Double.limit_eq
  obtain ⟨k, m, hk, hm, hten⟩ := two_pow_le_ten_pow
  have hpow : 2 ^ k ≤ 10 ^ d.exponent.toNat :=
    hten.trans (Nat.pow_le_pow_right (by decide) (by omega))
  have hsum : l = k + n := by omega
  refine Double.limit_le_nearest ?_
  rw [hden, Nat.div_one, numerator, tenTo, hunit, hlimit, hsum, Nat.pow_add]
  refine Nat.mul_le_mul_right _ (hpow.trans ?_)
  exact Nat.le_mul_of_pos_left _ (Nat.pos_of_ne_zero hdigits)

/-- A decimal that is tiny is rounded to zero. -/
theorem nearest_of_isTiny {d : Decimal} (h : d.isTiny = true) :
    Double.nearest d.numerator d.denominator = 0 := by
  refine Double.nearest_eq_zero ?_
  simp only [isTiny, Bool.or_eq_true, beq_iff_eq, decide_eq_true_eq] at h
  rcases h with h | h
  · rw [numerator, h, Nat.zero_mul, Nat.zero_mul]
    exact d.denominator_pos
  · obtain ⟨n, hn, hunit⟩ := Double.unit_eq
    have hnat : d.exponent.toNat = 0 := by omega
    have hlog : d.digits.log2 + 1 + n + 1 ≤ 3 * (-d.exponent).toNat := by omega
    have hdigits : d.digits < 2 ^ (d.digits.log2 + 1) := Nat.lt_log2_self
    calc 2 * d.numerator
      _ = d.digits * 2 ^ n * 2 := by
        rw [numerator, hnat, hunit, tenTo, Nat.pow_eq]
        ring
      _ < 2 ^ (d.digits.log2 + 1) * 2 ^ n * 2 := by
        refine Nat.mul_lt_mul_of_pos_right ?_ (by decide)
        exact Nat.mul_lt_mul_of_pos_right hdigits (Nat.two_pow_pos _)
      _ = 2 ^ (d.digits.log2 + 1 + n + 1) := by rw [← Nat.pow_add, ← Nat.pow_succ]
      _ ≤ 2 ^ (3 * (-d.exponent).toNat) := Nat.pow_le_pow_right (by decide) hlog
      _ = 8 ^ (-d.exponent).toNat := Nat.pow_mul 2 3 _
      _ ≤ 10 ^ (-d.exponent).toNat := Nat.pow_le_pow_left (by decide) _
      _ = d.denominator := rfl

end Decimal

namespace Double

/-- The shortcuts for decimals far outside the range change nothing. -/
theorem ofDecimal_eq_ofRatio (d : Decimal) :
    ofDecimal d = ofRatio d.negative d.numerator d.denominator := by
  rw [ofDecimal, ofRatio]
  by_cases hhuge : d.isHuge = true
  · have hlimit := limit_le_nearest_of_isHuge hhuge
    rw [if_pos hhuge, dif_neg (Nat.not_lt.2 hlimit)]
  rw [if_neg hhuge, ← ofRatio]
  by_cases htiny : d.isTiny = true
  · have hzero := nearest_of_isTiny htiny
    rw [if_pos htiny, ofRatio, dif_pos (by rw [hzero]; exact limit_pos)]
    simp only [zero, hzero]
  exact if_neg htiny

/-- **The double of a decimal depends on its sign and its magnitude alone.** -/
theorem ofDecimal_congr {d d' : Decimal} (hs : d.negative = d'.negative)
    (h : SameMagnitude d d') : ofDecimal d = ofDecimal d' := by
  have hnearest := nearest_congr d.denominator_pos d'.denominator_pos h
  rw [ofDecimal_eq_ofRatio, ofDecimal_eq_ofRatio, ofRatio, ofRatio]
  simp only [hnearest, hs]

/-- A decimal that rounds to a number of quanta is the double of that many. -/
theorem ofDecimal_of_nearest {d : Decimal} {q : Nat} (hq : Representable q)
    (h : nearest d.numerator d.denominator = q) : ofDecimal d = .finite d.negative q hq := by
  subst h
  rw [ofDecimal_eq_ofRatio, ofRatio, dif_pos hq.1]

/-! ### The shortest decimal -/

variable {q c : Nat} {e : Int}

theorem readsBack_iff : readsBack q c e = true ↔
    nearest (numerator ⟨false, c, e⟩) (denominator ⟨false, c, e⟩) = q := beq_iff_eq

theorem exactDecimal_eq (q : Nat) :
    ∃ n, n = 1074 ∧ exactDecimal q = (q * Nat.pow 5 n, -(n : Int)) := ⟨1074, rfl, rfl⟩

/-- The exact expansion reads back, since it is the same ratio. -/
theorem readsBack_exactDecimal (hq : Representable q) :
    readsBack q (exactDecimal q).1 (exactDecimal q).2 = true := by
  obtain ⟨n, hn, hunit⟩ := unit_eq
  obtain ⟨n', hn', hexact⟩ := exactDecimal_eq q
  obtain rfl : n' = n := hn'.trans hn.symm
  have hpos : (-(n' : Int)).toNat = 0 := by omega
  rw [hexact, readsBack_iff]
  refine (nearest_congr (Decimal.denominator_pos _) Nat.one_pos ?_).trans (nearest_one hq)
  simp only [numerator, denominator, tenTo, hunit, hpos]
  calc q * 5 ^ n' * 10 ^ 0 * 2 ^ n' * 1
    _ = q * (5 * 2) ^ n' := by rw [Nat.mul_pow]; ring
    _ = q * Nat.pow 10 (- -(n' : Int)).toNat := by rw [Int.neg_neg, Int.toNat_natCast]; rfl

theorem readsBack_of_onGrid? (h : onGrid? q e = some c) : readsBack q c e = true := by
  dsimp only [onGrid?] at h
  exact List.find?_some (p := fun c => readsBack q c e) h

/-- The first hit of a search that goes down from a number, or else a fallback. -/
def firstHit (hit? : Int → Option Nat) (fallback : Nat × Int) : Nat → Int → Nat × Int
  | 0, _ => fallback
  | steps + 1, e =>
    match hit? e with
    | some c => (c, e)
    | none => firstHit hit? fallback steps (e - 1)

/-- A property of all hits and of the fallback is one of the first hit. -/
theorem firstHit_induction {P : Nat → Int → Prop} {hit? : Int → Option Nat} {fallback : Nat × Int}
    (hhit : ∀ c e, hit? e = some c → P c e) (hfallback : P fallback.1 fallback.2) (steps : Nat)
    (e : Int) : P (firstHit hit? fallback steps e).1 (firstHit hit? fallback steps e).2 := by
  induction steps generalizing e with
  | zero => exact hfallback
  | succ steps ih =>
    rw [firstHit]
    split
    · next c h => exact hhit c e h
    · exact ih (e - 1)

-- the equations of `searchGrids` are of no use: checking them computes with the quanta
theorem searchGrids_eq_firstHit (q : Nat) :
    searchGrids q = firstHit (onGrid? q) (exactDecimal q) := by
  delta searchGrids firstHit
  rfl

/-- **The shortest decimal of a double reads back.** -/
theorem readsBack_shortest (hq : Representable q) (hne : q ≠ 0) :
    readsBack q (shortest q).1 (shortest q).2 = true := by
  rw [shortest, if_neg hne, searchGrids_eq_firstHit]
  exact firstHit_induction (P := fun c e => readsBack q c e = true)
    (fun _ _ => readsBack_of_onGrid?) (readsBack_exactDecimal hq) _ _

end Double
end Lisplet
