/-
# Double precision numbers

The numbers of IEEE 754 binary64, as exact values.  A finite one is a sign and
a whole number of *quanta*, a quantum being 2⁻¹⁰⁷⁴, the least positive double.
A number of quanta is representable when its binary form has at most 53 digits
before its trailing zeros and it stays below 2²⁰⁹⁸ quanta, which are 2¹⁰²⁴.
Zero has two signs; a nan has neither sign nor payload.

Since every double is its number of quanta, comparison is comparison of whole
numbers (`Lisplet.Double.Order`) and arithmetic is exact arithmetic of whole
numbers followed by one rounding (`Lisplet.Double.Round`).
-/

namespace Lisplet
namespace Double

/-- The quanta in the number one: 2¹⁰⁷⁴. -/
def unit : Nat := 1 <<< 1074

/-- The least number of quanta that is too large, 2²⁰⁹⁸: the quanta in 2¹⁰²⁴. -/
def limit : Nat := 1 <<< 2098

/-- Shifting a positive number keeps it positive. -/
theorem shiftLeft_pos {m : Nat} (h : 0 < m) (s : Nat) : 0 < m <<< s := by
  rw [Nat.shiftLeft_eq]
  exact Nat.mul_pos h (Nat.two_pow_pos s)

theorem limit_pos : 0 < limit := shiftLeft_pos Nat.one_pos 2098

/-- How many binary digits of `q` lie behind its 53 leading ones. -/
def surplus (q : Nat) : Nat := q.log2 + 1 - 53

/-- A number of quanta is representable when it is below the limit and all its
binary digits behind the 53 leading ones are zero. -/
def Representable (q : Nat) : Prop := q < limit ∧ 1 <<< surplus q ∣ q

instance (q : Nat) : Decidable (Representable q) := inferInstanceAs (Decidable (_ ∧ _))

theorem representable_zero : Representable 0 := ⟨limit_pos, Nat.dvd_zero _⟩

/-- A number has at most 53 binary digits in front of its surplus. -/
theorem lt_shiftLeft_surplus (q : Nat) : q < 1 <<< (53 + surplus q) := by
  rw [Nat.one_shiftLeft]
  refine Nat.lt_of_lt_of_le Nat.lt_log2_self (Nat.pow_le_pow_right (by decide) ?_)
  unfold surplus
  omega

/-- Numbers of at most 53 binary digits, followed by zeros, are representable
below the limit. -/
theorem representable_shiftLeft {m s : Nat} (hm : m ≤ 1 <<< 53) (h : m <<< s < limit) :
    Representable (m <<< s) := by
  refine ⟨h, ?_⟩
  rw [Nat.one_shiftLeft] at hm ⊢
  rw [Nat.shiftLeft_eq]
  rcases Nat.eq_or_lt_of_le hm with rfl | hm
  · rw [← Nat.pow_add]
    refine Nat.pow_dvd_pow 2 ?_
    rw [surplus, Nat.log2_two_pow]
    omega
  · rcases Nat.eq_zero_or_pos m with rfl | hpos
    · simp
    · refine Nat.dvd_trans (Nat.pow_dvd_pow 2 ?_) (Nat.dvd_mul_left (2 ^ s) m)
      have hne : m * 2 ^ s ≠ 0 := Nat.ne_of_gt (Nat.mul_pos hpos (Nat.two_pow_pos s))
      have hlt : m * 2 ^ s < 2 ^ (53 + s) := by
        rw [Nat.pow_add]
        exact Nat.mul_lt_mul_of_pos_right hm (Nat.two_pow_pos s)
      have := (Nat.log2_lt hne).2 hlt
      unfold surplus
      omega

end Double

/-- A number of IEEE 754 binary64. -/
inductive Double where
  /-- Not a number. -/
  | nan
  /-- The infinity of a sign. -/
  | infinite (negative : Bool)
  /-- A finite number: its sign and its magnitude in quanta. -/
  | finite (negative : Bool) (quanta : Nat) (representable : Double.Representable quanta)
  deriving DecidableEq

namespace Double

/-- A magnitude with its sign. -/
def signed (negative : Bool) (magnitude : Nat) : Int :=
  if negative then -(magnitude : Int) else magnitude

/-- The zero of a sign. -/
def zero (negative : Bool) : Double := .finite negative 0 representable_zero

/-- The number of the opposite sign; a nan stays one. -/
def neg : Double → Double
  | .nan => .nan
  | .infinite s => .infinite (!s)
  | .finite s q h => .finite (!s) q h

/-- Whether a number is zero, of either sign. -/
def isZero : Double → Bool
  | .finite _ q _ => q == 0
  | _ => false

/-- Whether a number is neither infinite nor a nan. -/
def isFinite : Double → Bool
  | .finite .. => true
  | _ => false

@[simp] theorem neg_neg (x : Double) : x.neg.neg = x := by
  cases x <;> simp [neg]

end Double
end Lisplet
