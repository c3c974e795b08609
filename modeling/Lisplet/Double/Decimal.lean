/-
# Decimal numbers and the doubles nearest to them

A decimal number is a sign, a whole number and a power of ten that multiplies
it.  `Double.ofDecimal` rounds it correctly, whatever its length: a magnitude
that is too large becomes infinite, one that is too small becomes zero, and the
sign is kept in both cases.  Decimals far outside the range of doubles are
settled without computing the power of ten.
-/

import Lisplet.Double.Round

namespace Lisplet

/-- The number `± digits · 10 ^ exponent`. -/
structure Decimal where
  /-- Whether the number is written with a minus sign. -/
  negative : Bool
  /-- The whole number in front of the power of ten. -/
  digits : Nat
  /-- The power of ten. -/
  exponent : Int
  deriving DecidableEq, Repr

namespace Decimal

/-- Ten multiplied by itself `n` times. -/
def tenTo (n : Nat) : Nat := Nat.pow 10 n

/-- The numerator of the magnitude in quanta. -/
def numerator (d : Decimal) : Nat := d.digits * tenTo d.exponent.toNat * Double.unit

/-- The denominator of the magnitude in quanta. -/
def denominator (d : Decimal) : Nat := tenTo (-d.exponent).toNat

/-- The magnitude is certainly at least 2¹⁰²⁴: it is at least 10³⁰⁹. -/
def isHuge (d : Decimal) : Bool := d.digits != 0 && decide (309 ≤ d.exponent)

/-- The magnitude is certainly below half a quantum: it is zero, or it has fewer
binary digits before the point than the power of ten takes away. -/
def isTiny (d : Decimal) : Bool :=
  d.digits == 0 || decide ((d.digits.log2 : Int) + 1076 ≤ 3 * -d.exponent)

end Decimal

namespace Double

/-- The double nearest to a decimal number. -/
def ofDecimal (d : Decimal) : Double :=
  if d.isHuge then .infinite d.negative
  else if d.isTiny then zero d.negative
  else ofRatio d.negative d.numerator d.denominator

example : ofDecimal ⟨true, 1, 400⟩ = .infinite true ∧
    ofDecimal ⟨true, 1, -400⟩ = zero true := by decide +kernel

end Double
end Lisplet
