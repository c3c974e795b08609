/-
# Arithmetic of doubles

The four operations of IEEE 754: each computes its exact result and rounds it
once, to nearest with ties to even.  Division by zero is an operation like the
others: a nonzero dividend gives the infinity of the product of the signs, zero
over zero gives a nan.  An exact sum of zero is negative only if both terms are
negative zeros.
-/

import Lisplet.Double.Round

namespace Lisplet
namespace Double

/-- The sum of two doubles. -/
def add : Double → Double → Double
  | .finite s a _, .finite t b _ =>
    let total := signed s a + signed t b
    if total = 0 then zero (s && t) else ofRatio (decide (total < 0)) total.natAbs 1
  | .infinite s, .infinite t => if s = t then .infinite s else .nan
  | .infinite s, .finite .. => .infinite s
  | .finite .., .infinite t => .infinite t
  | .nan, _ => .nan
  | _, .nan => .nan

/-- The difference of two doubles: the sum with the negated subtrahend. -/
def sub (x y : Double) : Double := x.add y.neg

/-- The product of two doubles. -/
def mul : Double → Double → Double
  | .finite s a _, .finite t b _ => ofRatio (s != t) (a * b) unit
  | .infinite s, .infinite t => .infinite (s != t)
  | .infinite s, .finite t b _ => if b = 0 then .nan else .infinite (s != t)
  | .finite s a _, .infinite t => if a = 0 then .nan else .infinite (s != t)
  | .nan, _ => .nan
  | _, .nan => .nan

/-- The quotient of two doubles. -/
def div : Double → Double → Double
  | .finite s a _, .finite t b _ =>
    if b = 0 then (if a = 0 then .nan else .infinite (s != t))
    else ofRatio (s != t) (a * unit) b
  | .infinite _, .infinite _ => .nan
  | .infinite s, .finite t _ _ => .infinite (s != t)
  | .finite s _ _, .infinite t => zero (s != t)
  | .nan, _ => .nan
  | _, .nan => .nan

/-- A double that is not an infinity.  An exact result that is too large for a double
was rounded to one. -/
def unlessInfinite : Double → Option Double
  | .infinite _ => none
  | x => some x

/-- The double nearest to a whole number, if it is not too large to have one. -/
def ofInt? (n : Int) : Option Double :=
  unlessInfinite (ofRatio (decide (n < 0)) (n.natAbs * unit) 1)

/-- The double nearest to the quotient of two whole numbers, the divisor not
being zero, if it is not too large to have one.  A result that rounds to zero
takes its sign from the two numbers, zero counting as positive. -/
def ofQuotient? (n d : Int) : Option Double :=
  unlessInfinite
    (ofRatio (decide (n < 0) != decide (d < 0)) (n.natAbs * unit) d.natAbs)

example : add (zero true) (zero false) = zero false ∧
    add (zero true) (zero true) = zero true := by decide +kernel

example : div (zero false) (zero true) = .nan ∧
    ((ofInt? 1).bind fun one => some (div one (zero true))) = some (.infinite true) := by
  decide +kernel

end Double
end Lisplet
