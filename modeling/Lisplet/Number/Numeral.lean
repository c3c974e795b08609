/-
# Numerals of whole numbers

Outside source text, whole numbers are read from numerals: an optional sign and
decimal digits, which may have single underscores between them.  A numeral has
at most `mostDigits` digits, be it read or written, so that no conversion takes
unbounded time.  A text with more digits is no numeral, and a whole number that
needs more cannot be written; the arithmetic of such numbers is not restricted.
-/

import Lisplet.Double.Decimal
import Lisplet.Number.Literal

namespace Lisplet
namespace Numeral

/-- The most digits of a numeral.  Zeros at the front count; signs and
underscores do not. -/
def mostDigits : Nat := 4300

/-- The values of digits that may have single underscores between them. -/
def groupedDigits? : List Char → Option (List Nat)
  | [] => none
  | [c] => (Text.digitValue? c).map ([·])
  | c :: '_' :: rest => (Text.digitValue? c).bind fun d => (groupedDigits? rest).map (d :: ·)
  | c :: rest => (Text.digitValue? c).bind fun d => (groupedDigits? rest).map (d :: ·)

/-- The whole number that a text writes, if the text is a numeral. -/
def read? (text : String) : Option Int :=
  let (negative, cs) := Literal.spanSign text.toList
  (groupedDigits? cs).bind fun digits =>
    if digits.length ≤ mostDigits then
      some (if negative then -(Text.ofDigits digits : Int) else Text.ofDigits digits)
    else none

/-- The least natural number that needs more digits than a numeral may have. -/
def bound : Nat := Decimal.tenTo mostDigits

/-- Whether a whole number can be written. -/
def isWritable (n : Int) : Bool := decide (n.natAbs < bound)

/-- A whole number can be written just if its magnitude has no more digits than a
numeral may have. -/
theorem isWritable_iff (n : Int) :
    isWritable n = true ↔ n.natAbs.repr.length ≤ mostDigits := by
  have h (k : Nat) (hk : 0 < k) : n.natAbs.repr.length ≤ k ↔ n.natAbs < Decimal.tenTo k :=
    Nat.length_repr_le_iff hk
  rw [isWritable, decide_eq_true_iff]
  exact (h mostDigits (by decide)).symm

/-- The bound itself cannot be written. -/
theorem not_isWritable_bound : isWritable bound = false := by
  rw [isWritable, Int.natAbs_natCast]
  exact decide_eq_false (Nat.lt_irrefl bound)

example : groupedDigits? ['1', '_', '0'] = some [1, 0] ∧ groupedDigits? ['1', '_'] = none ∧
    groupedDigits? ['1', '_', '_', '0'] = none := by decide

example : isWritable (-12) = true := by decide +kernel

end Numeral
end Lisplet
