/-
# Numbers

A number is a whole number of any size or a double.  Whole numbers among
themselves are added, subtracted, multiplied and negated exactly; their quotient
is the double nearest to the exact one.  As soon as a double takes part, a whole
number is first rounded to a double.  Comparisons round nothing: they compare
places on the line.

The arithmetic operations give `none` when a whole number, or the quotient of
two, is too large for a double; nothing else makes them fail, division by zero
included.
-/

import Lisplet.Double.Arith
import Lisplet.Double.Order
import Lisplet.Double.Text
import Lisplet.Number.Numeral

namespace Lisplet

/-- A whole number or a double. -/
inductive Number where
  /-- A whole number of any size. -/
  | int (n : Int)
  /-- A double precision number. -/
  | float (x : Double)
  deriving DecidableEq

namespace Number

/-- The number as a double, rounded; `none` if it is too large. -/
def toDouble? : Number → Option Double
  | .int n => Double.ofInt? n
  | .float x => some x

/-- The exact place of a number on the line; a nan has none. -/
def place? : Number → Option Place
  | .int n => some (.quanta (n * Double.unit))
  | .float x => x.place?

/-- An operation carried out on the doubles nearest to its operands. -/
def rounded (op : Double → Double → Double) (x y : Number) : Option Number :=
  x.toDouble?.bind fun a => y.toDouble?.map fun b => .float (op a b)

/-- The sum. -/
def add : Number → Number → Option Number
  | .int m, .int n => some (.int (m + n))
  | x, y => rounded Double.add x y

/-- The difference. -/
def sub : Number → Number → Option Number
  | .int m, .int n => some (.int (m - n))
  | x, y => rounded Double.sub x y

/-- The product. -/
def mul : Number → Number → Option Number
  | .int m, .int n => some (.int (m * n))
  | x, y => rounded Double.mul x y

/-- The quotient; a whole zero divides as the positive zero. -/
def div : Number → Number → Option Number
  | .int m, .int n =>
    if n = 0 then rounded Double.div (.int m) (.int 0) else (Double.ofQuotient? m n).map .float
  | x, y => rounded Double.div x y

/-- The number of the opposite sign. -/
def neg : Number → Number
  | .int n => .int (-n)
  | .float x => .float x.neg

/-- Whether a relation holds of the places of two numbers.  It does not hold if
one of them is a nan. -/
def compare (relation : Place → Place → Bool) (x y : Number) : Bool :=
  match x.place?, y.place? with
  | some p, some q => relation p q
  | _, _ => false

/-- Two numbers are equal when they have the same place. -/
def equal (x y : Number) : Bool := compare (fun p q => decide (p = q)) x y

/-- Whether a number is zero. -/
def isZero : Number → Bool
  | .int n => n == 0
  | .float x => x.isZero

/-- The number as it is shown: a whole number by its digits, a double by its
shortest digits, with a point or a power of ten. -/
def text : Number → String
  | .int n => toString n
  | .float x => x.text

/-- The number as it is written in a program: like `text`, but a double that is
equal to a whole number is written as that number. -/
def source : Number → String
  | .int n => toString n
  | .float x =>
    match x.integer? with
    | some n => toString n
    | none => x.text

/-- Whether a number can be written.  Doubles always can: none has more than 309
digits in front of its point. -/
def isWritable : Number → Bool
  | .int n => Numeral.isWritable n
  | .float _ => true

example : add (.int 1) (.int 2) = some (.int 3) ∧
    div (.int 1) (.int 0) = some (.float (.infinite false)) := by decide +kernel

end Number
end Lisplet
