/-
# Number literals

A number literal is an optional sign, decimal digits with an optional point
among or around them, and an optional power of ten: `e` or `E`, an optional sign
and at least one digit.  There is at least one digit before or after the point.
Digits may come from any script, and scripts may be mixed.  There are no blanks,
no words for infinities and no separators between digits.
-/

import Lisplet.Text.Digit
import Lisplet.Double.Decimal

namespace Lisplet
namespace Literal

open Text

/-- A sign at the front of a text: whether there is a minus, and what follows
the sign. -/
def spanSign : List Char → Bool × List Char
  | '-' :: cs => (true, cs)
  | '+' :: cs => (false, cs)
  | cs => (false, cs)

/-- The digits after a point at the front of a text, and what follows them. -/
def spanFraction : List Char → List Nat × List Char
  | '.' :: cs => spanDigits cs
  | cs => ([], cs)

/-- The power of ten that a whole text denotes: none written is zero. -/
def exponent? : List Char → Option Int
  | [] => some 0
  | c :: cs =>
    if c = 'e' ∨ c = 'E' then
      let (negative, cs) := spanSign cs
      match spanDigits cs with
      | (d :: digits, []) =>
        let power := ofDigits (d :: digits)
        some (if negative then -power else power)
      | _ => none
    else none

/-- The decimal number that a whole text denotes, if it is a number literal. -/
def read? (cs : List Char) : Option Decimal :=
  let (negative, cs) := spanSign cs
  let (whole, cs) := spanDigits cs
  let (fraction, cs) := spanFraction cs
  if whole ++ fraction = [] then none
  else (exponent? cs).map fun power =>
    ⟨negative, ofDigits (whole ++ fraction), power - fraction.length⟩

example : read? ['-', '1', '.', '5', 'e', '3'] = some ⟨true, 15, 2⟩ ∧
    read? ['.', '5'] = some ⟨false, 5, -1⟩ ∧ read? ['5', '.'] = some ⟨false, 5, 0⟩ := by
  decide +kernel

example : read? ['.'] = none ∧ read? ['1', 'e'] = none ∧ read? ['+'] = none := by decide +kernel

end Literal
end Lisplet
