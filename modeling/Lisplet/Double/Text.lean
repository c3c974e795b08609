/-
# The text of a double

A finite double is written with its shortest digits.  The digits stand in plain
positional form when the leading one is worth at least 10⁻⁴ and less than 10¹⁶,
with at least one digit on either side of the point; otherwise the leading digit
is followed by a point, if more digits follow, and a power of ten with its sign
and at least two digits.  The sign of zero is written; a nan has none.
-/

import Lisplet.Double.Shortest

namespace Lisplet
namespace Double

/-- The decisions of a format that shows decimals. -/
structure Layout where
  /-- The least power of ten of a leading digit that is written positionally. -/
  leastPositional : Int
  /-- The greatest power of ten of a leading digit that is written positionally. -/
  greatestPositional : Int
  /-- The least number of digits of a written power of ten. -/
  exponentWidth : Nat

/-- Numbers are positional from 10⁻⁴ up to below 10¹⁶; a power of ten has two
digits or more. -/
def Layout.standard : Layout := ⟨-4, 15, 2⟩

/-- Digits in positional form, `before` of them standing before the point. -/
def positional (digits : List Char) (before : Int) : List Char :=
  if before ≤ 0 then '0' :: '.' :: List.replicate (-before).toNat '0' ++ digits
  else if (digits.length : Int) ≤ before then
    digits ++ List.replicate (before.toNat - digits.length) '0' ++ ['.', '0']
  else digits.take before.toNat ++ '.' :: digits.drop before.toNat

/-- Digits with a power of ten, which is that of the leading digit. -/
def scientific (layout : Layout) (digits : List Char) (exponent : Int) : List Char :=
  let power := Nat.toDigits 10 exponent.natAbs
  digits.take 1 ++ (if digits.length ≤ 1 then [] else '.' :: digits.drop 1) ++
    'e' :: (if exponent < 0 then '-' else '+') ::
    List.replicate (layout.exponentWidth - power.length) '0' ++ power

/-- The number `c · 10 ^ e` in a layout. -/
def Layout.write (layout : Layout) (c : Nat) (e : Int) : List Char :=
  let digits := Nat.toDigits 10 c
  let leading := (digits.length : Int) + e - 1
  if layout.leastPositional ≤ leading ∧ leading ≤ layout.greatestPositional then
    positional digits (leading + 1)
  else scientific layout digits leading

/-- The text of a double. -/
def text : Double → String
  | .nan => "nan"
  | .infinite s => if s then "-inf" else "inf"
  | .finite s q _ =>
    let digits := Layout.standard.write (shortest q).1 (shortest q).2
    String.ofList (if s then '-' :: digits else digits)

/-- The whole number that a double is equal to, if there is one. -/
def integer? : Double → Option Int
  | .finite s q _ => if q % unit = 0 then some (signed s (q / unit)) else none
  | _ => none

example : Layout.standard.write 15 (-6) = ['1', '.', '5', 'e', '-', '0', '5'] ∧
    Layout.standard.write 1 15 = '1' :: List.replicate 15 '0' ++ ['.', '0'] ∧
    Layout.standard.write 1 16 = ['1', 'e', '+', '1', '6'] ∧
    Layout.standard.write 125 (-3) = ['0', '.', '1', '2', '5'] := by decide +kernel

end Double
end Lisplet
