/-
# The shortest decimal that reads back

A double is shown by the decimal with the fewest digits that rounds to it; of
two such decimals the nearer one is taken, and of two equally near ones the one
with the even last digit.

The search goes through the grids of whole multiples of `10 ^ e`, from coarse
to fine.  If any point of a grid rounds to the double, so does one of the two
points around it, so only these two are tried.  Seventeen digits always suffice;
the exact decimal expansion stands behind the search, so it needs no bound of
its own.
-/

import Lisplet.Double.Decimal

namespace Lisplet
namespace Double

/-- Whether `c · 10 ^ e` rounds to `q` quanta. -/
def readsBack (q c : Nat) (e : Int) : Bool :=
  let d : Decimal := ⟨false, c, e⟩
  nearest d.numerator d.denominator == q

/-- The point of the grid of multiples of `10 ^ e` that rounds to `q` quanta and
lies nearest to it, if there is one. -/
def onGrid? (q : Nat) (e : Int) : Option Nat :=
  let num := q * Decimal.tenTo (-e).toNat
  let den := unit * Decimal.tenTo e.toNat
  [roundDiv num den, num / den, num / den + 1].find? fun c => readsBack q c e

/-- The exact decimal expansion of `q` quanta: a quantum is 5¹⁰⁷⁴ · 10⁻¹⁰⁷⁴. -/
def exactDecimal (q : Nat) : Nat × Int := (q * Nat.pow 5 1074, -1074)

/-- The first hit on the grids from `10 ^ e` on, `steps` of them, or else the
exact expansion. -/
def searchGrids (q : Nat) : Nat → Int → Nat × Int
  | 0, _ => exactDecimal q
  | steps + 1, e =>
    match onGrid? q e with
    | some c => (c, e)
    | none => searchGrids q steps (e - 1)

/-- Where the search starts: at the power of ten next above the value, which is
read off the binary length of the value with 0.30103 for the decimal logarithm
of two. -/
def gridStart (q : Nat) : Int :=
  (((q.log2 : Int) + 1 - 1074) * 30103).fdiv 100000 + 1

/-- The shortest decimal, as digits and power of ten, that rounds to `q` quanta. -/
def shortest (q : Nat) : Nat × Int :=
  if q = 0 then (0, 0) else searchGrids q 20 (gridStart q)

example : shortest 1 = (5, -324) ∧ shortest unit = (1, 0) := by decide +kernel

end Double
end Lisplet
