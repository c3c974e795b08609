/-
# The line that numbers lie on

Numbers of all kinds are compared by their exact places on one line: a whole
number of quanta, or one of the two ends, where the infinities lie.  A nan has
no place, so no comparison with it holds.  The two zeros have the same place.
-/

import Lisplet.Double.Basic

namespace Lisplet

/-- A place on the extended number line, measured in quanta. -/
inductive Place where
  /-- Below every number. -/
  | bottom
  /-- A whole number of quanta from zero. -/
  | quanta (count : Int)
  /-- Above every number. -/
  | top
  deriving DecidableEq

namespace Place

/-- One place lies strictly before another. -/
def lt : Place → Place → Bool
  | .bottom, .bottom => false
  | .bottom, _ => true
  | .quanta a, .quanta b => decide (a < b)
  | .quanta _, .top => true
  | _, _ => false

/-- One place lies before another or is the same. -/
def le : Place → Place → Bool
  | .bottom, _ => true
  | .quanta _, .bottom => false
  | .quanta a, .quanta b => decide (a ≤ b)
  | .quanta _, .top => true
  | .top, .top => true
  | .top, _ => false

theorem lt_irrefl (p : Place) : p.lt p = false := by
  cases p <;> simp [lt]

theorem lt_trans {p q r : Place} (hpq : p.lt q = true) (hqr : q.lt r = true) : p.lt r = true := by
  cases p <;> cases q <;> cases r <;> grind [lt]

/-- The order is total: one place is at most another exactly if that one does not
lie before it. -/
theorem le_eq_not_lt (p q : Place) : p.le q = !q.lt p := by
  cases p <;> cases q <;> grind [lt, le]

end Place

/-- The place of a double, if it is a number. -/
def Double.place? : Double → Option Place
  | .nan => none
  | .infinite s => some (if s then .bottom else .top)
  | .finite s q _ => some (.quanta (signed s q))

end Lisplet
