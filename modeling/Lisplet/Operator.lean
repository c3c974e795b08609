/-
# Operators

The functions that every fresh environment binds: four of arithmetic and four
of comparison.  Each has the symbol it is bound to and a name under which it is
shown.
-/

namespace Lisplet

/-- The arithmetic operators. -/
inductive Arithmetic where
  | add
  | sub
  | mul
  | div
  deriving DecidableEq, Repr

/-- The comparison operators. -/
inductive Comparison where
  | less
  | atMost
  | greater
  | atLeast
  deriving DecidableEq, Repr

/-- The symbol of an arithmetic operator. -/
def Arithmetic.symbol : Arithmetic → String
  | .add => "+"
  | .sub => "-"
  | .mul => "*"
  | .div => "/"

/-- The symbol of a comparison operator. -/
def Comparison.symbol : Comparison → String
  | .less => "<"
  | .atMost => "<="
  | .greater => ">"
  | .atLeast => ">="

/-- The operators. -/
inductive Operator where
  | arithmetic (op : Arithmetic)
  | comparison (op : Comparison)
  deriving DecidableEq, Repr

namespace Operator

/-- The symbol that an operator is bound to. -/
def symbol : Operator → String
  | .arithmetic op => op.symbol
  | .comparison op => op.symbol

/-- The name under which an operator is shown. -/
def name : Operator → String
  | .arithmetic .add => "add"
  | .arithmetic .sub => "sub"
  | .arithmetic .mul => "mul"
  | .arithmetic .div => "div"
  | .comparison .less => "lt"
  | .comparison .atMost => "lte"
  | .comparison .greater => "gt"
  | .comparison .atLeast => "gte"

/-- All operators, in the order in which they are bound. -/
def all : List Operator :=
  [.arithmetic .add, .arithmetic .sub, .arithmetic .mul, .arithmetic .div,
   .comparison .less, .comparison .atMost, .comparison .greater, .comparison .atLeast]

end Operator
end Lisplet
