/-
# The operators at work

An operator first looks at its arguments one by one from the left, and only when
all of them are numbers does it compute.  Arithmetic folds its arguments from
the left; a single argument is returned as it is, except that `-` negates it.
A comparison takes two arguments and checks their number first.

A fresh environment binds the operators and `pi` (`builtins`).
-/

import Lisplet.Bindings
import Lisplet.Error

namespace Lisplet

/-- The number that an argument of an operator is. -/
def Operator.numberOf (op : Operator) (v : Value) : Except Error Number :=
  match v.number? with
  | some n => .ok n
  | none => .error (.notNumber op v)

namespace Arithmetic

/-- The result of an operation on two numbers. -/
def combine : Arithmetic → Number → Number → Option Number
  | .add => Number.add
  | .sub => Number.sub
  | .mul => Number.mul
  | .div => Number.div

/-- The operation carried on from a first number through the others. -/
def fold (op : Arithmetic) : Number → List Number → Option Number
  | x, [] => some x
  | x, y :: rest => (op.combine x y).bind fun z => op.fold z rest

/-- The result of an operation on a first number and the others. -/
def result : Arithmetic → Number → List Number → Option Number
  | .sub, x, [] => some x.neg
  | op, x, rest => op.fold x rest

/-- An arithmetic operator applied to arguments. -/
def apply (op : Arithmetic) : List Value → Except Error Value
  | [] => .error (.noArgument op)
  | v :: rest => do
    let x ← Operator.numberOf (.arithmetic op) v
    let ys ← rest.mapM (Operator.numberOf (.arithmetic op))
    match op.result x ys with
    | some n => .ok (.number n)
    | none => .error .overflow

end Arithmetic

namespace Comparison

/-- The relation between places that a comparison tests. -/
def relation : Comparison → Place → Place → Bool
  | .less, p, q => p.lt q
  | .atMost, p, q => p.le q
  | .greater, p, q => q.lt p
  | .atLeast, p, q => q.le p

/-- A comparison applied to arguments. -/
def apply (op : Comparison) : List Value → Except Error Value
  | [v, w] => do
    let x ← Operator.numberOf (.comparison op) v
    let y ← Operator.numberOf (.comparison op) w
    .ok (.bool (Number.compare op.relation x y))
  | args => .error (.notTwoArguments op args.length)

end Comparison

/-- An operator applied to arguments. -/
def Operator.apply : Operator → List Value → Except Error Value
  | .arithmetic op => op.apply
  | .comparison op => op.apply

/-- The double nearest to the ratio of a circle to its diameter. -/
def pi : Double := Double.ofDecimal ⟨false, 3141592653589793, -15⟩

/-- What a fresh environment binds, in order. -/
def builtins : List (Symbol × Value) :=
  Operator.all.map (fun op => (⟨op.symbol⟩, .operator op)) ++ [(⟨"pi"⟩, .float pi)]

/-- The bindings of a fresh environment. -/
def Bindings.initial : Bindings := Bindings.empty.insertAll builtins

/-- The bindings that differ from those of a fresh environment. -/
def Bindings.own (b : Bindings) : List (Symbol × Value) :=
  b.entries.filter fun entry =>
    match Bindings.initial.get? entry.1 with
    | some v => !entry.2.equal v
    | none => true

end Lisplet
