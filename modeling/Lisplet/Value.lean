/-
# Values

Programs and the values they compute are of one type.  The reader builds
programs from numbers, symbols and lists alone (`Value.isTree`); evaluation adds
truth values, the unit value, functions and lambdas.  Texts, tuples and other
sequences that are no lists, whole numbers and the null value come only from a
host program that embeds the language, and so do functions of its own.

A lambda holds the number of the frame it was created in, not the frame, so
that later definitions there are visible to it.
-/

import Lisplet.Number
import Lisplet.Operator

namespace Lisplet

/-- A name of a program.  Symbols are equal when their names are. -/
structure Symbol where
  /-- The characters of the symbol. -/
  name : String
  deriving DecidableEq, Repr

/-- Frames are numbered in the order of their creation. -/
abbrev FrameId := Nat

/-- A function that a host program adds to the operators.  What it does is no part of
it (`Host`). -/
structure HostFunction where
  /-- The name under which the function is shown. -/
  name : String
  /-- Functions of one name are told apart by their numbers. -/
  number : Nat := 0
  deriving DecidableEq, Repr

/-- The functions that are not written in the language. -/
inductive Function where
  | operator (op : Operator)
  | host (f : HostFunction)
  deriving DecidableEq, Repr

/-- The name under which a function is shown. -/
def Function.name : Function → String
  | .operator op => op.name
  | .host f => f.name

/-- The kinds of sequences of a host that are not lists. -/
inductive HostListKind where
  /-- Tuples. -/
  | tuple
  /-- Sequences of another class, such as ranges and queues: the name of the class,
  whether its sequences can be keys of mappings, and the text that shows this one. -/
  | other (className : String) (hashable : Bool) (text : String)
  deriving DecidableEq, Repr

/-- The name of a class, if it is not that of tuples. -/
def HostListKind.className? : HostListKind → Option String
  | .tuple => none
  | .other className _ _ => some className

/-- A program or the value of one. -/
inductive Value where
  /-- A number. -/
  | number (n : Number)
  /-- A truth value. -/
  | bool (b : Bool)
  /-- A symbol. -/
  | symbol (x : Symbol)
  /-- A text of the host. -/
  | text (t : String)
  /-- The null value of the host. -/
  | null
  /-- A list. -/
  | list (items : List Value)
  /-- A tuple or another sequence of the host.  It is evaluated as the list of its
  items but does not count as a parameter list. -/
  | hostList (kind : HostListKind) (items : List Value)
  /-- The value of what is evaluated for its effect alone. -/
  | unit
  /-- A function that is not written in the language. -/
  | function (f : Function)
  /-- A function written in the language: its parameters, its body and the frame
  it was created in. -/
  | lambda (formals : List Symbol) (body : Value) (frame : FrameId)

namespace Value

/-- A double as a value. -/
def float (x : Double) : Value := .number (.float x)

/-- A whole number as a value. -/
def int (n : Int) : Value := .number (.int n)

/-- An operator as a value. -/
def operator (op : Operator) : Value := .function (.operator op)

/-- The symbol that a value is, if it is one. -/
def symbol? : Value → Option Symbol
  | .symbol x => some x
  | _ => none

/-- The number that a value is, if it is one.  Truth values are not numbers. -/
def number? : Value → Option Number
  | .number n => some n
  | _ => none

/-- The number that a value counts as in equality: a truth value counts as one
or zero. -/
def numeric? : Value → Option Number
  | .number n => some n
  | .bool b => some (.int (if b then 1 else 0))
  | _ => none

mutual

/-- Whether a value has the shape of what the reader builds: a double, a symbol or
a list of such values. -/
def isTree : Value → Bool
  | .number (.float _) => true
  | .symbol _ => true
  | .list items => areTrees items
  | _ => false

/-- Whether all values of a row are trees. -/
def areTrees : List Value → Bool
  | [] => true
  | v :: rest => isTree v && areTrees rest

end

theorem areTrees_iff {es : List Value} : areTrees es = true ↔ ∀ e ∈ es, e.isTree = true := by
  induction es with
  | nil => simp [areTrees]
  | cons e es ih => simp [areTrees, ih]

/-- Whether a value chooses the first branch of a conditional.  Zeros, empty
sequences and texts, false, null and unit do not; all else does. -/
def isTrue : Value → Bool
  | .number n => !n.isZero
  | .bool b => b
  | .text t => !t.isEmpty
  | .list items => !items.isEmpty
  | .hostList _ items => !items.isEmpty
  | .null => false
  | .unit => false
  | _ => true

mutual

/-- Equality of the language.  Numbers and truth values are equal by their place
on the line, so a nan differs from itself and `true` equals one; sequences of one
class are equal item by item, never a list to a tuple; lambdas are equal when
they have the same parameters, equal bodies and the same frame. -/
def equal : Value → Value → Bool
  | .symbol x, .symbol y => decide (x = y)
  | .text s, .text t => decide (s = t)
  | .null, .null => true
  | .unit, .unit => true
  | .function f, .function g => decide (f = g)
  | .list xs, .list ys => equalAll xs ys
  | .hostList k xs, .hostList l ys => decide (k.className? = l.className?) && equalAll xs ys
  | .lambda ps a f, .lambda qs b g => decide (ps = qs) && (equal a b && decide (f = g))
  | a, b =>
    match a.numeric?, b.numeric? with
    | some m, some n => m.equal n
    | _, _ => false

/-- Two rows of values are equal when they are equally long and equal item by
item. -/
def equalAll : List Value → List Value → Bool
  | [], [] => true
  | a :: as, b :: bs => equal a b && equalAll as bs
  | _, _ => false

end

end Value
end Lisplet
