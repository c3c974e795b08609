/-
# The text of a value

A value has two written forms.  Its *source* is program text: a list of numbers,
symbols and lists reads back from it, finite numbers provided.  Its *inspected*
form tells values of all kinds apart: texts and the names of symbols are quoted,
lists stand in brackets, tuples in parentheses, doubles show that they are
doubles.  Values that have no source of their own are inspected in it, among them
all sequences but lists.

`Value.display` is the form for messages to people: a symbol by its name, a text
by itself, a lambda by its source, all else inspected.

A value with a whole number in it that has too many digits cannot be written in
any form (`Value.isWritable`).
-/

import Lisplet.Value
import Lisplet.Text.Quoted

namespace Lisplet

/-- The two written forms of a value. -/
inductive Style where
  | source
  | inspected
  deriving DecidableEq

/-- The items of a tuple between parentheses; a single one is followed by a
comma. -/
def tupleText : List String → String
  | [t] => "(" ++ t ++ ",)"
  | ts => "(" ++ String.intercalate ", " ts ++ ")"

/-- The text of a sequence that is no list, given the texts of its items. -/
def HostListKind.render : HostListKind → List String → String
  | .tuple, ts => tupleText ts
  | .other _ _ text, _ => text

/-- The source of a lambda whose body has a given source. -/
def lambdaText (formals : List Symbol) (body : String) : String :=
  "(lambda (" ++ String.intercalate " " (formals.map Symbol.name) ++ ") " ++ body ++ ")"

namespace Value

mutual

/-- The text of a value in a style. -/
def render : Style → Value → String
  | .source, .number n => n.source
  | .inspected, .number n => n.text
  | .source, .bool b => if b then "#t" else "#f"
  | .inspected, .bool b => if b then "True" else "False"
  | .source, .symbol x => x.name
  | .inspected, .symbol x => "Symbol(" ++ Text.quoted x.name ++ ")"
  | .source, .list items => "(" ++ String.intercalate " " (renderAll .source items) ++ ")"
  | .inspected, .list items => "[" ++ String.intercalate ", " (renderAll .inspected items) ++ "]"
  | .source, .lambda formals body _ => lambdaText formals (render .source body)
  | .inspected, .lambda formals body _ =>
    "<Lambda " ++ lambdaText formals (render .source body) ++ ">"
  | .source, .function f => "#<builtin " ++ f.name ++ ">"
  | .inspected, .function f => "<function " ++ f.name ++ ">"
  | _, .text t => Text.quoted t
  | _, .null => "None"
  | _, .hostList kind items => kind.render (renderAll .inspected items)
  | _, .unit => "#<unit>"

/-- The texts of a row of values. -/
def renderAll : Style → List Value → List String
  | _, [] => []
  | style, v :: rest => render style v :: renderAll style rest

end

/-- The program text of a value. -/
def source (v : Value) : String := render .source v

/-- The text that tells a value apart from all others. -/
def inspect (v : Value) : String := render .inspected v

mutual

/-- Whether a value can be written, in whatever style: the numbers in it have to
be writable. -/
def isWritable : Value → Bool
  | .number n => n.isWritable
  | .list items => areWritable items
  | .hostList _ items => areWritable items
  | .lambda _ body _ => isWritable body
  | _ => true

/-- Whether all values of a row can be written. -/
def areWritable : List Value → Bool
  | [] => true
  | v :: rest => isWritable v && areWritable rest

end

/-- The text of a value in a message. -/
def display : Value → String
  | .symbol x => x.name
  | .text t => t
  | v@(.lambda ..) => v.source
  | v => v.inspect

theorem renderAll_eq_map (style : Style) (items : List Value) :
    renderAll style items = items.map (render style) := by
  induction items with
  | nil => rfl
  | cons v rest ih => rw [renderAll, ih, List.map_cons]

end Value
end Lisplet
