/-
# Forms

A list whose head is one of four keywords is a *form*: it is evaluated by a rule
of its own, whatever the keyword may be bound to.  Every other list is a
combination: a function and its arguments.
-/

import Lisplet.Value

namespace Lisplet

/-- The forms that are evaluated by rules of their own. -/
inductive Form where
  /-- `(begin e ...)`: evaluates in order, the last value counts. -/
  | sequence
  /-- `(define x e)`: binds in the current frame. -/
  | definition
  /-- `(lambda (p ...) e)`: creates a lambda. -/
  | abstraction
  /-- `(if e e e)`: evaluates one of two branches. -/
  | conditional
  deriving DecidableEq, Repr

namespace Form

/-- The symbol that heads a form. -/
def keyword : Form → Symbol
  | .sequence => ⟨"begin"⟩
  | .definition => ⟨"define"⟩
  | .abstraction => ⟨"lambda"⟩
  | .conditional => ⟨"if"⟩

/-- All forms. -/
def all : List Form := [.sequence, .definition, .abstraction, .conditional]

/-- The form that a symbol heads, if it is a keyword. -/
def ofSymbol? (x : Symbol) : Option Form := all.find? fun form => decide (form.keyword = x)

theorem ofSymbol?_keyword (form : Form) : ofSymbol? form.keyword = some form := by
  cases form <;> decide

theorem keyword_of_ofSymbol? {x : Symbol} {form : Form} (h : ofSymbol? x = some form) :
    form.keyword = x := by
  simpa using List.find?_some (show all.find? (fun form => decide (form.keyword = x)) = _ from h)

end Form

/-- The form that an expression heads: it has to be a keyword. -/
def Value.form? (head : Value) : Option Form := head.symbol?.bind Form.ofSymbol?

end Lisplet
