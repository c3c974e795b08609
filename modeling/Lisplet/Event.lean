/-
# Traces

With tracing on, the machine records what it does: the forms it starts, the
lambdas it applies, the definitions it makes in a frame that has no outer one,
and the tokens it ignores behind a single expression.

A trace that is only kept never changes what is computed.  One that is written
while it grows needs the text of each event at once, and an argument that cannot
be written then stops the application that shows it (`Tracing.written`).
-/

import Lisplet.Value.Text

namespace Lisplet

/-- What is recorded in a trace. -/
inductive Event where
  /-- A form of a program is about to be evaluated. -/
  | started (form : Value)
  /-- A lambda got as many arguments as it has parameters, and its body is about
  to be evaluated. -/
  | applied (formals : List Symbol) (body : Value) (args : List Value)
  /-- A symbol was bound by a definition in a frame that has no outer one. -/
  | defined (x : Symbol)
  /-- Tokens behind the one expression that was asked for were ignored. -/
  | ignored (tokens : List String)

/-- What is done about events. -/
inductive Tracing where
  /-- Nothing. -/
  | off
  /-- They are kept. -/
  | kept
  /-- They are kept and written at once: one that cannot be written is an error. -/
  | written
  deriving DecidableEq, Repr

/-- The text of a record. -/
def Event.message : Event → String
  | .started form => "eval " ++ form.inspect
  | .applied formals body args =>
    "apply " ++ lambdaText formals body.source ++ " to " ++ (Value.list args).inspect
  | .defined x => "define " ++ x.name ++ " at top level"
  | .ignored tokens =>
    "parse ignored " ++ toString tokens.length ++ " trailing token(s): " ++
      (Value.list (tokens.map .text)).inspect

/-- The values that the text of a record shows. -/
def Event.shown : Event → List Value
  | .started form => [form]
  | .applied _ body args => body :: args
  | .defined _ => []
  | .ignored _ => []

/-- Whether the text of a record can be written. -/
def Event.isWritable (event : Event) : Bool := event.shown.all Value.isWritable

end Lisplet
