/-
# Evaluation

A symbol has the value of its nearest binding.  A list is a form, if a keyword
heads it, or else a combination: the head is evaluated, then each operand from
left to right, and then the value of the head is applied to those of the
operands.  A lambda evaluates its body in a fresh frame inside the frame it was
created in; a function of the host is called with the frame of the call.  Tuples and
other sequences of the host are evaluated as the lists of their items, and every value
that is neither a symbol nor a sequence is its own value.

The parts of a form are counted and checked before any of them is evaluated.

Evaluation is bounded by the depth of its nesting, so it always ends: `step` is
one level of it, given the evaluation of what is nested inside, and `evaluate`
stacks as many levels as it is allowed.  What the functions of the host do is given
(`Host`).
-/

import Lisplet.Builtin
import Lisplet.Form
import Lisplet.Host

namespace Lisplet
namespace Evaluate

/-- The values of a row of expressions, evaluated from left to right. -/
def operands (eval : Evaluator) (frame : FrameId) : List Value → Eval (List Value)
  | [] => pure []
  | e :: rest => do
    let v ← eval e frame
    let vs ← operands eval frame rest
    pure (v :: vs)

/-- Evaluates a row of expressions in order; the result is the value of the last
one, or else the value given. -/
def sequence (eval : Evaluator) (frame : FrameId) : Value → List Value → Eval Value
  | last, [] => pure last
  | _, e :: rest => do
    let v ← eval e frame
    sequence eval frame v rest

/-- Applies a value to arguments in the frame of the call. -/
def apply (host : Host) (eval : Evaluator) (frame : FrameId) (fn : Value) (args : List Value) :
    Eval Value :=
  match fn with
  | .lambda formals body captured => do
    let inner ← Eval.extend formals body captured args
    Eval.record (.applied formals body args)
    eval body inner
  | .function (.operator op) => Eval.ofExcept (op.apply args)
  | .function (.host f) => host.call f eval frame args
  | v => throw (.notFunction v)

/-- The parameters that a value lists: it has to be a list of symbols. -/
def parameters : Value → Except Error (List Symbol)
  | .list items => items.mapM fun item =>
    match item.symbol? with
    | some x => .ok x
    | none => .error (.parameterNotSymbol item)
  | v => .error (.parametersNotList v)

/-- `(define x e)`: binds a symbol in the frame to the value of an expression. -/
def definition (eval : Evaluator) (frame : FrameId) : List Value → Eval Value
  | [target, e] =>
    match target.symbol? with
    | none => throw (.invalidName target)
    | some x => do
      let v ← eval e frame
      Eval.assign frame x v
      if ((← get).store.outer? frame).isNone then Eval.record (.defined x)
      pure .unit
  | _ => throw .definitionParts

/-- `(lambda (p ...) e)`: creates a lambda in the frame. -/
def abstraction (frame : FrameId) : List Value → Eval Value
  | [params, body] => do
    let formals ← Eval.ofExcept (parameters params)
    pure (.lambda formals body frame)
  | _ => throw .abstractionParts

/-- `(if test e e)`: evaluates the first branch if the test is true, the second
if not. -/
def conditional (eval : Evaluator) (frame : FrameId) : List Value → Eval Value
  | [test, consequent, alternate] => do
    if (← eval test frame).isTrue then eval consequent frame else eval alternate frame
  | _ => throw .conditionalParts

/-- A form with its parts. -/
def form (eval : Evaluator) (frame : FrameId) : Form → List Value → Eval Value
  | .sequence, parts => sequence eval frame .unit parts
  | .definition, parts => definition eval frame parts
  | .abstraction, parts => abstraction frame parts
  | .conditional, parts => conditional eval frame parts

/-- A list: a form or a combination. -/
def list (host : Host) (eval : Evaluator) (frame : FrameId) : List Value → Eval Value
  | [] => throw .emptyList
  | head :: tail =>
    match head.form? with
    | some keyword => form eval frame keyword tail
    | none => do
      let fn ← eval head frame
      let args ← operands eval frame tail
      apply host eval frame fn args

/-- One level of evaluation. -/
def step (host : Host) (eval : Evaluator) (expr : Value) (frame : FrameId) : Eval Value :=
  match expr with
  | .symbol x => Eval.lookup frame x
  | .list items => list host eval frame items
  | .hostList _ items => list host eval frame items
  | v => pure v

end Evaluate

/-- The value of an expression in a frame, evaluation being nested at most
`depth` deep. -/
def evaluate (host : Host) : (depth : Nat) → Value → FrameId → Eval Value
  | 0, _, _ => throw .tooDeep
  | depth + 1, expr, frame => Evaluate.step host (evaluate host depth) expr frame

end Lisplet
