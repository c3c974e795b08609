/-
# Sessions

A session evaluates source texts in one frame, so that definitions persist from
text to text.  A text is read as a whole before any of it is evaluated; then its
forms are evaluated in order up to the first that fails, and the effects of
those before it stay.
-/

import Lisplet.Evaluate
import Lisplet.Reader.Tree

namespace Lisplet
namespace Session

/-- The frame in which expressions are evaluated when no other is named. -/
def globalFrame : FrameId := 0

/-- How deep evaluation may be nested when no other depth is named. -/
def standardDepth : Nat := 10000

/-- A machine whose one frame holds the builtins. -/
def fresh (tracing : Tracing) : Machine :=
  ⟨Store.empty.push ⟨.initial, none⟩, tracing, #[]⟩

/-- Creates a frame with the builtins and no frame around it. -/
def newRoot : Eval FrameId := Eval.newFrame .initial none

/-- Binds the builtins in a frame. -/
def register (frame : FrameId) : Eval Unit :=
  builtins.forM fun (x, v) => Eval.assign frame x v

/-- The first expression of a source text; tokens behind it are ignored. -/
def readOne (source : String) : Eval Value := do
  let (outcome, rest) := Reader.readExpr (Reader.tokenize source)
  let tree ← Eval.ofExcept outcome
  if !rest.isEmpty then Eval.record (.ignored rest)
  pure tree

/-- Evaluates forms in order; the result is the value of the last one. -/
def runForms (host : Host) (depth : Nat) (frame : FrameId) : Value → List Value → Eval Value
  | last, [] => pure last
  | _, form :: rest => do
    Eval.record (.started form)
    let v ← evaluate host depth form frame
    runForms host depth frame v rest

/-- Evaluates a source text in a frame; the result is the value of its last
form, or unit if it holds none. -/
def run (host : Host) (depth : Nat) (frame : FrameId) (source : String) : Eval Value := do
  let forms ← Eval.ofExcept (Reader.readAll (Reader.tokenize source)).1
  runForms host depth frame .unit forms

end Session
end Lisplet
