/-
# Machines

What evaluation works on: the store of frames and, when tracing is on, a record
of what was done.  A computation ends in a value or in an error, and in both
cases the machine stays as the computation left it.
-/

import Lisplet.Error
import Lisplet.Event
import Lisplet.Store

namespace Lisplet

/-- The state of evaluation. -/
structure Machine where
  /-- All frames. -/
  store : Store
  /-- What is done about events. -/
  tracing : Tracing
  /-- The recorded events, the earliest first. -/
  trace : Array Event

/-- Computations on a machine that end in a value or an error. -/
abbrev Eval := EStateM Error Machine

namespace Eval

/-- The outcome of a computation that does not touch the machine. -/
def ofExcept : Except Error α → Eval α
  | .ok a => pure a
  | .error e => throw e

/-- Puts an event at the end of the trace. -/
def keep (event : Event) : Eval Unit :=
  modify fun m => { m with trace := m.trace.push event }

/-- Records an event, if tracing is on. -/
def record (event : Event) : Eval Unit := do
  match (← get).tracing with
  | .off => pure ()
  | .kept => keep event
  | .written => if event.isWritable then keep event else throw .unwritable

/-- A result that shows values; it fails if one of them cannot be written. -/
def showing (values : List Value) (result : α) : Eval α :=
  if values.all Value.isWritable then pure result else throw .unwritable

/-- The value of a symbol in a frame. -/
def lookup (f : FrameId) (x : Symbol) : Eval Value := do
  match (← get).store.lookup? f x with
  | some v => pure v
  | none => throw (.unbound x)

/-- Binds a symbol in a frame. -/
def assign (f : FrameId) (x : Symbol) (v : Value) : Eval Unit :=
  modify fun m => { m with store := m.store.define f x v }

/-- Binds a name in a frame; the name has to be a symbol. -/
def define (f : FrameId) (name : Value) (v : Value) : Eval Unit :=
  match name.symbol? with
  | some x => assign f x v
  | none => throw (.invalidName name)

/-- Binds the pairs of a mapping in a frame, one after another; those before a
name that is not a symbol are kept. -/
def update (f : FrameId) : List (Value × Value) → Eval Unit
  | [] => pure ()
  | (name, v) :: rest => do
    define f name v
    update f rest

/-- Creates a frame. -/
def newFrame (bindings : Bindings) (outer : Option FrameId) : Eval FrameId :=
  modifyGet fun m => (m.store.next, { m with store := m.store.push ⟨bindings, outer⟩ })

/-- Creates the frame in which a lambda's body is evaluated: inside the frame it
was created in, with each parameter bound to its argument, the last one counting
if a parameter is repeated. -/
def extend (formals : List Symbol) (body : Value) (captured : FrameId) (args : List Value) :
    Eval FrameId :=
  if args.length = formals.length then
    newFrame (Bindings.empty.insertAll (formals.zip args)) (some captured)
  else throw (.argumentCount formals body args.length)

end Eval
end Lisplet
