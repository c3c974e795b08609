/-
# Host functions

Functions that a host program adds to the operators.  What they do is not known
here: a host is given by what calls of its functions do (`Host`).  A call gets the
evaluation of what is nested inside of it, the frame that it is made from and the
values of the arguments; it may evaluate expressions, look at the errors that these
end in, read and change the machine, return any value and raise any error.  What it
returns is not evaluated again.

Two hosts are at hand: `Host.none`, which has no functions, and `Host.standard`, which
has five small ones.
-/

import Lisplet.Machine

namespace Lisplet

/-- A way to evaluate an expression in a frame. -/
abbrev Evaluator := Value → FrameId → Eval Value

/-- What a call of one function does, given the evaluation of what is nested inside of
it, the frame of the call and the values of the arguments. -/
abbrev HostCall := Evaluator → FrameId → List Value → Eval Value

/-- What calls of the functions of a host program do. -/
structure Host where
  /-- What a call of a function does. -/
  call : HostFunction → HostCall

/-- A value taken twice: a number is doubled, a truth value counting as one or
zero; a text, list or tuple is repeated.  Nothing else can be taken twice. -/
def Value.twice? : Value → Option Value
  | .number (.int n) => some (.int (n * 2))
  | .number (.float x) => some (.float (x.add x))
  | .bool b => some (.int (if b then 2 else 0))
  | .text t => some (.text (t ++ t))
  | .list items => some (.list (items ++ items))
  | .hostList .tuple items => some (.hostList .tuple (items ++ items))
  | _ => none

namespace HostFunction

/-- The number of arguments. -/
def count : HostFunction := ⟨"count", 0⟩

/-- The first argument taken twice. -/
def twice : HostFunction := ⟨"twice", 0⟩

/-- The arguments as a list. -/
def listing : HostFunction := ⟨"listing", 0⟩

/-- The number of frames around the calling frame. -/
def depth : HostFunction := ⟨"depth", 0⟩

/-- Binds `here` to the first argument in the calling frame. -/
def here : HostFunction := ⟨"here", 0⟩

end HostFunction

namespace HostCall

/-- A call of a function that is not there. -/
def missing (f : HostFunction) : HostCall := fun _ _ _ => throw (.raised f "no such function")

/-- A call of a function that needs an argument. -/
def withFirst (f : HostFunction) (call : FrameId → Value → Eval Value) : HostCall :=
  fun _ frame args =>
    match args with
    | v :: _ => call frame v
    | [] => throw (.missingArgument f)

/-- A call of `HostFunction.count`. -/
def count : HostCall := fun _ _ args => pure (.int args.length)

/-- A call of `HostFunction.twice`. -/
def twice : HostCall := withFirst .twice fun _ v =>
  match v.twice? with
  | some w => pure w
  | none => throw (.unsuitable .twice v)

/-- A call of `HostFunction.listing`. -/
def listing : HostCall := fun _ _ args => pure (.list args)

/-- A call of `HostFunction.depth`. -/
def depth : HostCall := fun _ frame _ => do pure (.int ((← get).store.depth frame))

/-- A call of `HostFunction.here`. -/
def here : HostCall := withFirst .here fun frame v => do
  Eval.assign frame ⟨"here"⟩ v
  pure .unit

end HostCall

namespace Host

/-- The host with the functions of a table. -/
def ofTable (table : List (HostFunction × HostCall)) : Host where
  call f := (table.lookup f).getD (.missing f)

/-- The host without functions. -/
def none : Host := ofTable []

/-- The host with five small functions. -/
def standard : Host := ofTable
  [(.count, .count), (.twice, .twice), (.listing, .listing), (.depth, .depth), (.here, .here)]

/-- What is true of the calls in a table, and of those of missing functions, is true of the
calls of its host. -/
theorem call_ofTable {P : HostCall → Prop} {table : List (HostFunction × HostCall)}
    (h : ∀ entry ∈ table, P entry.2) (hmissing : ∀ f, P (.missing f)) (f : HostFunction) :
    P ((ofTable table).call f) := by
  show P ((table.lookup f).getD (.missing f))
  cases hf : table.lookup f with
  | none => exact hmissing f
  | some call =>
    obtain ⟨front, back, rfl, -⟩ := List.lookup_eq_some_iff.1 hf
    exact h (f, call) (by simp)

/-- What is true of its five calls, and of those of missing functions, is true of the calls
of the standard host. -/
theorem call_standard {P : HostCall → Prop} (count : P .count) (twice : P .twice)
    (listing : P .listing) (depth : P .depth) (here : P .here) (missing : ∀ f, P (.missing f))
    (f : HostFunction) : P (standard.call f) := by
  refine call_ofTable (fun entry hentry => ?_) missing f
  simp only [List.mem_cons, List.not_mem_nil, or_false] at hentry
  rcases hentry with rfl | rfl | rfl | rfl | rfl
  · exact count
  · exact twice
  · exact listing
  · exact depth
  · exact here

end Host
end Lisplet
