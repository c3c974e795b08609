/-
# Errors

Every way in which reading, evaluating or binding can fail is one constructor of
`Error`, named for its cause and holding what the message tells.  `Error.kind`
sorts errors into the classes that a program can tell apart.  The class is that
of the cause, unless the message shows a value that cannot be written: then the
failure to write it is what a program sees.
-/

import Lisplet.Value.Text

namespace Lisplet

/-- The classes of errors. -/
inductive ErrorKind where
  /-- The text is not a row of expressions. -/
  | reading
  /-- A symbol has no binding. -/
  | unbound
  /-- Something else than a symbol is to be bound. -/
  | invalidName
  /-- A value is of the wrong kind. -/
  | type
  /-- The number of arguments or operands is wrong. -/
  | arity
  /-- A whole number is too large for a double. -/
  | overflow
  /-- A host function lacks its argument. -/
  | missingArgument
  /-- An error of the host, as of an operation that does not take a value of this kind. -/
  | host
  /-- Evaluation is nested too deeply. -/
  | depth
  /-- A whole number has too many digits to be written. -/
  | writing
  deriving DecidableEq, Repr

/-- The causes of errors. -/
inductive Error where
  /-- The tokens end where an expression has to begin. -/
  | unexpectedEnd
  /-- A closing parenthesis stands where an expression has to begin. -/
  | unexpectedClose
  /-- A symbol is not bound in any frame of the chain. -/
  | unbound (x : Symbol)
  /-- A value that is not a symbol is to be bound. -/
  | invalidName (v : Value)
  /-- The empty list is evaluated. -/
  | emptyList
  /-- A value that is not a function is applied. -/
  | notFunction (v : Value)
  /-- An operator gets an argument that is not a number. -/
  | notNumber (op : Operator) (v : Value)
  /-- The parameters of a lambda form are not a list. -/
  | parametersNotList (v : Value)
  /-- A parameter of a lambda form is not a symbol. -/
  | parameterNotSymbol (v : Value)
  /-- A definition has another number of parts than two. -/
  | definitionParts
  /-- A lambda form has another number of parts than two. -/
  | abstractionParts
  /-- A conditional has another number of parts than three. -/
  | conditionalParts
  /-- An arithmetic operator gets no argument. -/
  | noArgument (op : Arithmetic)
  /-- A comparison gets another number of arguments than two. -/
  | notTwoArguments (op : Comparison) (given : Nat)
  /-- A lambda gets another number of arguments than it has parameters. -/
  | argumentCount (formals : List Symbol) (body : Value) (given : Nat)
  /-- A whole number is too large for a double. -/
  | overflow
  /-- A host function lacks its first argument. -/
  | missingArgument (f : HostFunction)
  /-- A host function does not take this argument. -/
  | unsuitable (f : HostFunction) (v : Value)
  /-- A host function raises an error of its own. -/
  | raised (f : HostFunction) (text : String)
  /-- A value cannot be the key of a mapping. -/
  | unsuitableKey (v : Value)
  /-- Evaluation is nested too deeply. -/
  | tooDeep
  /-- A value has to be written that cannot be. -/
  | unwritable

namespace Error

/-- The class that the cause of an error belongs to. -/
def causeKind : Error → ErrorKind
  | .unexpectedEnd | .unexpectedClose => .reading
  | .unbound _ => .unbound
  | .invalidName _ => .invalidName
  | .emptyList | .notFunction _ | .notNumber .. => .type
  | .parametersNotList _ | .parameterNotSymbol _ => .type
  | .definitionParts | .abstractionParts | .conditionalParts => .arity
  | .noArgument _ | .notTwoArguments .. | .argumentCount .. => .arity
  | .overflow => .overflow
  | .missingArgument _ => .missingArgument
  | .unsuitable .. | .raised .. | .unsuitableKey _ => .host
  | .tooDeep => .depth
  | .unwritable => .writing

/-- The values that the message of an error shows. -/
def shown : Error → List Value
  | .invalidName v | .notFunction v | .notNumber _ v => [v]
  | .parametersNotList v | .parameterNotSymbol v => [v]
  | .argumentCount _ body _ => [body]
  | _ => []

/-- The class of an error. -/
def kind (e : Error) : ErrorKind :=
  if e.shown.all Value.isWritable then e.causeKind else .writing

/-- If the values that its message shows can be written, an error is of the class of its cause. -/
theorem kind_of_isWritable {e : Error} (h : ∀ v ∈ e.shown, v.isWritable = true) :
    e.kind = e.causeKind :=
  if_pos (List.all_eq_true.2 h)

/-- If one of them cannot be written, that is the error. -/
theorem kind_of_not_isWritable {e : Error} (h : ∃ v ∈ e.shown, v.isWritable = false) :
    e.kind = .writing := by
  obtain ⟨v, hv, hw⟩ := h
  refine if_neg fun hall => ?_
  rw [List.all_eq_true.1 hall v hv] at hw
  cases hw

/-- The class of an error is that of its cause, or it cannot be written. -/
theorem causeKind_of_kind {e : Error} {k : ErrorKind} (h : e.kind = k) (hk : k ≠ .writing) :
    e.causeKind = k := by
  rw [kind] at h
  split at h
  · exact h
  · exact absurd h.symm hk

/-- An error that shows one value is of the class of its cause if the value can be written. -/
theorem kind_of_shown_eq {e : Error} {v : Value} (h : e.shown = [v]) :
    e.kind = if v.isWritable = true then e.causeKind else .writing := by
  rw [kind, h, List.all_cons, List.all_nil, Bool.and_true]

/-- So its class depends on its cause, and on whether the value can be written. -/
theorem kind_congr {e e' : Error} {v v' : Value} (hcause : e.causeKind = e'.causeKind)
    (hv : e.shown = [v]) (hv' : e'.shown = [v']) (h : v.isWritable = v'.isWritable) :
    e.kind = e'.kind := by
  rw [kind_of_shown_eq hv, kind_of_shown_eq hv', hcause, h]

/-- An error of the class of symbols without a binding is the error of one. -/
theorem exists_of_kind_eq_unbound {e : Error} (h : e.kind = .unbound) : ∃ x, e = .unbound x := by
  have hcause := causeKind_of_kind h nofun
  cases e with
  | unbound x => exact ⟨x, rfl⟩
  | _ => cases hcause

/-- The class of evaluation that is nested too deeply has one error. -/
theorem kind_eq_depth_iff {e : Error} : e.kind = .depth ↔ e = .tooDeep := by
  refine ⟨fun h => ?_, fun h => h ▸ rfl⟩
  have hcause := causeKind_of_kind h nofun
  cases e with
  | tooDeep => rfl
  | _ => cases hcause

/-- An error of reading shows no value. -/
theorem shown_of_kind_eq_reading {e : Error} (h : e.kind = .reading) : e.shown = [] := by
  have hcause := causeKind_of_kind h nofun
  cases e with
  | unexpectedEnd | unexpectedClose => rfl
  | _ => cases hcause

/-- The text of an error. -/
def message : Error → String
  | .unexpectedEnd => "Unexpected end of input"
  | .unexpectedClose => "Unexpected ')'"
  | .unbound x => "Unbound symbol: " ++ x.name
  | .invalidName v => "Cannot define " ++ v.inspect ++ " as a symbol"
  | .emptyList => "Cannot evaluate an empty list"
  | .notFunction v => "Cannot apply non-function " ++ v.inspect
  | .notNumber op v => "All arguments to " ++ op.symbol ++ " must be numbers, got " ++ v.inspect
  | .parametersNotList v => "lambda parameter list must be a list, got " ++ v.inspect
  | .parameterNotSymbol v => "lambda parameter must be a symbol, got " ++ v.inspect
  | .definitionParts => "define requires exactly 2 arguments"
  | .abstractionParts => "lambda requires a parameter list and a single body expression"
  | .conditionalParts => "if requires a test, a consequent and an alternate"
  | .noArgument op => op.symbol ++ " requires at least 1 argument"
  | .notTwoArguments op given =>
    op.symbol ++ " requires exactly 2 arguments, got " ++ toString given
  | .argumentCount formals body given =>
    lambdaText formals body.source ++ " expects " ++ toString formals.length ++
      " argument(s), got " ++ toString given
  | .overflow => "number too large for a double"
  | .missingArgument f => f.name ++ " requires an argument"
  | .unsuitable f _ => f.name ++ " does not take an argument of this kind"
  | .raised _ text => text
  | .unsuitableKey _ => "a value of this kind cannot be a key"
  | .tooDeep => "evaluation is nested too deeply"
  | .unwritable => "a whole number has too many digits to be written"

end Error
end Lisplet
