/-
# The rules of the language

The meaning of an expression as a relation between a store, a frame, the
expression, what it ends in and the store that is left, apart from any way to
compute it: `Evaluates` for expressions, `EvaluatesAll` for rows of expressions
from left to right, `Applies` for the application of a value to arguments.
Every subexpression is evaluated in the store that the one before it left, and
an error ends the whole with the store as it is at that point.  What calls of host
functions end in is given (`HostReturns`).

The relation is given for a set `stop` of errors with which an evaluation may be
broken off before it does anything.  With no such error (`never`) these are the
rules of the language.  A bounded machine breaks off evaluations that are nested
too deeply; what holds of the rules with every `stop` holds of whatever such a
machine does, also when it gives up.  Breaking off always shows: an evaluation
that ends in no error of `stop` follows the rules alone (`Evaluates.unstopped`).
-/

import Lisplet.Evaluate

namespace Lisplet

/-- Whether a value is evaluated to itself: all are but symbols, lists and other
sequences. -/
def Value.isConstant : Value → Bool
  | .symbol _ => false
  | .list _ => false
  | .hostList _ _ => false
  | _ => true

/-- What calls of host functions end in, and the stores that they leave: a function, the
frame of the call, the arguments and the store are taken to results and stores. -/
abbrev HostReturns :=
  HostFunction → FrameId → List Value → Store → Except Error Value → Store → Prop

mutual

/-- `Evaluates returns stop s f e r s'`: evaluating `e` in the frame `f` of the store `s`
ends in `r` and leaves the store `s'`. -/
inductive Evaluates (returns : HostReturns) (stop : Error → Prop) :
    Store → FrameId → Value → Except Error Value → Store → Prop
  /-- A symbol has the value of its nearest binding. -/
  | bound (h : s.lookup? f x = some v) : Evaluates returns stop s f (.symbol x) (.ok v) s
  /-- A symbol without a binding has none. -/
  | unbound (h : s.lookup? f x = none) :
    Evaluates returns stop s f (.symbol x) (.error (.unbound x)) s
  /-- Other values that are no sequences are their own values. -/
  | constant (h : e.isConstant = true) : Evaluates returns stop s f e (.ok e) s
  /-- Any other sequence of the host is evaluated as the list of its items. -/
  | hostList (list : Evaluates returns stop s f (.list items) r s') :
    Evaluates returns stop s f (.hostList kind items) r s'
  /-- The empty list has no value. -/
  | empty : Evaluates returns stop s f (.list []) (.error .emptyList) s
  /-- `(begin e ...)` has the value of its last part, or unit if it has no part. -/
  | sequence (parts : EvaluatesAll returns stop s f es (.ok vs) s') :
    Evaluates returns stop s f (.list (.symbol Form.sequence.keyword :: es))
      (.ok (vs.getLastD .unit)) s'
  | sequenceError (parts : EvaluatesAll returns stop s f es (.error err) s') :
    Evaluates returns stop s f (.list (.symbol Form.sequence.keyword :: es)) (.error err) s'
  /-- `(define x e)` binds `x` in the frame to the value of `e`. -/
  | definition (value : Evaluates returns stop s f e (.ok v) s') :
    Evaluates returns stop s f (.list [.symbol Form.definition.keyword, .symbol x, e]) (.ok .unit)
      (s'.define f x v)
  | definitionError (value : Evaluates returns stop s f e (.error err) s') :
    Evaluates returns stop s f (.list [.symbol Form.definition.keyword, .symbol x, e])
      (.error err) s'
  /-- The target of a definition is checked before anything is evaluated. -/
  | definitionTarget (h : target.symbol? = none) :
    Evaluates returns stop s f (.list [.symbol Form.definition.keyword, target, e])
      (.error (.invalidName target)) s
  /-- The parts of a definition are counted before that. -/
  | definitionParts (h : parts.length ≠ 2) :
    Evaluates returns stop s f (.list (.symbol Form.definition.keyword :: parts))
      (.error .definitionParts) s
  /-- `(lambda (p ...) e)` creates a lambda in the frame. -/
  | abstraction :
    Evaluates returns stop s f
      (.list [.symbol Form.abstraction.keyword, .list (List.map .symbol formals), body])
      (.ok (.lambda formals body f)) s
  /-- The parameters are a list. -/
  | abstractionList (h : ∀ items, params ≠ .list items) :
    Evaluates returns stop s f (.list [.symbol Form.abstraction.keyword, params, body])
      (.error (.parametersNotList params)) s
  /-- The parameters are symbols; the first that is not is the one at fault. -/
  | abstractionSymbol (h : p.symbol? = none) :
    Evaluates returns stop s f
      (.list [.symbol Form.abstraction.keyword, .list (List.map .symbol formals ++ p :: rest),
        body])
      (.error (.parameterNotSymbol p)) s
  | abstractionParts (h : parts.length ≠ 2) :
    Evaluates returns stop s f (.list (.symbol Form.abstraction.keyword :: parts))
      (.error .abstractionParts) s
  /-- `(if test e e)` evaluates the first branch if the test is true. -/
  | conditionalTrue (test : Evaluates returns stop s f t (.ok v) s₁) (h : v.isTrue = true)
    (branch : Evaluates returns stop s₁ f a r s₂) :
    Evaluates returns stop s f (.list [.symbol Form.conditional.keyword, t, a, b]) r s₂
  /-- It evaluates the second one if the test is not true. -/
  | conditionalFalse (test : Evaluates returns stop s f t (.ok v) s₁) (h : v.isTrue = false)
    (branch : Evaluates returns stop s₁ f b r s₂) :
    Evaluates returns stop s f (.list [.symbol Form.conditional.keyword, t, a, b]) r s₂
  | conditionalError (test : Evaluates returns stop s f t (.error err) s') :
    Evaluates returns stop s f (.list [.symbol Form.conditional.keyword, t, a, b]) (.error err) s'
  | conditionalParts (h : parts.length ≠ 3) :
    Evaluates returns stop s f (.list (.symbol Form.conditional.keyword :: parts))
      (.error .conditionalParts) s
  /-- Every other list evaluates its head, then its operands, and then applies the
  value of the head to theirs. -/
  | combination (hf : head.form? = none) (fn : Evaluates returns stop s f head (.ok v) s₁)
    (operands : EvaluatesAll returns stop s₁ f es (.ok args) s₂)
    (call : Applies returns stop s₂ f v args r s₃) :
    Evaluates returns stop s f (.list (head :: es)) r s₃
  | headError (hf : head.form? = none) (fn : Evaluates returns stop s f head (.error err) s') :
    Evaluates returns stop s f (.list (head :: es)) (.error err) s'
  | operandError (hf : head.form? = none) (fn : Evaluates returns stop s f head (.ok v) s₁)
    (operands : EvaluatesAll returns stop s₁ f es (.error err) s₂) :
    Evaluates returns stop s f (.list (head :: es)) (.error err) s₂
  /-- An evaluation may be broken off before it does anything. -/
  | stopped (h : stop err) : Evaluates returns stop s f e (.error err) s

/-- `EvaluatesAll returns stop s f es r s'`: evaluating the row `es` from left to right, each
expression once, ends in `r` and leaves the store `s'`. -/
inductive EvaluatesAll (returns : HostReturns) (stop : Error → Prop) :
    Store → FrameId → List Value → Except Error (List Value) → Store → Prop
  | nil : EvaluatesAll returns stop s f [] (.ok []) s
  | cons (first : Evaluates returns stop s f e (.ok v) s₁)
    (others : EvaluatesAll returns stop s₁ f es (.ok vs) s₂) :
    EvaluatesAll returns stop s f (e :: es) (.ok (v :: vs)) s₂
  | firstError (first : Evaluates returns stop s f e (.error err) s') :
    EvaluatesAll returns stop s f (e :: es) (.error err) s'
  | othersError (first : Evaluates returns stop s f e (.ok v) s₁)
    (others : EvaluatesAll returns stop s₁ f es (.error err) s₂) :
    EvaluatesAll returns stop s f (e :: es) (.error err) s₂

/-- `Applies returns stop s f v args r s'`: applying the value `v` to arguments in a call from
the frame `f` ends in `r` and leaves the store `s'`. -/
inductive Applies (returns : HostReturns) (stop : Error → Prop) :
    Store → FrameId → Value → List Value → Except Error Value → Store → Prop
  /-- A lambda evaluates its body in a new frame inside the frame it was created
  in; the frame of the call plays no part. -/
  | lambda (h : args.length = formals.length)
    (body : Evaluates returns stop
      (s.push ⟨Bindings.empty.insertAll (formals.zip args), some captured⟩) s.next e r s') :
    Applies returns stop s f (.lambda formals e captured) args r s'
  /-- The arguments of a lambda are counted before a frame is made. -/
  | lambdaCount (h : args.length ≠ formals.length) :
    Applies returns stop s f (.lambda formals e captured) args
      (.error (.argumentCount formals e args.length)) s
  /-- An operator computes from its arguments alone. -/
  | operator : Applies returns stop s f (.function (.operator op)) args (op.apply args) s
  /-- A host function is called with the frame of the call, and what it returns is not
  evaluated again. -/
  | host (h : returns fn f args s r s') :
    Applies returns stop s f (.function (.host fn)) args r s'
  /-- Nothing else can be applied. -/
  | notFunction (hl : ∀ formals e captured, v ≠ .lambda formals e captured)
    (hf : ∀ fn, v ≠ .function fn) : Applies returns stop s f v args (.error (.notFunction v)) s

end

/-- No error at all. -/
def never (_ : Error) : Prop := False

theorem Value.symbol?_eq_some_iff {v : Value} {x : Symbol} :
    v.symbol? = some x ↔ v = .symbol x := by
  constructor
  · intro h
    cases v with
    | symbol y => rw [Option.some.inj h]
    | _ => cases h
  · rintro rfl
    rfl

/-- A form is headed by its keyword and by nothing else. -/
theorem Value.form?_eq_some_iff {head : Value} {form : Form} :
    head.form? = some form ↔ head = .symbol form.keyword := by
  constructor
  · intro h
    obtain ⟨x, hx, hform⟩ := Option.bind_eq_some_iff.1 h
    obtain rfl := Value.symbol?_eq_some_iff.1 hx
    rw [Form.keyword_of_ofSymbol? hform]
  · rintro rfl
    exact Form.ofSymbol?_keyword form

@[simp] theorem Value.form?_keyword (form : Form) :
    Value.form? (.symbol form.keyword) = some form := Value.form?_eq_some_iff.2 rfl

/-! ### Breaking off always shows -/

/-- What calls end in by one relation, errors of `stop` aside, they end in by another
one. -/
def HostReturns.Refines (returns : HostReturns) (stop : Error → Prop) (returns' : HostReturns) :
    Prop :=
  ∀ fn f args s r s', returns fn f args s r s' → (∀ err, r = .error err → ¬ stop err) →
    returns' fn f args s r s'

variable {returns returns' : HostReturns} {stop : Error → Prop}

mutual

/-- **An evaluation that ends in no error of `stop` follows the rules alone**, and so do its
calls of host functions. -/
theorem Evaluates.unstopped (hret : returns.Refines stop returns') :
    Evaluates returns stop s f e r s' →
    (∀ err, r = .error err → ¬ stop err) → Evaluates returns' never s f e r s'
  | .bound h, _ => .bound h
  | .unbound h, _ => .unbound h
  | .constant h, _ => .constant h
  | .hostList list, hr => .hostList (list.unstopped hret hr)
  | .empty, _ => .empty
  | .sequence parts, _ => .sequence (parts.unstopped hret nofun)
  | .sequenceError parts, hr => .sequenceError (parts.unstopped hret (by simpa using hr))
  | .definition value, _ => .definition (value.unstopped hret nofun)
  | .definitionError value, hr => .definitionError (value.unstopped hret hr)
  | .definitionTarget h, _ => .definitionTarget h
  | .definitionParts h, _ => .definitionParts h
  | .abstraction, _ => .abstraction
  | .abstractionList h, _ => .abstractionList h
  | .abstractionSymbol h, _ => .abstractionSymbol h
  | .abstractionParts h, _ => .abstractionParts h
  | .conditionalTrue test h branch, hr =>
    .conditionalTrue (test.unstopped hret nofun) h (branch.unstopped hret hr)
  | .conditionalFalse test h branch, hr =>
    .conditionalFalse (test.unstopped hret nofun) h (branch.unstopped hret hr)
  | .conditionalError test, hr => .conditionalError (test.unstopped hret hr)
  | .conditionalParts h, _ => .conditionalParts h
  | .combination hf fn operands call, hr =>
    .combination hf (fn.unstopped hret nofun) (operands.unstopped hret nofun)
      (call.unstopped hret hr)
  | .headError hf fn, hr => .headError hf (fn.unstopped hret hr)
  | .operandError hf fn operands, hr =>
    .operandError hf (fn.unstopped hret nofun) (operands.unstopped hret (by simpa using hr))
  | .stopped h, hr => absurd h (hr _ rfl)

theorem EvaluatesAll.unstopped (hret : returns.Refines stop returns') :
    EvaluatesAll returns stop s f es r s' →
    (∀ err, r = .error err → ¬ stop err) → EvaluatesAll returns' never s f es r s'
  | .nil, _ => .nil
  | .cons first others, _ => .cons (first.unstopped hret nofun) (others.unstopped hret nofun)
  | .firstError first, hr => .firstError (first.unstopped hret (by simpa using hr))
  | .othersError first others, hr =>
    .othersError (first.unstopped hret nofun) (others.unstopped hret hr)

theorem Applies.unstopped (hret : returns.Refines stop returns') :
    Applies returns stop s f v args r s' →
    (∀ err, r = .error err → ¬ stop err) → Applies returns' never s f v args r s'
  | .lambda h body, hr => .lambda h (body.unstopped hret hr)
  | .lambdaCount h, _ => .lambdaCount h
  | .operator, _ => .operator
  | .host h, hr => .host (hret _ _ _ _ _ _ h hr)
  | .notFunction hl hf, _ => .notFunction hl hf

end

end Lisplet
