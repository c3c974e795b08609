/-
# Evaluation and the rules agree

Whatever the rules of the language derive, evaluation ends in it as soon as it is
allowed to nest deeply enough, and from then on at every greater depth
(`Evaluates.eventually`).  The depth that is needed is one more than the greatest
depth needed by the parts of the derivation, so the proof is by recursion on the
derivation, and each rule takes what its parts need for granted.

With the other direction (`evaluate_follows`) evaluation and the rules agree in
what they end in and in the store that they leave (`evaluate_adequate`).  Nothing
that the rules derive is an evaluation that gave up (`Evaluates.not_tooDeep`), so
an expression that the rules give no outcome is one that no depth suffices for.

What the rules are given about host functions is what their calls return when the
evaluation inside of them is not broken off (`Host.Returns`).  That this is one thing
at all depths and on all machines with the same store is a condition on the functions:
they are blind to limits and traces (`Host.Blind`).
-/

import Mathlib.Order.Filter.AtTopBot.Basic
import Lisplet.Proofs.Approximation
import Lisplet.Proofs.Operator
import Lisplet.Proofs.Soundness

namespace Lisplet

open Eval Evaluate Filter

variable {host : Host}

/-! ### Host functions that are blind to limits and traces -/

/-- Two machines have the same store; the one treats events in the way `t`, the other one in
the way `t'`. -/
def Machine.SameStore (t t' : Tracing) (m n : Machine) : Prop :=
  m.store = n.store ∧ m.tracing = t ∧ n.tracing = t'

/-- If the second machine does not write its trace, then what is recorded on both either breaks
off the first one or tells them apart in their traces alone. -/
theorem Machine.indistinct_sameStore {t t' : Tracing} (ht' : t' ≠ .written) :
    Machine.Indistinct (Machine.SameStore t t') (BreaksOff t) where
  store_eq h := h.1
  write _ h := ⟨rfl, h.2⟩
  record event := by
    rintro m n ⟨hstore, rfl, rfl⟩
    obtain ⟨trace', hn | ⟨hwritten, -⟩⟩ := outcome_record event n
    · rw [hn]
      obtain ⟨trace, hm | ⟨hwritten, -, hm⟩⟩ := outcome_record event m
      · rw [hm]
        exact .inr ⟨rfl, hstore, rfl, rfl⟩
      · rw [hm]
        exact .inl ⟨_, .inr ⟨hwritten, rfl⟩, rfl⟩
    · exact absurd hwritten ht'

/-- Host functions are blind: they leave it to the machine how events are treated, and unless
it is broken off, a call ends in the same and leaves the same store on machines with the same
store, whatever their traces, and wherever the evaluation inside of it is broken off. -/
structure Host.Blind (host : Host) : Prop where
  keepsTracing : host.KeepsTracing
  approximates : ∀ t t', t' ≠ .written →
    Host.Approximates (Machine.SameStore t t') (BreaksOff t) host host

theorem Host.blind_standard : Host.standard.Blind where
  keepsTracing := Host.keepsTracing_standard
  approximates _ _ ht' := Host.approximates_standard (Machine.indistinct_sameStore ht')

/-- What a call of a host function returns: what it ends in from some depth of the evaluation
inside of it on. -/
def Host.Returns (host : Host) : HostReturns := fun fn f args s r s' =>
  r ≠ .error .tooDeep ∧
    ∃ d, ∀ depth, d ≤ depth → Yields (host.call fn (evaluate host depth) f args) s r s'

/-- What a call of a blind host function comes to somewhere, without being broken off, is what
it returns. -/
theorem Host.Blind.refines (hhost : host.Blind) (t : Tracing) :
    (host.Does t).Refines (BreaksOff t) host.Returns := by
  rintro fn f args _ r _ ⟨depth, m, m', hm, rfl, rfl, ho⟩ hr
  refine ⟨fun hdeep => hr _ hdeep (.inl rfl), depth, fun deeper hle n hn ht' => ?_⟩
  have hcalls := hhost.approximates t n.tracing ht'
  have heval := approximates_of_le (Machine.indistinct_sameStore ht') (.inl rfl) hcalls hle
  rcases hcalls fn _ _ heval f args m n ⟨hn.symm, hm, rfl⟩ with
    ⟨err, hstop, herr⟩ | ⟨hresult, hstore, -, htracing⟩
  · rw [ho] at herr
    exact absurd hstop (hr err herr)
  · rw [ho] at hresult hstore
    generalize outcome (host.call fn (evaluate host deeper) f args) n = q
      at hresult hstore htracing ⊢
    obtain ⟨r', store, tracing, trace⟩ := q
    obtain rfl : r = r' := hresult
    obtain rfl : m'.store = store := hstore
    exact ⟨trace, by rw [← htracing]⟩

/-! ### What the parts of the evaluator yield -/

section

variable {eval : Evaluator} {f : FrameId} {s s₁ : Store} {r : Except Error Value}

theorem yields_lookup {x : Symbol} {v : Value} (h : s.lookup? f x = some v) :
    Yields (lookup f x) s (.ok v) s := by
  rintro m rfl -
  exact ⟨m.trace, by rw [outcome_lookup, h]⟩

theorem yields_lookup_none {x : Symbol} (h : s.lookup? f x = none) :
    Yields (lookup f x) s (.error (.unbound x)) s := by
  rintro m rfl -
  exact ⟨m.trace, by rw [outcome_lookup, h]⟩

theorem yields_definition {x : Symbol} {e v : Value} (h : Yields (eval e f) s (.ok v) s₁) :
    Yields (Evaluate.definition eval f [.symbol x, e]) s (.ok .unit) (s₁.define f x v) := by
  refine h.bind ?_
  rintro m rfl -
  exact outcome_definition_assign f x v m

theorem yields_apply_lambda {formals : List Symbol} {body : Value} {captured : FrameId}
    {args : List Value} (hl : args.length = formals.length)
    (h : Yields (eval body s.next)
      (s.push ⟨Bindings.empty.insertAll (formals.zip args), some captured⟩) r s₁) :
    Yields (apply host eval f (.lambda formals body captured) args) s r s₁ := by
  have hextend : Yields (extend formals body captured args) s (.ok s.next)
      (s.push ⟨Bindings.empty.insertAll (formals.zip args), some captured⟩) := by
    rintro m rfl -
    exact ⟨m.trace, outcome_extend hl body captured m⟩
  exact hextend.bind ((yields_record _ _).bind h)

/-! ### Derivations -/

/-- What one level of evaluation yields at great depths, evaluation does. -/
theorem eventually_evaluate {e : Value}
    (h : ∀ᶠ depth in atTop, Yields (step host (evaluate host depth) e f) s r s₁) :
    ∀ᶠ depth in atTop, Yields (evaluate host depth e f) s r s₁ := by
  obtain ⟨d, hd⟩ := eventually_atTop.1 h
  refine eventually_atTop.2 ⟨d + 1, fun depth hdepth => ?_⟩
  obtain ⟨n, rfl⟩ := Nat.exists_eq_add_of_le' hdepth
  exact hd (n + d) (Nat.le_add_left d n)

/-- What a form yields at great depths, a list headed by its keyword does. -/
theorem eventually_form {which : Form} {parts : List Value}
    (h : ∀ᶠ depth in atTop, Yields (form (evaluate host depth) f which parts) s r s₁) :
    ∀ᶠ depth in atTop,
      Yields (evaluate host depth (.list (.symbol which.keyword :: parts)) f) s r s₁ :=
  eventually_evaluate (h.mono fun depth h => by rwa [step, list_keyword])

end

mutual

/-- **Every derivation is reached by evaluation from some depth on.** -/
theorem Evaluates.eventually : Evaluates host.Returns never s f e r s' →
    ∀ᶠ depth in atTop, Yields (evaluate host depth e f) s r s'
  | .bound h => eventually_evaluate (.of_forall fun _ => yields_lookup h)
  | .unbound h => eventually_evaluate (.of_forall fun _ => yields_lookup_none h)
  | .constant h => eventually_evaluate (.of_forall fun _ => by
      cases e with
      | symbol | list | hostList => cases h
      | _ => exact yields_pure _ _)
  | .empty => eventually_evaluate (.of_forall fun _ => yields_throw _ _)
  | .hostList list => by
      obtain ⟨d, hd⟩ := eventually_atTop.1 list.eventually
      exact eventually_evaluate (eventually_atTop.2 ⟨d, fun depth h => hd (depth + 1) (by omega)⟩)
  | .sequence parts => eventually_form (parts.eventually.mono fun depth h => by
      rw [form, sequence_eq_operands]
      exact h.bind (yields_pure _ _))
  | .sequenceError parts => eventually_form (parts.eventually.mono fun depth h => by
      rw [form, sequence_eq_operands]
      exact h.bind_error)
  | .definition value => eventually_form (value.eventually.mono fun _ h => yields_definition h)
  | .definitionError value => eventually_form (value.eventually.mono fun _ h => h.bind_error)
  | .definitionTarget h => eventually_form (.of_forall fun _ => by
      rw [form, Evaluate.definition, h]
      exact yields_throw _ _)
  | .definitionParts h => eventually_form (.of_forall fun _ => by
      rw [form, definition_of_length_ne h]
      exact yields_throw _ _)
  | .abstraction => eventually_form (.of_forall fun _ => by
      rw [form, Evaluate.abstraction, parameters_symbols]
      exact (yields_ofExcept _ _).bind (yields_pure _ _))
  | .abstractionList h => eventually_form (.of_forall fun _ => by
      rw [form, Evaluate.abstraction, parameters_of_ne h]
      exact (yields_ofExcept _ _).bind_error)
  | .abstractionSymbol h => eventually_form (.of_forall fun _ => by
      rw [form, Evaluate.abstraction, parameters_append _ h]
      exact (yields_ofExcept _ _).bind_error)
  | .abstractionParts h => eventually_form (.of_forall fun _ => by
      rw [form, abstraction_of_length_ne h]
      exact yields_throw _ _)
  | .conditionalTrue test hv branch =>
    eventually_form ((test.eventually.and branch.eventually).mono fun depth h =>
      h.1.bind (by rw [if_pos hv]; exact h.2))
  | .conditionalFalse test hv branch =>
    eventually_form ((test.eventually.and branch.eventually).mono fun depth h =>
      h.1.bind (by rw [hv]; exact h.2))
  | .conditionalError test => eventually_form (test.eventually.mono fun _ h => h.bind_error)
  | .conditionalParts h => eventually_form (.of_forall fun _ => by
      rw [form, conditional_of_length_ne h]
      exact yields_throw _ _)
  | .combination hf fn operands call =>
    eventually_evaluate (((fn.eventually.and operands.eventually).and call.eventually).mono
      fun depth h => by
        rw [step, list_combination hf]
        exact h.1.1.bind (h.1.2.bind h.2))
  | .headError hf fn => eventually_evaluate (fn.eventually.mono fun depth h => by
      rw [step, list_combination hf]
      exact h.bind_error)
  | .operandError hf fn operands =>
    eventually_evaluate ((fn.eventually.and operands.eventually).mono fun depth h => by
      rw [step, list_combination hf]
      exact h.1.bind h.2.bind_error)
  | .stopped h => h.elim

theorem EvaluatesAll.eventually : EvaluatesAll host.Returns never s f es r s' →
    ∀ᶠ depth in atTop, Yields (operands (evaluate host depth) f es) s r s'
  | .nil => .of_forall fun _ => yields_pure _ _
  | .cons first others => (first.eventually.and others.eventually).mono fun _ h =>
      h.1.bind (h.2.bind (yields_pure _ _))
  | .firstError first => first.eventually.mono fun _ h => h.bind_error
  | .othersError first others => (first.eventually.and others.eventually).mono fun _ h =>
      h.1.bind h.2.bind_error

theorem Applies.eventually : Applies host.Returns never s f v args r s' →
    ∀ᶠ depth in atTop, Yields (apply host (evaluate host depth) f v args) s r s'
  | .lambda hl body => body.eventually.mono fun _ h => yields_apply_lambda hl h
  | .lambdaCount hl => .of_forall fun _ => by
      rw [apply, extend, if_neg hl]
      exact (yields_throw _ _).bind_error
  | .operator => .of_forall fun _ => yields_ofExcept _ _
  | .host h => eventually_atTop.2 h.2
  | .notFunction hl hf => .of_forall fun _ => by
      rw [apply_of_ne hl hf]
      exact yields_throw _ _

end

/-! ### Giving up -/

mutual

/-- No evaluation that follows the rules gives up. -/
theorem Evaluates.not_tooDeep : Evaluates host.Returns never s f e r s' → r ≠ .error .tooDeep
  | .bound _ | .constant _ | .sequence _ | .definition _ | .abstraction => nofun
  | .unbound _ | .empty | .definitionTarget _ | .definitionParts _ => nofun
  | .abstractionList _ | .abstractionSymbol _ | .abstractionParts _ | .conditionalParts _ => nofun
  | .hostList list => list.not_tooDeep
  | .sequenceError parts => by simpa using parts.not_tooDeep
  | .definitionError value => value.not_tooDeep
  | .conditionalTrue _ _ branch | .conditionalFalse _ _ branch => branch.not_tooDeep
  | .conditionalError test => test.not_tooDeep
  | .combination _ _ _ call => call.not_tooDeep
  | .headError _ fn => fn.not_tooDeep
  | .operandError _ _ operands => by simpa using operands.not_tooDeep
  | .stopped h => h.elim

theorem EvaluatesAll.not_tooDeep :
    EvaluatesAll host.Returns never s f es r s' → r ≠ .error .tooDeep
  | .nil | .cons _ _ => nofun
  | .firstError first => by simpa using first.not_tooDeep
  | .othersError _ others => others.not_tooDeep

theorem Applies.not_tooDeep : Applies host.Returns never s f v args r s' → r ≠ .error .tooDeep
  | .lambda _ body => body.not_tooDeep
  | .lambdaCount _ | .notFunction _ _ => nofun
  | .operator => fun h => by
    rcases Operator.causeKind_of_apply h with h | h | h <;> cases h
  | .host h => h.1

end

/-! ### Classes of errors -/

/-- An error is one that a host function raises. -/
def HostReturns.Raises (returns : HostReturns) (err : Error) : Prop :=
  ∃ fn f args s s', returns fn f args s (.error err) s'

/-- The classes of the errors that the language has of its own: a symbol has no binding, what
is to be bound is no symbol, a value is of the wrong kind, the number of parts or arguments is
wrong, or a whole number is too large for a double. -/
def Error.IsRegular (err : Error) : Prop :=
  err.causeKind ∈ [ErrorKind.unbound, .invalidName, .type, .arity, .overflow]

variable {returns : HostReturns}

mutual

/-- **The errors that the rules lead to are of five classes**, those aside that host functions
raise. -/
theorem Evaluates.isRegular : Evaluates returns never s f e r s' →
    ∀ err, r = .error err → err.IsRegular ∨ returns.Raises err
  | .bound _ | .constant _ | .sequence _ | .definition _ | .abstraction => nofun
  | .unbound _ | .empty | .definitionTarget _ | .definitionParts _ | .abstractionList _
  | .abstractionSymbol _ | .abstractionParts _ | .conditionalParts _ => by
    rintro _ ⟨⟩
    exact .inl (by simp [Error.IsRegular, Error.causeKind])
  | .hostList list => list.isRegular
  | .sequenceError parts => by simpa using parts.isRegular
  | .definitionError value => value.isRegular
  | .conditionalTrue _ _ branch | .conditionalFalse _ _ branch => branch.isRegular
  | .conditionalError test => test.isRegular
  | .combination _ _ _ call => call.isRegular
  | .headError _ fn => fn.isRegular
  | .operandError _ _ operands => by simpa using operands.isRegular
  | .stopped h => h.elim

theorem EvaluatesAll.isRegular : EvaluatesAll returns never s f es r s' →
    ∀ err, r = .error err → err.IsRegular ∨ returns.Raises err
  | .nil | .cons _ _ => nofun
  | .firstError first => by simpa using first.isRegular
  | .othersError _ others => others.isRegular

theorem Applies.isRegular : Applies returns never s f v args r s' →
    ∀ err, r = .error err → err.IsRegular ∨ returns.Raises err
  | .lambda _ body => body.isRegular
  | .lambdaCount _ | .notFunction _ _ => by
    rintro _ ⟨⟩
    exact .inl (by simp [Error.IsRegular, Error.causeKind])
  | .operator => fun err h => .inl (by
      rcases Operator.causeKind_of_apply h with h | h | h <;> simp [Error.IsRegular, h])
  | .host h => by
    rintro err rfl
    exact .inr ⟨_, _, _, _, _, h⟩

end

/-! ### Agreement -/

/-- **Evaluation implements the rules**, if host functions are blind to limits and traces.

* The rules derive an outcome and a store for an expression just if evaluation yields them from
  some depth on.
* At any depth, on any machine, evaluation is broken off or ends in what the rules derive.
* An error that the rules derive is one of the five classes that the language has, if it is not
  one that a host function raises.  Its class is that of its cause if the values can be written
  that its message shows, and that of writing if not. -/
theorem evaluate_adequate (hhost : host.Blind) (s : Store) (f : FrameId) (e : Value) :
    (∀ r s', Evaluates host.Returns never s f e r s' ↔
      r ≠ .error .tooDeep ∧
        ∃ d, ∀ depth, d ≤ depth → Yields (evaluate host depth e f) s r s') ∧
    (∀ depth m r m', m.store = s → outcome (evaluate host depth e f) m = (r, m') →
      (∃ err, r = .error err ∧ BreaksOff m.tracing err) ∨
        Evaluates host.Returns never s f e r m'.store) ∧
    ∀ err s', Evaluates host.Returns never s f e (.error err) s' →
      (err.IsRegular ∨ host.Returns.Raises err) ∧
      ((∀ v ∈ err.shown, v.isWritable = true) → err.kind = err.causeKind) ∧
      ((∃ v ∈ err.shown, v.isWritable = false) → err.kind = .writing) := by
  have hsound : ∀ depth m r m', m.store = s → outcome (evaluate host depth e f) m = (r, m') →
      (∃ err, r = .error err ∧ BreaksOff m.tracing err) ∨
        Evaluates host.Returns never s f e r m'.store := by
    rintro depth m r m' rfl ho
    obtain ⟨h, -⟩ := evaluate_follows hhost.keepsTracing m.tracing depth e f m r m' rfl ho
    refine or_iff_not_imp_left.2 fun hbroken =>
      h.unstopped (hhost.refines m.tracing) fun err hr hstop => ?_
    exact hbroken ⟨err, hr, hstop⟩
  refine ⟨fun r s' => ⟨fun h => ⟨h.not_tooDeep, eventually_atTop.1 h.eventually⟩, ?_⟩, hsound,
    fun err s' h => ⟨h.isRegular err rfl, Error.kind_of_isWritable, Error.kind_of_not_isWritable⟩⟩
  rintro ⟨hr, d, hd⟩
  obtain ⟨trace, ho⟩ := hd d le_rfl ⟨s, .off, #[]⟩ rfl (by simp)
  rcases hsound d _ _ _ rfl ho with ⟨err, rfl, rfl | ⟨ht, -⟩⟩ | h
  · exact absurd rfl hr
  · cases ht
  · exact h

/-- `(count ((lambda (x) (define y x)) 7))` in a frame that binds `count` to the host function
of that name: the call of the lambda binds `x` and `y` in a new frame inside the first one, and
the host function is given its value. -/
theorem evaluates_application :
    let count : Bindings := ⟨[(⟨"count"⟩, .function (.host .count))]⟩
    Host.standard.Blind ∧
    Evaluates Host.standard.Returns never ⟨#[⟨count, none⟩]⟩ 0
      (.list [.symbol ⟨"count"⟩, .list [.list [.symbol ⟨"lambda"⟩, .list [.symbol ⟨"x"⟩],
        .list [.symbol ⟨"define"⟩, .symbol ⟨"y"⟩, .symbol ⟨"x"⟩]], .int 7]])
      (.ok (.int 1))
      ⟨#[⟨count, none⟩, ⟨⟨[(⟨"x"⟩, .int 7), (⟨"y"⟩, .int 7)]⟩, some 0⟩]⟩ := by
  intro count
  refine ⟨Host.blind_standard, Or.resolve_left ((evaluate_adequate Host.blind_standard
    ⟨#[⟨count, none⟩]⟩ 0 _).2.1 5 ⟨_, .off, #[]⟩ _ _ rfl rfl) ?_⟩
  rintro ⟨err, h, -⟩
  cases h

/-- A tuple is not its own value, though it is a value of the host and no list: the
empty one fails like the empty list. -/
theorem tuple_not_constant :
    outcome (evaluate Host.standard 1 (.hostList .tuple []) 0) ⟨Store.empty, .off, #[]⟩ =
      (.error .emptyList, ⟨Store.empty, .off, #[]⟩) := rfl

end Lisplet
