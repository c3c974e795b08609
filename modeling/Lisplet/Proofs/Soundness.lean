/-
# The evaluator follows the rules

Whatever a bounded evaluation ends in, on whatever machine, the rules of the
language derive it, if an evaluation may be broken off (`evaluate_follows`): for
being nested too deeply, and on a machine that writes its trace also because an
event cannot be written (`BreaksOff`).

What the rules are given about the calls of host functions is what such calls do
(`Host.Does`); all that is asked of them is that they leave it to the machine how
events are treated (`Host.KeepsTracing`).

The proof goes function by function: each lemma says that one part of the
evaluator follows the rules if the evaluation of what is nested inside does
(`Follows`), and the bound on the depth is taken up by one induction at the end.
-/

import Mathlib.Data.List.Basic
import Lisplet.Proofs.Outcome
import Lisplet.Proofs.Semantics

namespace Lisplet

open Eval

variable {host : Host}

/-- The errors with which an evaluation is broken off: it is nested too deeply, or the
trace is written and has an event that cannot be. -/
def BreaksOff (t : Tracing) (err : Error) : Prop :=
  err = .tooDeep ∨ t = .written ∧ err = .unwritable

namespace Evaluate

/-! ### The parts of forms -/

/-- A row of symbols is a parameter list. -/
theorem parameters_symbols (formals : List Symbol) :
    parameters (.list (formals.map .symbol)) = .ok formals := by
  rw [parameters]
  induction formals with
  | nil => rfl
  | cons x formals ih => rw [List.map_cons, List.mapM_cons, ih]; rfl

/-- The first item that is not a symbol is at fault. -/
theorem parameters_append (formals : List Symbol) {p : Value} (hp : p.symbol? = none)
    (rest : List Value) :
    parameters (.list (formals.map .symbol ++ p :: rest)) = .error (.parameterNotSymbol p) := by
  rw [parameters]
  induction formals with
  | nil => simp only [List.map_nil, List.nil_append, List.mapM_cons, hp]; rfl
  | cons x formals ih => rw [List.map_cons, List.cons_append, List.mapM_cons, ih]; rfl

theorem parameters_of_ne {params : Value} (h : ∀ items, params ≠ .list items) :
    parameters params = .error (.parametersNotList params) := by
  cases params with
  | list items => exact absurd rfl (h items)
  | _ => rfl

/-- A row of values consists of symbols, or has a first one that is not a symbol. -/
theorem symbols_or_not (items : List Value) :
    (∃ formals, items = List.map Value.symbol formals) ∨
      ∃ formals p rest, items = List.map Value.symbol formals ++ p :: rest ∧
        p.symbol? = none := by
  induction items with
  | nil => exact .inl ⟨[], rfl⟩
  | cons v items ih =>
    cases hv : v.symbol? with
    | none => exact .inr ⟨[], v, items, rfl, hv⟩
    | some x =>
      obtain rfl := Value.symbol?_eq_some_iff.1 hv
      rcases ih with ⟨formals, rfl⟩ | ⟨formals, p, rest, rfl, hp⟩
      · exact .inl ⟨x :: formals, rfl⟩
      · exact .inr ⟨x :: formals, p, rest, rfl, hp⟩

/-- Only a list of symbols is a parameter list. -/
theorem parameters_eq_ok_iff {params : Value} {formals : List Symbol} :
    parameters params = .ok formals ↔ params = .list (formals.map .symbol) := by
  constructor
  · intro h
    by_cases hlist : ∃ items, params = .list items
    · obtain ⟨items, rfl⟩ := hlist
      rcases symbols_or_not items with ⟨symbols, rfl⟩ | ⟨symbols, p, rest, rfl, hp⟩
      · rw [parameters_symbols] at h
        rw [Except.ok.inj h]
      · rw [parameters_append symbols hp] at h
        cases h
    · rw [parameters_of_ne (not_exists.1 hlist)] at h
      cases h
  · rintro rfl
    exact parameters_symbols formals

/-- Evaluating in order is evaluating all and keeping the last value. -/
theorem sequence_eq_operands (eval : Evaluator) (f : FrameId) (es : List Value) :
    ∀ last, sequence eval f last es =
      operands eval f es >>= fun vs => pure (vs.getLastD last) := by
  induction es with
  | nil => intro last; rfl
  | cons e es ih =>
    intro last
    simp only [sequence, operands, ih, bind_assoc, pure_bind, List.getLastD_cons]

variable {eval : Evaluator} {f : FrameId} {parts : List Value}

theorem definition_of_length_ne (h : parts.length ≠ 2) :
    definition eval f parts = throw .definitionParts := by
  unfold definition
  split
  · exact absurd rfl h
  · rfl

theorem abstraction_of_length_ne (h : parts.length ≠ 2) :
    abstraction f parts = throw .abstractionParts := by
  unfold abstraction
  split
  · exact absurd rfl h
  · rfl

theorem conditional_of_length_ne (h : parts.length ≠ 3) :
    conditional eval f parts = throw .conditionalParts := by
  unfold conditional
  split
  · exact absurd rfl h
  · rfl

/-- What is neither a lambda nor a function cannot be applied. -/
theorem apply_of_ne {v : Value} (hl : ∀ formals e captured, v ≠ .lambda formals e captured)
    (hf : ∀ fn, v ≠ .function fn) (args : List Value) :
    apply host eval f v args = throw (.notFunction v) := by
  cases v with
  | lambda formals e captured => exact absurd rfl (hl formals e captured)
  | function fn => exact absurd rfl (hf fn)
  | _ => rfl

/-- A list that is headed by a keyword is its form. -/
theorem list_keyword (which : Form) (parts : List Value) :
    list host eval f (.symbol which.keyword :: parts) = form eval f which parts := by
  simp [list]

/-- Every other list is a combination. -/
theorem list_combination {head : Value} (hf : head.form? = none) (es : List Value) :
    list host eval f (head :: es) =
      eval head f >>= fun fn => operands eval f es >>= fun args => apply host eval f fn args := by
  simp [list, hf]

/-! ### One level of evaluation -/

/-- On machines that treat events in the way `t`, an evaluator follows the rules or
breaks off. -/
def Follows (returns : HostReturns) (t : Tracing) (eval : Evaluator) : Prop :=
  ∀ e f m r m', m.tracing = t → outcome (eval e f) m = (r, m') →
    Evaluates returns (BreaksOff t) m.store f e r m'.store ∧ m'.tracing = t

/-- On such machines, calls of host functions with an evaluator end as `returns` says. -/
def CallsFollow (host : Host) (returns : HostReturns) (t : Tracing) (eval : Evaluator) : Prop :=
  ∀ fn f args m r m', m.tracing = t → outcome (host.call fn eval f args) m = (r, m') →
    returns fn f args m.store r m'.store ∧ m'.tracing = t

variable {returns : HostReturns} {t : Tracing} {m m' : Machine} {r : Except Error Value}

theorem Follows.operands (h : Follows returns t eval) (f : FrameId) :
    ∀ es m r m', m.tracing = t → outcome (operands eval f es) m = (r, m') →
      EvaluatesAll returns (BreaksOff t) m.store f es r m'.store ∧ m'.tracing = t := by
  intro es
  induction es with
  | nil =>
    intro m r m' hm ho
    obtain ⟨rfl, rfl⟩ := Prod.mk.inj ho
    exact ⟨.nil, hm⟩
  | cons e es ih =>
    intro m r m' hm ho
    rcases outcome_bind_cases ho with ⟨v, m₁, hv, ho⟩ | ⟨err, hv, rfl⟩
    · obtain ⟨first, hm₁⟩ := h e f m _ _ hm hv
      rcases outcome_bind_cases ho with ⟨vs, m₂, hvs, ho⟩ | ⟨err, hvs, rfl⟩
      · obtain ⟨others, hm₂⟩ := ih m₁ _ _ hm₁ hvs
        obtain ⟨rfl, rfl⟩ := Prod.mk.inj ho
        exact ⟨.cons first others, hm₂⟩
      · obtain ⟨others, hm'⟩ := ih m₁ _ _ hm₁ hvs
        exact ⟨.othersError first others, hm'⟩
    · obtain ⟨first, hm'⟩ := h e f m _ _ hm hv
      exact ⟨.firstError first, hm'⟩

theorem Follows.sequence (h : Follows returns t eval) (hm : m.tracing = t)
    (ho : outcome (sequence eval f .unit parts) m = (r, m')) :
    Evaluates returns (BreaksOff t) m.store f (.list (.symbol Form.sequence.keyword :: parts)) r
      m'.store ∧ m'.tracing = t := by
  rw [sequence_eq_operands] at ho
  rcases outcome_bind_cases ho with ⟨vs, m₁, hvs, ho⟩ | ⟨err, hvs, rfl⟩
  · obtain ⟨hparts, hm₁⟩ := h.operands f parts m _ _ hm hvs
    obtain ⟨rfl, rfl⟩ := Prod.mk.inj ho
    exact ⟨.sequence hparts, hm₁⟩
  · obtain ⟨hparts, hm'⟩ := h.operands f parts m _ _ hm hvs
    exact ⟨.sequenceError hparts, hm'⟩

/-- What a definition does with the value that it evaluated.  Its event can be
written on every machine. -/
theorem outcome_definition_assign (f : FrameId) (x : Symbol) (v : Value) (m : Machine) :
    ∃ trace, outcome (do
        Eval.assign f x v
        if ((← get).store.outer? f).isNone then Eval.record (.defined x)
        pure Value.unit) m =
      (.ok .unit, { m with store := m.store.define f x v, trace }) := by
  set m₁ : Machine := { m with store := m.store.define f x v } with hm₁
  rw [outcome_bind, outcome_assign]
  simp only
  rw [outcome_get_bind]
  split
  · obtain ⟨trace, h | ⟨-, h, -⟩⟩ := outcome_record (.defined x) m₁
    · exact ⟨trace, by rw [outcome_bind, h]; rfl⟩
    · cases h
  · exact ⟨m.trace, rfl⟩

theorem Follows.definition (h : Follows returns t eval) (hm : m.tracing = t)
    (ho : outcome (definition eval f parts) m = (r, m')) :
    Evaluates returns (BreaksOff t) m.store f (.list (.symbol Form.definition.keyword :: parts)) r
      m'.store ∧ m'.tracing = t := by
  by_cases hl : parts.length = 2
  · obtain ⟨target, e, rfl⟩ := List.length_eq_two.1 hl
    rw [Evaluate.definition] at ho
    split at ho
    · rename_i ht
      obtain ⟨rfl, rfl⟩ := Prod.mk.inj ho
      exact ⟨.definitionTarget ht, hm⟩
    · rename_i x hx
      obtain rfl := Value.symbol?_eq_some_iff.1 hx
      rcases outcome_bind_cases ho with ⟨v, m₁, hv, ho⟩ | ⟨err, hv, rfl⟩
      · obtain ⟨value, hm₁⟩ := h e f m _ _ hm hv
        obtain ⟨trace, hassign⟩ := outcome_definition_assign f x v m₁
        obtain ⟨rfl, rfl⟩ := Prod.mk.inj (ho.symm.trans hassign)
        exact ⟨.definition value, hm₁⟩
      · obtain ⟨value, hm'⟩ := h e f m _ _ hm hv
        exact ⟨.definitionError value, hm'⟩
  · rw [definition_of_length_ne hl] at ho
    obtain ⟨rfl, rfl⟩ := Prod.mk.inj ho
    exact ⟨.definitionParts hl, hm⟩

theorem follows_abstraction (hm : m.tracing = t)
    (ho : outcome (abstraction f parts) m = (r, m')) :
    Evaluates returns (BreaksOff t) m.store f (.list (.symbol Form.abstraction.keyword :: parts)) r
      m'.store ∧ m'.tracing = t := by
  by_cases hl : parts.length = 2
  · obtain ⟨params, body, rfl⟩ := List.length_eq_two.1 hl
    rw [abstraction, outcome_bind, outcome_ofExcept] at ho
    by_cases hp : ∃ items, params = .list items
    · obtain ⟨items, rfl⟩ := hp
      rcases symbols_or_not items with ⟨formals, rfl⟩ | ⟨formals, p, rest, rfl, hp⟩
      · rw [parameters_symbols] at ho
        obtain ⟨rfl, rfl⟩ := Prod.mk.inj ho
        exact ⟨.abstraction, hm⟩
      · rw [parameters_append formals hp] at ho
        obtain ⟨rfl, rfl⟩ := Prod.mk.inj ho
        exact ⟨.abstractionSymbol hp, hm⟩
    · have hp : ∀ items, params ≠ .list items := fun items h => hp ⟨items, h⟩
      rw [parameters_of_ne hp] at ho
      obtain ⟨rfl, rfl⟩ := Prod.mk.inj ho
      exact ⟨.abstractionList hp, hm⟩
  · rw [abstraction_of_length_ne hl] at ho
    obtain ⟨rfl, rfl⟩ := Prod.mk.inj ho
    exact ⟨.abstractionParts hl, hm⟩

theorem Follows.conditional (h : Follows returns t eval) (hm : m.tracing = t)
    (ho : outcome (conditional eval f parts) m = (r, m')) :
    Evaluates returns (BreaksOff t) m.store f (.list (.symbol Form.conditional.keyword :: parts)) r
      m'.store ∧ m'.tracing = t := by
  by_cases hl : parts.length = 3
  · obtain ⟨test, consequent, alternate, rfl⟩ := List.length_eq_three.1 hl
    rcases outcome_bind_cases ho with ⟨v, m₁, hv, ho⟩ | ⟨err, hv, rfl⟩
    · obtain ⟨htest, hm₁⟩ := h test f m _ _ hm hv
      split at ho
      · rename_i hv
        obtain ⟨branch, hm'⟩ := h consequent f m₁ _ _ hm₁ ho
        exact ⟨.conditionalTrue htest hv branch, hm'⟩
      · rename_i hv
        obtain ⟨branch, hm'⟩ := h alternate f m₁ _ _ hm₁ ho
        exact ⟨.conditionalFalse htest (Bool.not_eq_true _ ▸ hv) branch, hm'⟩
    · obtain ⟨htest, hm'⟩ := h test f m _ _ hm hv
      exact ⟨.conditionalError htest, hm'⟩
  · rw [conditional_of_length_ne hl] at ho
    obtain ⟨rfl, rfl⟩ := Prod.mk.inj ho
    exact ⟨.conditionalParts hl, hm⟩

theorem Follows.form (h : Follows returns t eval) (hm : m.tracing = t) (which : Form)
    (ho : outcome (form eval f which parts) m = (r, m')) :
    Evaluates returns (BreaksOff t) m.store f (.list (.symbol which.keyword :: parts)) r m'.store ∧
      m'.tracing = t := by
  cases which with
  | sequence => exact h.sequence hm ho
  | definition => exact h.definition hm ho
  | abstraction => exact follows_abstraction hm ho
  | conditional => exact h.conditional hm ho

theorem Follows.apply (h : Follows returns t eval) (hcalls : CallsFollow host returns t eval)
    (hm : m.tracing = t) {v : Value} {args : List Value}
    (ho : outcome (apply host eval f v args) m = (r, m')) :
    Applies returns (BreaksOff t) m.store f v args r m'.store ∧ m'.tracing = t := by
  unfold Evaluate.apply at ho
  split at ho
  · rename_i formals body captured
    by_cases hl : args.length = formals.length
    · rw [outcome_bind, outcome_extend hl] at ho
      obtain ⟨trace, hrec | ⟨hw, -, hrec⟩⟩ := outcome_record (.applied formals body args)
        { m with store := m.store.push ⟨Bindings.empty.insertAll (formals.zip args), captured⟩ }
      · simp only [outcome_bind, hrec] at ho
        obtain ⟨hbody, hm'⟩ := h body m.store.next ⟨_, m.tracing, trace⟩ _ _ hm ho
        exact ⟨.lambda hl hbody, hm'⟩
      · simp only [outcome_bind, hrec] at ho
        obtain ⟨rfl, rfl⟩ := Prod.mk.inj ho
        exact ⟨.lambda hl (.stopped (.inr ⟨hm.symm.trans hw, rfl⟩)), hm⟩
    · rw [outcome_bind, outcome_extend_of_ne hl] at ho
      obtain ⟨rfl, rfl⟩ := Prod.mk.inj ho
      exact ⟨.lambdaCount hl, hm⟩
  · rw [outcome_ofExcept] at ho
    obtain ⟨rfl, rfl⟩ := Prod.mk.inj ho
    exact ⟨.operator, hm⟩
  · rename_i fn
    obtain ⟨hret, hm'⟩ := hcalls fn f args m r m' hm ho
    exact ⟨.host hret, hm'⟩
  · rename_i hl hop hhost
    obtain ⟨rfl, rfl⟩ := Prod.mk.inj ho
    exact ⟨.notFunction hl fun fn hf => by
      cases fn with
      | operator op => exact hop op hf
      | host fn => exact hhost fn hf, hm⟩

theorem Follows.list (h : Follows returns t eval) (hcalls : CallsFollow host returns t eval)
    (hm : m.tracing = t) {items : List Value}
    (ho : outcome (list host eval f items) m = (r, m')) :
    Evaluates returns (BreaksOff t) m.store f (.list items) r m'.store ∧ m'.tracing = t := by
  unfold Evaluate.list at ho
  split at ho
  · obtain ⟨rfl, rfl⟩ := Prod.mk.inj ho
    exact ⟨.empty, hm⟩
  · rename_i head tail
    split at ho
    · rename_i which hf
      obtain rfl := Value.form?_eq_some_iff.1 hf
      exact h.form hm which ho
    · rename_i hf
      rcases outcome_bind_cases ho with ⟨v, m₁, hv, ho⟩ | ⟨err, hv, rfl⟩
      · obtain ⟨fn, hm₁⟩ := h head f m _ _ hm hv
        rcases outcome_bind_cases ho with ⟨args, m₂, hargs, ho⟩ | ⟨err, hargs, rfl⟩
        · obtain ⟨operands, hm₂⟩ := h.operands f tail m₁ _ _ hm₁ hargs
          obtain ⟨call, hm'⟩ := h.apply hcalls hm₂ ho
          exact ⟨.combination hf fn operands call, hm'⟩
        · obtain ⟨operands, hm'⟩ := h.operands f tail m₁ _ _ hm₁ hargs
          exact ⟨.operandError hf fn operands, hm'⟩
      · obtain ⟨fn, hm'⟩ := h head f m _ _ hm hv
        exact ⟨.headError hf fn, hm'⟩

/-- One level of evaluation follows the rules if the evaluation of what is nested
inside and the calls of host functions do. -/
theorem Follows.step (h : Follows returns t eval) (hcalls : CallsFollow host returns t eval) :
    Follows returns t (step host eval) := by
  intro e f m r m' hm ho
  unfold Evaluate.step at ho
  split at ho
  · rename_i x
    rw [outcome_lookup] at ho
    split at ho
    · rename_i v hv
      obtain ⟨rfl, rfl⟩ := Prod.mk.inj ho
      exact ⟨.bound hv, hm⟩
    · rename_i hv
      obtain ⟨rfl, rfl⟩ := Prod.mk.inj ho
      exact ⟨.unbound hv, hm⟩
  · exact h.list hcalls hm ho
  · obtain ⟨hlist, hm'⟩ := h.list hcalls hm ho
    exact ⟨.hostList hlist, hm'⟩
  · obtain ⟨rfl, rfl⟩ := Prod.mk.inj ho
    exact ⟨.constant (by cases e <;> simp_all [Value.isConstant]), hm⟩

end Evaluate

/-- A list that is headed by a keyword is evaluated as its form. -/
theorem evaluate_keyword (depth : Nat) (which : Form) (parts : List Value) (f : FrameId) :
    evaluate host (depth + 1) (.list (.symbol which.keyword :: parts)) f =
      Evaluate.form (evaluate host depth) f which parts :=
  Evaluate.list_keyword which parts

/-! ### Hosts -/

/-- A call leaves it to the machine how events are treated, if the evaluation that it is
given does. -/
def HostCall.KeepsTracing (call : HostCall) : Prop :=
  ∀ eval t, (∀ e f m, m.tracing = t → (outcome (eval e f) m).2.tracing = t) →
    ∀ f args m, m.tracing = t → (outcome (call eval f args) m).2.tracing = t

/-- All calls of host functions leave it to the machine how events are treated. -/
def Host.KeepsTracing (host : Host) : Prop := ∀ fn, (host.call fn).KeepsTracing

/-- What calls of host functions come to on machines that treat events in the way `t`: with
evaluation at some depth inside, a call ends so. -/
def Host.Does (host : Host) (t : Tracing) : HostReturns := fun fn f args s r s' =>
  ∃ depth m m', m.tracing = t ∧ m.store = s ∧ m'.store = s' ∧
    outcome (host.call fn (evaluate host depth) f args) m = (r, m')

/-- **A bounded evaluation follows the rules or breaks off**, whatever it ends in. -/
theorem evaluate_follows (hhost : host.KeepsTracing) (t : Tracing) (depth : Nat) :
    Evaluate.Follows (host.Does t) t (evaluate host depth) := by
  induction depth with
  | zero =>
    intro e f m r m' hm ho
    obtain ⟨rfl, rfl⟩ := Prod.mk.inj ho
    exact ⟨.stopped (.inl rfl), hm⟩
  | succ depth ih =>
    refine ih.step fun fn f args m r m' hm ho => ⟨⟨depth, m, m', hm, rfl, rfl, ho⟩, ?_⟩
    have hkeeps := hhost fn (evaluate host depth) t
      (fun e f m hm => (ih e f m _ _ hm (Prod.eta _).symm).2) f args m hm
    rwa [ho] at hkeeps

theorem HostCall.keepsTracing_missing (fn : HostFunction) : (missing fn).KeepsTracing :=
  fun _ _ _ _ _ _ hm => hm

/-- A call that needs an argument keeps to what it does with one. -/
theorem HostCall.keepsTracing_withFirst {fn : HostFunction} {call : FrameId → Value → Eval Value}
    (h : ∀ f v m, (outcome (call f v) m).2.tracing = m.tracing) :
    (withFirst fn call).KeepsTracing := by
  rintro - t - f args m rfl
  cases args with
  | nil => rfl
  | cons v rest => exact h f v m

theorem Host.keepsTracing_none : Host.none.KeepsTracing := HostCall.keepsTracing_missing

theorem Host.keepsTracing_standard : Host.standard.KeepsTracing := by
  have htwice : HostCall.twice.KeepsTracing := HostCall.keepsTracing_withFirst fun f v m => by
    cases v.twice? <;> rfl
  have hhere : HostCall.here.KeepsTracing := HostCall.keepsTracing_withFirst fun f v m => rfl
  exact Host.call_standard (fun _ _ _ _ _ _ hm => hm) htwice (fun _ _ _ _ _ _ hm => hm)
    (fun _ _ _ _ _ _ hm => hm) hhere HostCall.keepsTracing_missing

end Lisplet
