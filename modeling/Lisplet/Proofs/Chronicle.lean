/-
# What an evaluation does, and what is recorded of it

What an evaluation does can be told without any trace: `evaluateDeeds` follows the
evaluator part by part and collects the bindings and the calls that come about, each call
with all that its body did.  How a part ends decides what comes after it, and that is asked
of a machine without a trace (`Eval.andThen`).

A computation `Does` a row of deeds if the store that it leaves is the one on which they
were done and if it records their events, no more and no others, on every machine.  One
lemma for each part of the evaluator brings this from what is nested inside to the whole
(`Evaluate.Faithful`); it composes along a sequence since no deed moves the frame of the
evaluation, so that this frame is a root at the end if it was one at the start
(`Does.bind`).  The bound on the depth is taken up by one induction at the end
(`evaluate_faithful`).
-/

import Lisplet.Proofs.Deeds
import Lisplet.Proofs.HostFree
import Lisplet.Proofs.Logged

namespace Lisplet

open Eval Deed

/-- What is done after a computation, given its value and the store that it leaves;
nothing, if it fails. -/
def Eval.andThen {α γ : Type} (x : Eval α) (s : Store) (next : α → Store → List γ) : List γ :=
  match x.ends s with
  | (.ok a, s') => next a s'
  | (.error _, _) => []

namespace Evaluate

/-! ### The deeds of an evaluation -/

/-- What the evaluation of an expression in a frame of a store does. -/
abbrev Chronicler := Value → FrameId → Store → List Deed

section

variable (eval : Evaluator) (deeds : Chronicler) (f : FrameId)

/-- What a row of expressions does, from left to right. -/
def rowDeeds : List Value → Store → List Deed
  | [], _ => []
  | e :: rest, s => deeds e f s ++ (eval e f).andThen s fun _ s' => rowDeeds rest s'

/-- What a definition does: what its expression does, and then its binding. -/
def definitionDeeds (s : Store) : List Value → List Deed
  | [target, e] =>
    match target.symbol? with
    | none => []
    | some x => deeds e f s ++ (eval e f).andThen s fun v _ => [.bound x v]
  | _ => []

/-- What a conditional does: what its test does, and then what one branch does. -/
def conditionalDeeds (s : Store) : List Value → List Deed
  | [test, consequent, alternate] =>
    deeds test f s ++ (eval test f).andThen s fun v s' =>
      if v.isTrue then deeds consequent f s' else deeds alternate f s'
  | _ => []

/-- What a form does.  Making a lambda does nothing to a store. -/
def formDeeds (s : Store) : Form → List Value → List Deed
  | .sequence, parts => rowDeeds eval deeds f parts s
  | .definition, parts => definitionDeeds eval deeds f s parts
  | .abstraction, _ => []
  | .conditional, parts => conditionalDeeds eval deeds f s parts

/-- What a call does: nothing, unless a lambda gets as many arguments as it has
parameters. -/
def callDeeds (args : List Value) (s : Store) : Value → List Deed
  | .lambda formals body captured =>
    if fits : args.length = formals.length then
      [.applied formals body captured args fits <| deeds body s.next
        (s.push ⟨Bindings.empty.insertAll (formals.zip args), some captured⟩)]
    else []
  | _ => []

/-- What a list does: a form or a combination. -/
def listDeeds (s : Store) : List Value → List Deed
  | [] => []
  | head :: tail =>
    match head.form? with
    | some keyword => formDeeds eval deeds f s keyword tail
    | none => deeds head f s ++ (eval head f).andThen s fun fn s₁ =>
        rowDeeds eval deeds f tail s₁ ++ (operands eval f tail).andThen s₁ fun args s₂ =>
          callDeeds deeds args s₂ fn

end

/-- What one level of evaluation does. -/
def stepDeeds (eval : Evaluator) (deeds : Chronicler) : Chronicler
  | .list items, f, s | .hostList _ items, f, s => listDeeds eval deeds f s items
  | _, _, _ => []

end Evaluate

/-- What an evaluation of a bounded depth does. -/
def evaluateDeeds (host : Host) : (depth : Nat) → Evaluate.Chronicler
  | 0, _, _, _ => []
  | depth + 1, e, f, s => Evaluate.stepDeeds (evaluate host depth) (evaluateDeeds host depth) e f s

/-! ### Computations that do deeds -/

/-- In the frame `f` a computation does a row of deeds, and what it records are their
events. -/
def Does {α : Type} (f : FrameId) (x : Eval α) (s : Store) (ds : List Deed) : Prop :=
  ∃ r, Logs x s r (replayAll f ds s) (rowEvents (s.outer? f).isNone ds)

section

variable {α β : Type} {x : Eval α} {k : α → Eval β} {f : FrameId} {s : Store} {ds : List Deed}

theorem Does.of_logs {r : Except Error α} (h : Logs x s r s []) : Does f x s [] := ⟨r, h⟩

/-- After a value the computation goes on from the store on which its deeds were done. -/
theorem Does.bind {next : α → Store → List Deed} (hf : f < s.next) (hx : Does f x s ds)
    (hk : ∀ a s₁, x.ends s = (.ok a, s₁) → f < s₁.next → Does f (k a) s₁ (next a s₁)) :
    Does f (x >>= k) s (ds ++ x.andThen s next) := by
  obtain ⟨e | a, hx⟩ := hx
  · rw [andThen, hx.ends, List.append_nil]
    exact ⟨.error e, hx.bind_error⟩
  · have hnext : f < (replayAll f ds s).next := Nat.lt_of_lt_of_le hf (next_le_replayAll f ds s)
    obtain ⟨r, hk⟩ := hk a _ hx.ends hnext
    rw [outer?_replayAll f ds hf] at hk
    simp only [andThen, hx.ends]
    refine ⟨r, ?_⟩
    rw [replayAll_append, rowEvents_append]
    exact hx.bind hk

/-- Making another value of a value does nothing more. -/
theorem Does.map (hx : Does f x s ds) (g : α → β) : Does f (x >>= fun a => pure (g a)) s ds := by
  obtain ⟨e | a, hx⟩ := hx
  · exact ⟨.error e, hx.bind_error⟩
  · have hmap : Logs (x >>= fun a => pure (g a)) s (.ok (g a)) (replayAll f ds s) _ :=
      hx.bind (logs_pure (g a) _)
    rw [List.append_nil] at hmap
    exact ⟨.ok (g a), hmap⟩

end

namespace Evaluate

variable {host : Host} {eval : Evaluator} {deeds : Chronicler} {f : FrameId} {s : Store}
variable {parts items : List Value}

/-! ### Parts that evaluate nothing -/

/-- What a definition does with the value that it evaluated. -/
theorem does_assign (f : FrameId) (x : Symbol) (v : Value) (s : Store) :
    Does f (do
        Eval.assign f x v
        if ((← get).store.outer? f).isNone then Eval.record (.defined x)
        pure Value.unit) s [.bound x v] := by
  have houter : (s.define f x v).outer? f = s.outer? f := Store.outer?_define s f f x v
  refine ⟨.ok .unit, ?_⟩
  cases hroot : (s.outer? f).isNone with
  | true =>
    -- the binding stands in the store when the event is recorded
    have hrecord : Logs (Eval.record (.defined x) >>= fun _ => pure Value.unit)
        (s.define f x v) (.ok .unit) (s.define f x v) [.defined x] :=
      (logs_record (.defined x) _).bind (logs_pure Value.unit _)
    refine (logs_assign f x v s).bind (Logs.get_bind (fun m hm => ?_) hrecord)
    rw [hm, houter, hroot]
    rfl
  | false =>
    refine (logs_assign f x v s).bind (Logs.get_bind (fun m hm => ?_) (logs_pure Value.unit _))
    rw [hm, houter, hroot]
    rfl

theorem does_abstraction (f : FrameId) (parts : List Value) (s : Store) :
    Does f (abstraction f parts) s [] := by
  unfold abstraction
  split
  · exact (Does.of_logs (logs_ofExcept _ s)).map _
  · exact .of_logs (logs_throw _ s)

/-! ### The parts of the evaluator -/

/-- Where there are no host functions an evaluator makes none, and it does what a
chronicler tells. -/
structure Faithful (eval : Evaluator) (deeds : Chronicler) : Prop where
  /-- Values and stores stay free of host functions. -/
  keeps : SameFree eval eval
  /-- An evaluation does what is told. -/
  does : ∀ e f s, e.HostFree → s.All Value.HostFree → f < s.next →
    Does f (eval e f) s (deeds e f s)

namespace Faithful

/-- A value that is evaluated is free of host functions, and so is the store. -/
theorem hostFree (h : Faithful eval deeds) {e v : Value} {s' : Store} (he : e.HostFree)
    (hs : s.All Value.HostFree) (hv : (eval e f).ends s = (.ok v, s')) :
    v.HostFree ∧ s'.All Value.HostFree := by
  obtain ⟨m', ho, rfl⟩ := outcome_of_ends hv
  obtain ⟨-, hs', hvalue⟩ := h.keeps e f he ⟨s, .off, #[]⟩ hs
  rw [ho] at hs' hvalue
  exact ⟨hvalue v rfl, hs'⟩

theorem hostFree_operands (h : Faithful eval deeds) {args : List Value} {s' : Store}
    (hitems : ∀ e ∈ items, e.HostFree) (hs : s.All Value.HostFree)
    (hv : (Evaluate.operands eval f items).ends s = (.ok args, s')) :
    (∀ a ∈ args, a.HostFree) ∧ s'.All Value.HostFree := by
  obtain ⟨m', ho, rfl⟩ := outcome_of_ends hv
  obtain ⟨-, hs', hvalues⟩ := h.keeps.operands f hitems ⟨s, .off, #[]⟩ hs
  rw [ho] at hs' hvalues
  exact ⟨hvalues args rfl, hs'⟩

theorem operands (h : Faithful eval deeds) {f : FrameId} : ∀ {items s},
    (∀ e ∈ items, e.HostFree) → s.All Value.HostFree → f < s.next →
    Does f (operands eval f items) s (rowDeeds eval deeds f items s) := by
  intro items
  induction items with
  | nil => exact fun _ _ _ => .of_logs (logs_pure [] _)
  | cons e items ih =>
    intro s hitems hs hf
    obtain ⟨he, hrest⟩ := List.forall_mem_cons.1 hitems
    refine Does.bind hf (h.does e f s he hs hf) fun v s₁ hv hf₁ => ?_
    exact (ih hrest (h.hostFree he hs hv).2 hf₁).map _

theorem definition (h : Faithful eval deeds) (hparts : ∀ e ∈ parts, e.HostFree)
    (hs : s.All Value.HostFree) (hf : f < s.next) :
    Does f (definition eval f parts) s (definitionDeeds eval deeds f s parts) := by
  match parts with
  | [target, e] =>
    cases ht : target.symbol? with
    | none =>
      simp only [Evaluate.definition, definitionDeeds, ht]
      exact .of_logs (logs_throw _ s)
    | some x =>
      simp only [Evaluate.definition, definitionDeeds, ht]
      exact Does.bind hf (h.does e f s (hparts e (by simp)) hs hf) fun v s₁ _ _ =>
        does_assign f x v s₁
  | [] | [_] | _ :: _ :: _ :: _ => exact .of_logs (logs_throw .definitionParts s)

theorem conditional (h : Faithful eval deeds) (hparts : ∀ e ∈ parts, e.HostFree)
    (hs : s.All Value.HostFree) (hf : f < s.next) :
    Does f (conditional eval f parts) s (conditionalDeeds eval deeds f s parts) := by
  match parts with
  | [test, consequent, alternate] =>
    have htest : test.HostFree := hparts test (by simp)
    refine Does.bind hf (h.does test f s htest hs hf) fun v s₁ hv hf₁ => ?_
    have hs₁ := (h.hostFree htest hs hv).2
    cases v.isTrue with
    | true => exact h.does consequent f s₁ (hparts consequent (by simp)) hs₁ hf₁
    | false => exact h.does alternate f s₁ (hparts alternate (by simp)) hs₁ hf₁
  | [] | [_] | [_, _] | _ :: _ :: _ :: _ :: _ => exact .of_logs (logs_throw .conditionalParts s)

theorem form (h : Faithful eval deeds) (which : Form) (hparts : ∀ e ∈ parts, e.HostFree)
    (hs : s.All Value.HostFree) (hf : f < s.next) :
    Does f (form eval f which parts) s (formDeeds eval deeds f s which parts) := by
  cases which with
  | sequence =>
    rw [Evaluate.form, sequence_eq_operands]
    exact (h.operands hparts hs hf).map _
  | definition => exact h.definition hparts hs hf
  | abstraction => exact does_abstraction f parts s
  | conditional => exact h.conditional hparts hs hf

/-- A lambda is applied in a frame that is no root, and the event of the call comes before
those of the body. -/
theorem does_lambda (h : Faithful eval deeds) {formals : List Symbol} {body : Value}
    {args : List Value} (captured : FrameId) (hbody : body.HostFree)
    (hargs : ∀ a ∈ args, a.HostFree) (hs : s.All Value.HostFree) :
    Does f (apply host eval f (.lambda formals body captured) args) s
      (callDeeds deeds args s (.lambda formals body captured)) := by
  by_cases fits : args.length = formals.length
  · simp only [callDeeds, dif_pos fits]
    have hinner := @Store.All.push _ _ hs formals args hargs (some captured)
    obtain ⟨r, hr⟩ := h.does body s.next _ hbody hinner
      (by rw [Store.next_push]; exact Nat.lt_succ_self _)
    rw [Store.outer?_push, if_pos rfl] at hr
    refine ⟨r, ?_⟩
    rw [rowEvents, rowEvents, List.append_nil]
    exact (logs_extend fits body captured s).bind ((logs_record _ _).bind hr)
  · simp only [callDeeds, dif_neg fits]
    exact .of_logs (logs_extend_of_ne fits body captured s).bind_error

theorem apply (h : Faithful eval deeds) {fn : Value} {args : List Value} (hfn : fn.HostFree)
    (hargs : ∀ a ∈ args, a.HostFree) (hs : s.All Value.HostFree) :
    Does f (apply host eval f fn args) s (callDeeds deeds args s fn) := by
  cases fn with
  | lambda formals body captured =>
    exact h.does_lambda captured (closed_hostFree.body _ _ _ hfn) hargs hs
  | function fn =>
    cases fn with
    | operator op => exact .of_logs (logs_ofExcept (op.apply args) s)
    | host fn => exact absurd hfn (closed_hostFree.host fn)
  | _ => exact .of_logs (logs_throw (.notFunction _) s)

theorem list (h : Faithful eval deeds) (hitems : ∀ e ∈ items, e.HostFree)
    (hs : s.All Value.HostFree) (hf : f < s.next) :
    Does f (list host eval f items) s (listDeeds eval deeds f s items) := by
  cases items with
  | nil => exact .of_logs (logs_throw .emptyList s)
  | cons head tail =>
    obtain ⟨hhead, htail⟩ := List.forall_mem_cons.1 hitems
    cases hform : head.form? with
    | some keyword =>
      simp only [Evaluate.list, listDeeds, hform]
      exact h.form keyword htail hs hf
    | none =>
      simp only [Evaluate.list, listDeeds, hform]
      refine Does.bind hf (h.does head f s hhead hs hf) fun fn s₁ hv hf₁ => ?_
      obtain ⟨hfn, hs₁⟩ := h.hostFree hhead hs hv
      refine Does.bind hf₁ (h.operands htail hs₁ hf₁) fun args s₂ hvs _ => ?_
      obtain ⟨hargs, hs₂⟩ := h.hostFree_operands htail hs₁ hvs
      exact h.apply hfn hargs hs₂

/-- One level of evaluation does what is told if what is nested inside does. -/
theorem step (h : Faithful eval deeds) : Faithful (step host eval) (stepDeeds eval deeds) where
  keeps := h.keeps.step
  does e f s he hs hf := by
    cases e with
    | symbol x => exact .of_logs (logs_lookup f x s)
    | list items => exact h.list (closed_hostFree.items _ he) hs hf
    | hostList kind items =>
      exact h.list (closed_hostFree.items _ (closed_hostFree.hostList kind _ he)) hs hf
    | _ => exact .of_logs (logs_pure _ s)

end Faithful
end Evaluate

/-- **An evaluation does what is told of it and records that alone**, however it ends. -/
theorem evaluate_faithful (host : Host) (depth : Nat) :
    Evaluate.Faithful (evaluate host depth) (evaluateDeeds host depth) := by
  induction depth with
  | zero =>
    exact ⟨Evaluate.sameFree host host 0, fun _ _ s _ _ _ => .of_logs (logs_throw .tooDeep s)⟩
  | succ depth ih => exact ih.step

end Lisplet
