/-
# Sequence forms

A text is a row of forms, and so is a sequence form.  Running a text and evaluating the text
in the parentheses of a sequence form come to the same, the form being one level deeper
(`readOne_sequence`, `approximates_sequence`); they differ in their traces alone, since a
session records the forms that it starts.  And a sequence form may be written out in place
inside of another one, unless it is empty: then it has a value of its own, which is lost.

The two are put together in `run_as_sequence`.
-/

import Lisplet.Proofs.Approximation
import Lisplet.Proofs.ClosedWorld
import Lisplet.Proofs.Piecewise
import Lisplet.Proofs.Sequencing

namespace Lisplet

open Eval Reader Text

/-- The form that evaluates its parts in order. -/
def Value.sequenceForm (parts : List Value) : Value :=
  .list (.symbol Form.sequence.keyword :: parts)

/-! ### Machines that differ in their traces -/

/-- Two machines have the same store and do the same about events. -/
def Machine.SameButTrace (m n : Machine) : Prop := m.store = n.store ∧ m.tracing = n.tracing

/-- Nothing but the trace tells such machines apart. -/
theorem Machine.indistinct_sameButTrace (stop : Error → Prop) :
    Machine.Indistinct Machine.SameButTrace stop where
  store_eq h := h.1
  write s h := ⟨rfl, h.2⟩
  record := by
    rintro event ⟨s, tracing, trace⟩ ⟨_, _, trace'⟩ ⟨rfl, rfl⟩
    unfold record
    rw [outcome_get_bind, outcome_get_bind]
    cases tracing with
    | off => exact .inr ⟨rfl, rfl, rfl⟩
    | kept => exact .inr ⟨rfl, rfl, rfl⟩
    | written =>
      dsimp only
      split
      · exact .inr ⟨rfl, rfl, rfl⟩
      · exact .inr ⟨rfl, rfl, rfl⟩

/-- Host functions ignore the trace: on machines that differ in their traces alone a call ends
in the same and leaves such machines, if the evaluation inside of it does. -/
def Host.IgnoresTrace (host : Host) : Prop :=
  Host.Approximates Machine.SameButTrace never host host

theorem Host.ignoresTrace_standard : Host.standard.IgnoresTrace :=
  Host.approximates_standard (Machine.indistinct_sameButTrace never)

/-- An event that can be written may be recorded on one of two such machines alone. -/
theorem Eval.Approximates.record_left {α : Type} {stop : Error → Prop} {event : Event}
    {x y : Eval α} (h : Approximates Machine.SameButTrace stop x y)
    (hevent : event.isWritable = true) :
    Approximates Machine.SameButTrace stop (record event >>= fun _ => x) y := by
  intro m n hmn
  rw [outcome_bind]
  obtain ⟨trace, ho | ⟨-, hwritable, -⟩⟩ := outcome_record event m
  · rw [ho]
    exact h { m with trace } n hmn
  · cases hevent.symm.trans hwritable

/-! ### Texts -/

variable {host : Host}

namespace Session

/-- Forms of a session are evaluated as the parts of a sequence form are. -/
theorem approximates_sequence (hhost : host.IgnoresTrace) (depth : Nat) (frame : FrameId)
    {forms : List Value} (h : ∀ form ∈ forms, form.isWritable = true) : ∀ last,
    Eval.Approximates Machine.SameButTrace never (runForms host depth frame last forms)
      (Evaluate.sequence (evaluate host depth) frame last forms) := by
  induction forms with
  | nil => exact fun last => approximates_pure last
  | cons form forms ih =>
    intro last
    obtain ⟨hform, hforms⟩ := List.forall_mem_cons.1 h
    have hevent : (Event.started form).isWritable = true := by
      rw [Event.isWritable, Event.shown, List.all_cons, hform]
      rfl
    have hsame := Machine.indistinct_sameButTrace never
    have hself := Evaluate.approximates_self hsame hhost depth
    exact ((hself form frame).bind fun v => ih hforms v).record_left hevent

/-- A text in the parentheses of a sequence form is read as the sequence form of its
forms. -/
theorem readOne_sequence {code : String} {forms : List Value}
    (h : ReadsAll (tokenize code) forms) :
    readOne ("(begin " ++ code ++ ")") = pure (Value.sequenceForm forms) := by
  have hword : tokenize "begin" = ["begin"] := rfl
  have htokens : tokenize ("(begin " ++ code ++ ")") =
      opening :: ("begin" :: tokenize code) ++ [closing] := by
    have hsplit : "(begin " ++ code ++ ")" = "(" ++ ("begin" ++ " " ++ code) ++ ")" := by
      apply String.toList_inj.1
      simp
    rw [hsplit, tokenize_parentheses, tokenize_append_space, hword]
    rfl
  have hkeyword : Reads ["begin"] (.symbol Form.sequence.keyword) :=
    .atom (by decide) (by decide)
  refine readOne_of_reads ?_
  rw [htokens]
  exact .list (.cons hkeyword h)

end Session

/-! ### Forms in forms -/

namespace Evaluate

variable {eval : Evaluator} {f : FrameId} {inner : List Value}

theorem sequence_append (before after : List Value) : ∀ last,
    sequence eval f last (before ++ after) =
      sequence eval f last before >>= fun v => sequence eval f v after := by
  induction before with
  | nil => exact fun last => rfl
  | cons e before ih =>
    intro last
    simp only [List.cons_append, sequence, ih, bind_assoc]

/-- What stands in front of a row of expressions does not matter, unless the row is empty. -/
theorem sequence_of_ne_nil (h : inner ≠ []) (last last' : Value) :
    sequence eval f last inner = sequence eval f last' inner := by
  obtain ⟨e, rest, rfl⟩ := List.exists_cons_of_ne_nil h
  rfl

theorem evaluate_sequenceForm (depth : Nat) (parts : List Value) (frame : FrameId) :
    evaluate host (depth + 1) (Value.sequenceForm parts) frame =
      sequence (evaluate host depth) frame .unit parts :=
  evaluate_keyword depth .sequence parts frame

theorem evaluate_nested (depth : Nat) (before inner after : List Value) (frame : FrameId) :
    evaluate host (depth + 1)
        (Value.sequenceForm (before ++ Value.sequenceForm inner :: after)) frame =
      sequence (evaluate host depth) frame .unit before >>= fun _ =>
        evaluate host depth (Value.sequenceForm inner) frame >>= fun v =>
          sequence (evaluate host depth) frame v after := by
  rw [evaluate_sequenceForm, sequence_append]
  rfl

theorem evaluate_spliced (hinner : inner ≠ []) (depth : Nat) (before after : List Value)
    (frame : FrameId) :
    evaluate host (depth + 1) (Value.sequenceForm (before ++ inner ++ after)) frame =
      sequence (evaluate host depth) frame .unit before >>= fun _ =>
        sequence (evaluate host depth) frame .unit inner >>= fun v =>
          sequence (evaluate host depth) frame v after := by
  rw [evaluate_sequenceForm, List.append_assoc, sequence_append]
  congr 1
  funext v
  rw [sequence_append, sequence_of_ne_nil hinner v .unit]

variable (hhost : host.IgnoresLimit host) (before after : List Value) (frame : FrameId)
include hhost

/-- Writing out a sequence form inside of another one needs no more depth. -/
theorem approximates_spliced (hinner : inner ≠ []) (depth : Nat) :
    Eval.Approximates Eq (· = .tooDeep)
      (evaluate host depth (Value.sequenceForm (before ++ Value.sequenceForm inner :: after)) frame)
      (evaluate host depth (Value.sequenceForm (before ++ inner ++ after)) frame) := by
  have heq := Machine.indistinct_eq (· = .tooDeep)
  have hself := approximates_self heq hhost
  cases depth with
  | zero => exact approximates_zero (by rfl) _ _ _
  | succ depth =>
    rw [evaluate_nested, evaluate_spliced hinner]
    refine ((hself depth).sequence frame before .unit).bind fun _ => ?_
    refine Eval.Approximates.bind ?_ fun v => (hself depth).sequence frame after v
    cases depth with
    | zero => exact approximates_zero (by rfl) _ _ _
    | succ depth =>
      have hle := approximates_of_le heq rfl hhost (Nat.le_succ depth)
      rw [evaluate_sequenceForm]
      exact hle.sequence frame inner .unit

/-- Putting parts of a sequence form into one of their own needs one level more at most. -/
theorem approximates_nested (hinner : inner ≠ []) (depth : Nat) :
    Eval.Approximates Eq (· = .tooDeep)
      (evaluate host depth (Value.sequenceForm (before ++ inner ++ after)) frame)
      (evaluate host (depth + 1)
        (Value.sequenceForm (before ++ Value.sequenceForm inner :: after)) frame) := by
  have heq := Machine.indistinct_eq (· = .tooDeep)
  cases depth with
  | zero => exact approximates_zero (by rfl) _ _ _
  | succ depth =>
    have hle := approximates_of_le heq rfl hhost (Nat.le_succ depth)
    have hself := approximates_self heq hhost depth
    rw [evaluate_nested, evaluate_spliced hinner, evaluate_sequenceForm]
    exact (hle.sequence frame before .unit).bind fun _ =>
      (hself.sequence frame inner .unit).bind fun v => hle.sequence frame after v

end Evaluate

namespace Session

/-- **A text is a sequence form.**  Let host functions ignore the trace and the limit.  If a
text is a row of expressions, then running it and
evaluating it in the parentheses of a sequence form, which is one level deeper, end in the same
value or the same error and leave the same store, in every frame and on every machine: also if
a form fails midway, and if there is none.  And a sequence form that stands in another one may
be written out there if it is not empty: apart from the one level that this saves, the outcome
is the same, the store and even the trace with it. -/
theorem run_as_sequence (htrace : host.IgnoresTrace) (hlimit : host.IgnoresLimit host)
    (depth : Nat) (frame : FrameId) (m : Machine) :
    (∀ code forms, ReadsAll (tokenize code) forms →
      let text := outcome (run host depth frame code) m
      let wrapped := outcome (readOne ("(begin " ++ code ++ ")") >>= fun e =>
        evaluate host (depth + 1) e frame) m
      wrapped.1 = text.1 ∧ wrapped.2.store = text.2.store) ∧
    ∀ before inner after, inner ≠ [] → ∀ r m', (∀ err, r = .error err → err.kind ≠ .depth) →
      let nested := Value.sequenceForm (before ++ Value.sequenceForm inner :: after)
      let spliced := Value.sequenceForm (before ++ inner ++ after)
      (outcome (evaluate host depth nested frame) m = (r, m') →
        outcome (evaluate host depth spliced frame) m = (r, m')) ∧
      (outcome (evaluate host depth spliced frame) m = (r, m') →
        outcome (evaluate host (depth + 1) nested frame) m = (r, m')) := by
  constructor
  · intro code forms hread text wrapped
    have hwritable : ∀ form ∈ forms, form.isWritable = true := fun form hform =>
      Value.isWritable_of_isTree (Value.areTrees_iff.1 hread.areTrees form hform)
    have hwrapped : wrapped =
        outcome (Evaluate.sequence (evaluate host depth) frame .unit forms) m := by
      show outcome _ m = _
      rw [readOne_sequence hread, pure_bind, Evaluate.evaluate_sequenceForm]
    have htext : text = outcome (runForms host depth frame .unit forms) m := by
      show outcome _ m = _
      rw [run_of_readsAll hread]
    rw [hwrapped, htext]
    rcases approximates_sequence htrace depth frame hwritable .unit m m ⟨rfl, rfl⟩ with
      ⟨err, hnever, -⟩ | ⟨hresult, hstore, -⟩
    · exact (hnever : never err).elim
    · exact ⟨hresult.symm, hstore.symm⟩
  · intro before inner after hinner r m' hr nested spliced
    have hr : r ≠ .error .tooDeep := fun hdeep => hr _ hdeep rfl
    constructor
    · intro ho
      exact (Evaluate.approximates_spliced hlimit before after frame hinner depth).outcome_eq ho hr
    · intro ho
      exact (Evaluate.approximates_nested hlimit before after frame hinner depth).outcome_eq ho hr

/-- A text whose second form fails: the definition in front of it stays, wrapped or not.  The
same definition in a sequence form of its own does what it does outside of it. -/
theorem run_as_sequence_failing :
    let m : Machine := ⟨Store.empty.push ⟨⟨[(⟨"y"⟩, .int 5)]⟩, none⟩, .kept, #[]⟩
    let wrapped := outcome (readOne ("(begin " ++ "(define x y) z" ++ ")") >>= fun e =>
      evaluate Host.standard 3 e 0) m
    let definition : Value :=
      .list [.symbol Form.definition.keyword, .symbol ⟨"x"⟩, .symbol ⟨"y"⟩]
    let x : Value := .symbol ⟨"x"⟩
    let nested := Value.sequenceForm [Value.sequenceForm [definition, x], x]
    wrapped.1 = .error (.unbound ⟨"z"⟩) ∧
      (wrapped.2.store.bindings 0).get? ⟨"x"⟩ = some (.int 5) ∧
      (outcome (evaluate Host.standard 4 nested 0) m).1 = .ok (.int 5) ∧
      outcome (evaluate Host.standard 4 nested 0) m =
        outcome (evaluate Host.standard 3 (Value.sequenceForm [definition, x, x]) 0) m := by
  intro m wrapped definition x nested
  have hread : ReadsAll (tokenize "(define x y) z") [definition, .symbol ⟨"z"⟩] :=
    readAll_eq_ok_iff.1 rfl
  have hlimit : Host.standard.IgnoresLimit .standard :=
    Host.approximates_standard (Machine.indistinct_eq _)
  obtain ⟨hresult, hstore⟩ := (run_as_sequence Host.ignoresTrace_standard hlimit 2 0 m).1 _ _ hread
  rw [run_of_readsAll hread] at hresult hstore
  simp only [Nat.reduceAdd] at hresult hstore
  have hvalue : (outcome (evaluate Host.standard 3 (Value.sequenceForm [definition, x, x]) 0) m).1 =
      .ok (.int 5) := rfl
  have hspliced := ((run_as_sequence Host.ignoresTrace_standard hlimit 3 0 m).2 []
    [definition, x] [x] (List.cons_ne_nil _ _) _
    (outcome (evaluate Host.standard 3 (Value.sequenceForm [definition, x, x]) 0) m).2
    (fun err herr => nomatch hvalue.symm.trans herr)).2 (Prod.eta _).symm
  have hbound : ((outcome (runForms Host.standard 2 0 .unit [definition, .symbol ⟨"z"⟩])
      m).2.store.bindings 0).get? ⟨"x"⟩ = some (.int 5) := rfl
  dsimp only [wrapped]
  refine ⟨hresult, ?_, rfl, hspliced.trans (Prod.eta _)⟩
  rw [hstore]
  exact hbound

end Session
end Lisplet
