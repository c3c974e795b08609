/-
# The trace of a text

A text starts its forms one after another and stops at the first that fails.
`Session.chronicle` lists the forms that are started, each with what its evaluation does,
and `Session.recorded` puts the start of a form before the events of its deeds.  A run of
the text leaves the store on which these deeds were done and records these events, no more
and no others (`logs_runForms`, by induction on the forms).

So everything about the trace of a run can be read off its deeds, and the other way round:
`run_traced` says which forms were started, that the definitions on record are the bindings
of the frame if this frame is a root, and that the calls on record are the frames that were
made.  That the result and the store are the same with and without a trace is part of it.
-/

import Lisplet.Proofs.Chronicle
import Lisplet.Proofs.Sequencing

namespace Lisplet
namespace Session

open Eval Deed Reader

/-- The forms of a text that are started, each with what its evaluation does.  The first
one that fails is the last. -/
def chronicle (host : Host) (depth : Nat) (f : FrameId) :
    List Value → Store → List (Value × List Deed)
  | [], _ => []
  | form :: rest, s =>
    (form, evaluateDeeds host depth form f s) ::
      (evaluate host depth form f).andThen s fun _ s' => chronicle host depth f rest s'

/-- What is recorded of forms: the start of each one, and then what its evaluation does. -/
def recorded (root : Bool) (done : List (Value × List Deed)) : List Event :=
  done.flatMap fun (form, ds) => .started form :: rowEvents root ds

/-- The forms that were started when a row of forms ended: all of them if it ended in a
value, and if not, those in front of the one that failed and this one. -/
def Started (host : Host) (depth : Nat) (f : FrameId) (s : Store) (last : Value)
    (forms started : List Value) : Except Error Value → Prop
  | .ok _ => started = forms
  | .error err => ∃ front form back v s₁ s₂, forms = front ++ form :: back ∧
    started = front ++ [form] ∧ (runForms host depth f last front).ends s = (.ok v, s₁) ∧
    (evaluate host depth form f).ends s₁ = (.error err, s₂)

variable {host : Host} {f : FrameId} {s : Store}

/-! ### The events of forms -/

/-- There is one start on record for each form, in order. -/
theorem started?_recorded (root : Bool) (done : List (Value × List Deed)) :
    (recorded root done).filterMap Event.started? = done.map Prod.fst := by
  induction done with
  | nil => rfl
  | cons one done ih =>
    rw [recorded, List.flatMap_cons, List.filterMap_append, List.filterMap_cons,
      started?_rowEvents, List.map_cons, ← ih]
    rfl

/-- Starts aside, what is recorded of forms are the events of all that they do. -/
theorem filterMap_recorded {γ : Type} {g : Event → Option γ}
    (hg : ∀ form, g (.started form) = none) (root : Bool) (done : List (Value × List Deed)) :
    (recorded root done).filterMap g =
      (rowEvents root (done.flatMap Prod.snd)).filterMap g := by
  induction done with
  | nil => rfl
  | cons one done ih =>
    rw [recorded, List.flatMap_cons, List.filterMap_append, List.filterMap_cons, hg,
      List.flatMap_cons, rowEvents_append, List.filterMap_append, ← ih]
    rfl

/-! ### Runs -/

/-- **A row of forms does what is told of it and records that alone.** -/
theorem logs_runForms (host : Host) (depth : Nat) {forms : List Value} :
    ∀ {s : Store} (last : Value),
    (∀ form ∈ forms, form.HostFree) → s.All Value.HostFree → f < s.next →
    let done := chronicle host depth f forms s
    ∃ r, Logs (runForms host depth f last forms) s r (replayAll f (done.flatMap Prod.snd) s)
        (recorded (s.outer? f).isNone done) ∧
      Started host depth f s last forms (done.map Prod.fst) r := by
  induction forms with
  | nil => exact fun last _ _ _ => ⟨.ok last, logs_pure last _, rfl⟩
  | cons form rest ih =>
    intro s last hforms hs hf done
    obtain ⟨hform, hrest⟩ := List.forall_mem_cons.1 hforms
    obtain ⟨r, hr⟩ := (evaluate_faithful host depth).does form f s hform hs hf
    generalize hds : evaluateDeeds host depth form f s = ds at hr
    have hone : Logs (runForm host depth f form) s r _ (.started form :: rowEvents _ _) :=
      (logs_record (.started form) s).bind hr
    cases r with
    | error err =>
      have hdone : done = [(form, ds)] := by simp only [done, chronicle, andThen, hr.ends, hds]
      rw [hdone, runForms_cons]
      have hnone : (runForms host depth f last []).ends s = (.ok last, s) :=
        (logs_pure last s).ends
      refine ⟨.error err, ?_, [], form, rest, last, s, _, rfl, rfl, hnone, hr.ends⟩
      simpa [recorded] using hone.bind_error
    | ok v =>
      obtain ⟨-, hs₁⟩ := (evaluate_faithful host depth).hostFree hform hs hr.ends
      have hf₁ := Nat.lt_of_lt_of_le hf (next_le_replayAll f ds s)
      obtain ⟨r', hr', hstarted⟩ := ih v hrest hs₁ hf₁
      rw [outer?_replayAll f ds hf] at hr'
      have hdone : done = (form, ds) :: chronicle host depth f rest (replayAll f ds s) := by
        simp only [done, chronicle, andThen, hr.ends, hds]
      rw [hdone, runForms_cons]
      refine ⟨r', ?_, ?_⟩
      · rw [recorded, List.flatMap_cons, List.flatMap_cons, replayAll_append]
        exact hone.bind hr'
      · cases r' with
        | ok _ => exact congrArg (form :: ·) hstarted
        | error err =>
          obtain ⟨front, form', back, v', s₂, s₃, rfl, hmap, hfront, herr⟩ := hstarted
          refine ⟨form :: front, form', back, v', s₂, s₃, rfl, congrArg (form :: ·) hmap, ?_, herr⟩
          rw [runForms_cons]
          exact hone.ends_bind.trans hfront

/-- **The trace of a text tells what its run did.**  Where there are no host functions, what
a run of a text does is `deeds`, and `events` is what it records, whatever the run ends in:

* the result and the store that is left are the same with the trace kept and without one, and
  also with the trace written while it grows if all of it can be written; the trace gets the
  events, no more and no others;
* there is one start on record for each form that was started, in order, and it comes before
  all that is recorded of the form; these are all forms, or those up to the one that failed;
* the definitions on record are, in order, the bindings that were made in the frame of the
  text if it is a root, and otherwise there are none; those bindings are the only change to it,
  and no other frame that existed was changed or moved, whatever the lambdas that were applied
  define;
* the calls on record are the lambdas applied to as many arguments as they have parameters:
  there are as many as frames were made, each has a frame of its own, in the same order, and
  what a body does is on record after its call. -/
theorem run_traced (host : Host) (depth : Nat) {source : String} {forms : List Value}
    (hf : f < s.next) (hs : s.All Value.HostFree) (hread : ReadsAll (tokenize source) forms) :
    let done := chronicle host depth f forms s
    let deeds := done.flatMap Prod.snd
    let events := recorded (s.outer? f).isNone done
    let calls := events.filterMap Event.call?
    let s' := replayAll f deeds s
    (∃ r,
      (∀ trace, outcome (run host depth f source) ⟨s, .kept, trace⟩ =
        (r, ⟨s', .kept, trace ++ events.toArray⟩)) ∧
      (∀ trace, outcome (run host depth f source) ⟨s, .off, trace⟩ = (r, ⟨s', .off, trace⟩)) ∧
      ((∀ event ∈ events, event.isWritable = true) →
        ∀ trace, outcome (run host depth f source) ⟨s, .written, trace⟩ =
          (r, ⟨s', .written, trace ++ events.toArray⟩)) ∧
      Started host depth f s .unit forms (done.map Prod.fst) r) ∧
    events.filterMap Event.started? = done.map Prod.fst ∧
    (s.outer? f = none → events.filterMap Event.defined? = (made deeds).map Prod.fst) ∧
    (s.outer? f ≠ none → events.filterMap Event.defined? = []) ∧
    s'.bindings f = (s.bindings f).insertAll (made deeds) ∧
    (∀ g < s.next, s'.outer? g = s.outer? g ∧ (g ≠ f → s'.frame? g = s.frame? g)) ∧
    s'.next = s.next + calls.length ∧
    (∀ call ∈ calls, call.2.length = call.1.length) ∧
    ∀ i call, calls[i]? = some call → IsFrameOf call s' (s.next + i) := by
  intro done deeds events calls s'
  have hforms : ∀ form ∈ forms, form.HostFree := fun form hform =>
    Value.hostFree_of_isTree (Value.areTrees_iff.1 hread.areTrees form hform)
  obtain ⟨r, hr, hstarted⟩ := logs_runForms host depth .unit hforms hs hf
  rw [← run_of_readsAll hread] at hr
  have hdefined : events.filterMap Event.defined? =
      if (s.outer? f).isNone then (made deeds).map Prod.fst else [] := by
    rw [filterMap_recorded (fun _ => rfl), defined?_rowEvents]
  have hcalls : calls = (rowEvents (s.outer? f).isNone deeds).filterMap Event.call? :=
    filterMap_recorded (fun _ => rfl) _ _
  refine ⟨⟨r, fun trace => hr ⟨s, .kept, trace⟩ rfl nofun, fun trace => ?_,
    fun hw trace => hr ⟨s, .written, trace⟩ rfl fun _ => hw, hstarted⟩,
    started?_recorded _ _, fun ho => ?_, fun ho => ?_, bindings_replayAll deeds hf,
    fun g hg => ⟨outer?_replayAll f deeds hg, fun hne => ?_⟩, ?_, ?_, fun i call hcall => ?_⟩
  · rw [hr ⟨s, .off, trace⟩ rfl nofun]
    simp [Machine.advance, Tracing.taken, s', deeds, done]
  · rw [hdefined, ho]
    rfl
  · rw [hdefined, if_neg (by simpa using ho)]
  · rw [frame?_replayAll deeds hg, if_neg hne]
  · rw [hcalls]
    exact next_replayAll _ f deeds s
  · rw [hcalls]
    exact length_of_call?_rowEvents _ deeds
  · rw [hcalls] at hcall
    exact isFrameOf_replayAll _ f deeds s hcall

/-- Three forms over a root where `f` is a lambda that defines `y`.  The first form applies it:
the binding of `y` is not on record and not in the root.  The second one gives it too few
arguments and fails, so that the third is not started. -/
theorem run_traced_failing :
    let x : Value := .symbol ⟨"x"⟩
    let f : Value := .symbol ⟨"f"⟩
    let define (y : Symbol) (e : Value) : Value :=
      .list [.symbol Form.definition.keyword, .symbol y, e]
    let body := define ⟨"y"⟩ x
    let fn : Value := .lambda [⟨"x"⟩] body 0
    let forms := [define ⟨"z"⟩ (.list [f, f]), .list [f], define ⟨"w"⟩ f]
    let source := "(define z (f f)) (f) (define w f)"
    let s : Store := Store.empty.push ⟨⟨[(⟨"f"⟩, fn)]⟩, none⟩
    let s' : Store := ⟨#[⟨⟨[(⟨"f"⟩, fn), (⟨"z"⟩, .unit)]⟩, none⟩,
      ⟨⟨[(⟨"x"⟩, fn), (⟨"y"⟩, fn)]⟩, some 0⟩]⟩
    let events : List Event := [.started forms[0], .applied [⟨"x"⟩] body [fn], .defined ⟨"z"⟩,
      .started forms[1]]
    let r := .error (.argumentCount [⟨"x"⟩] body 0)
    outcome (run Host.standard 4 0 source) ⟨s, .kept, #[]⟩ = (r, ⟨s', .kept, events.toArray⟩) ∧
      outcome (run Host.standard 4 0 source) ⟨s, .off, #[]⟩ = (r, ⟨s', .off, #[]⟩) ∧
      (s'.bindings 0).names = ⟨"f"⟩ :: events.filterMap Event.defined? ∧
      s'.next = s.next + 1 ∧ IsFrameOf ([⟨"x"⟩], [fn]) s' 1 := by
  intro x f define body fn forms source s s' events r
  have hs : s.All Value.HostFree := by
    have hempty : Store.empty.All Value.HostFree := fun _ _ _ h => nomatch h
    have hfn : ∀ a ∈ [fn], a.HostFree := List.forall_mem_singleton.2 rfl
    exact @Store.All.push _ _ hempty [⟨"f"⟩] [fn] hfn none
  have hread : ReadsAll (tokenize source) forms := by
    have htree : (readAll (tokenize "(define z (f f)) (f) (define w f)")).1 = .ok forms := rfl
    exact readAll_eq_ok_iff.1 htree
  have hdone : chronicle .standard 4 0 forms s =
      [(forms[0], [.applied [⟨"x"⟩] body 0 [fn] rfl [.bound ⟨"y"⟩ fn], .bound ⟨"z"⟩ .unit]),
        (forms[1], [])] := rfl
  have hresult : (outcome (runForms Host.standard 4 0 .unit forms) ⟨s, .off, #[]⟩).1 = r := rfl
  obtain ⟨⟨r', hkept, hoff, -⟩, -, -, -, -, -, hnext, -, hcalls⟩ :=
    run_traced .standard 4 (by decide : 0 < s.next) hs hread
  rw [hdone] at hkept hoff hnext hcalls
  obtain rfl : r' = r := by
    rw [← hresult, ← run_of_readsAll hread, hoff]
  exact ⟨hkept #[], hoff #[], rfl, hnext, hcalls 0 _ rfl⟩

end Session
end Lisplet
