/-
# Texts are read as a whole and evaluated in order

A session reads a text before it evaluates any of it.  So a text that is not a row of
expressions leaves the machine as it is, trace included, whatever stands in front of
the fault (`outcome_run_of_not_readsAll`), and a text that is one runs as its forms do
(`run_of_readsAll`).

Forms in a row are evaluated as those in front and then those behind
(`runForms_append`), and blanks between two texts keep their tokens apart
(`tokenize_append_blanks`), so two texts with blanks between them run as the first and
then the second: `run_append_blanks`.
-/

import Lisplet.Session
import Lisplet.Proofs.Grammar
import Lisplet.Proofs.Outcome
import Lisplet.Proofs.Tokens

namespace Lisplet
namespace Session

open Eval Reader Text

variable {host : Host} {depth : Nat} {frame : FrameId} {m m' : Machine}

/-- Starts the evaluation of one form of a text. -/
def runForm (host : Host) (depth : Nat) (frame : FrameId) (form : Value) : Eval Value := do
  record (.started form)
  evaluate host depth form frame

/-! ### Rows of forms -/

theorem runForms_cons (last form : Value) (rest : List Value) :
    runForms host depth frame last (form :: rest) =
      runForm host depth frame form >>= fun v => runForms host depth frame v rest := by
  simp only [runForms, runForm, bind_assoc]

/-- Forms in a row are evaluated as those in front and then those behind. -/
theorem runForms_append (before after : List Value) : ∀ last,
    runForms host depth frame last (before ++ after) =
      runForms host depth frame last before >>= fun v => runForms host depth frame v after := by
  induction before with
  | nil => intro last; rfl
  | cons form before ih =>
    intro last
    simp only [List.cons_append, runForms_cons, ih, bind_assoc]

/-- The first form that fails ends its row with the machine as it left it. -/
theorem outcome_runForms_error {before : List Value} {form v last : Value} {err : Error}
    {m₁ : Machine} (hbefore : outcome (runForms host depth frame last before) m = (.ok v, m₁))
    (hform : outcome (runForm host depth frame form) m₁ = (.error err, m')) (after : List Value) :
    outcome (runForms host depth frame last (before ++ form :: after)) m = (.error err, m') := by
  rw [runForms_append, outcome_bind, hbefore]
  simp only
  rw [runForms_cons, outcome_bind, hform]

/-! ### Texts -/

/-- A text that is a row of expressions runs as these. -/
theorem run_of_readsAll {source : String} {forms : List Value}
    (h : ReadsAll (tokenize source) forms) :
    run host depth frame source = runForms host depth frame .unit forms := by
  rw [run, readAll_eq_ok_iff.2 h]
  rfl

/-- A text that is no row of expressions does nothing but fail. -/
theorem outcome_run_of_not_readsAll {source : String}
    (h : ¬ ∃ forms, ReadsAll (tokenize source) forms) (m : Machine) :
    ∃ err, outcome (run host depth frame source) m = (.error err, m) ∧ err.kind = .reading := by
  rcases hread : (readAll (tokenize source)).1 with err | forms
  · refine ⟨err, ?_, kind_of_readAllIn hread⟩
    rw [run, hread]
    rfl
  · exact absurd ⟨forms, readAll_eq_ok_iff.1 hread⟩ h

/-- **A session takes a text as a whole or not at all, and what it takes it takes in
order.**  A text that is no row of expressions fails to be read and changes nothing.
A text whose first forms have values and whose next one fails ends in that error, with
the machine as that form left it.  Two texts with blanks between them have the outcome
of the first and then the second: the first one's error, and else the second one's
outcome, a text without forms leaving the value to the one in front of it; without any
form the value is unit. -/
theorem run_append_blanks (host : Host) (depth : Nat) (frame : FrameId) (m : Machine) :
    (∀ source, (¬ ∃ forms, ReadsAll (tokenize source) forms) →
      ∃ err, outcome (run host depth frame source) m = (.error err, m) ∧ err.kind = .reading) ∧
    (∀ source before form after v m₁ err m₂,
      ReadsAll (tokenize source) (before ++ form :: after) →
      outcome (runForms host depth frame .unit before) m = (.ok v, m₁) →
      outcome (runForm host depth frame form) m₁ = (.error err, m₂) →
      outcome (run host depth frame source) m = (.error err, m₂)) ∧
    (∀ first second w forms₁ forms₂, ReadsAll (tokenize first) forms₁ →
      ReadsAll (tokenize second) forms₂ → w ≠ "" → (∀ c ∈ w.toList, isBlank c = true) →
      outcome (run host depth frame (first ++ w ++ second)) m =
        match outcome (run host depth frame first) m with
        | (.error err, m₁) => (.error err, m₁)
        | (.ok v, m₁) =>
          if forms₂.isEmpty then (.ok v, m₁) else outcome (run host depth frame second) m₁) ∧
    (∀ source, ReadsAll (tokenize source) [] →
      outcome (run host depth frame source) m = (.ok .unit, m)) := by
  refine ⟨fun source h => outcome_run_of_not_readsAll h m, ?_, ?_, ?_⟩
  · intro source before form after v m₁ err m₂ hread hbefore hform
    rw [run_of_readsAll hread]
    exact outcome_runForms_error hbefore hform after
  · intro first second w forms₁ forms₂ hfirst hsecond hne hw
    have hread : ReadsAll (tokenize (first ++ w ++ second)) (forms₁ ++ forms₂) := by
      rw [tokenize_append_blanks hne hw]
      exact hfirst.append hsecond
    rw [run_of_readsAll hread, run_of_readsAll hfirst, run_of_readsAll hsecond, runForms_append,
      outcome_bind]
    rcases outcome (runForms host depth frame .unit forms₁) m with ⟨err | v, m₁⟩
    · rfl
    · cases forms₂ with
      | nil => rfl
      | cons form forms₂ => rfl
  · intro source hread
    rw [run_of_readsAll hread]
    rfl

/-- `pi )` is no row of expressions, though it starts with one: nothing is done.  `pi`
and `y` with a space between them have the outcome of `y` behind `pi`, and there `y` is
not bound. -/
theorem run_append_blanks_unbound :
    (∃ err, outcome (run Host.standard 2 0 "pi )") (fresh .kept) = (.error err, fresh .kept) ∧
      err.kind = .reading) ∧
    outcome (run Host.standard 2 0 ("pi" ++ " " ++ "y")) (fresh .kept) =
      outcome (run Host.standard 2 0 "y") (outcome (run Host.standard 2 0 "pi") (fresh .kept)).2 ∧
    (outcome (run Host.standard 2 0 "y") (outcome (run Host.standard 2 0 "pi") (fresh .kept)).2).1 =
      .error (.unbound ⟨"y"⟩) := by
  have hpi : ReadsAll (tokenize "pi") [.symbol ⟨"pi"⟩] := readAll_eq_ok_iff.1 rfl
  have hy : ReadsAll (tokenize "y") [.symbol ⟨"y"⟩] := readAll_eq_ok_iff.1 rfl
  obtain ⟨hunread, -, happend, -⟩ := run_append_blanks .standard 2 0 (fresh .kept)
  refine ⟨hunread "pi )" ?_, ?_, rfl⟩
  · rintro ⟨forms, hforms⟩
    cases readAll_eq_ok_iff.2 hforms
  · exact happend "pi" "y" " " _ _ hpi hy (by simp) (by simp [isBlank_space])

end Session
end Lisplet
