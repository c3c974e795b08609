/-
# What operators refuse

An operator first counts its arguments (`Operator.Takes`): arithmetic takes one or more,
a comparison takes two.  Then it goes through them from the left and refuses the first
that is no number, and only when all are numbers does it compute.  So of several things
that are wrong with a call the count comes first, then the leftmost argument at fault,
and a whole number that is too large for a double last (`Operator.apply_of_not_takes`,
`Operator.apply_of_atFault?`, `Operator.apply_of_atFault?_eq_none`).

The error for an argument shows it, so an argument that cannot be written is refused
with the error of its writing (`unwritable_argument_refused`).  No call of an operator
touches the machine.
-/

import Lisplet.Evaluate
import Lisplet.Proofs.Operator
import Lisplet.Proofs.Outcome

namespace Lisplet

namespace Operator

/-- An operator takes so many arguments. -/
def Takes : Operator → Nat → Prop
  | .arithmetic _, n => n ≠ 0
  | .comparison _, n => n = 2

/-- The error of an operator that does not take so many arguments. -/
def countError : Operator → Nat → Error
  | .arithmetic op, _ => .noArgument op
  | .comparison op, n => .notTwoArguments op n

/-- What an operator gives: arithmetic a number, a comparison a truth value. -/
def Gives : Operator → Value → Prop
  | .arithmetic _, v => ∃ n, v = .number n
  | .comparison _, v => ∃ b, v = .bool b

/-- The leftmost argument that is no number, if there is one. -/
def atFault? (args : List Value) : Option Value := args.find? fun a => a.number?.isNone

variable {op : Operator} {args : List Value} {v : Value}

theorem atFault?_eq_none (h : atFault? args = none) : ∀ v ∈ args, v.number? ≠ none := by
  intro v hv hnone
  have hnumber := List.find?_eq_none.1 h v hv
  rw [hnone] at hnumber
  exact hnumber rfl

theorem kind_countError (op : Operator) (n : Nat) : (op.countError n).kind = .arity := by
  cases op <;> rfl

theorem kind_notNumber (op : Operator) (v : Value) :
    (Error.notNumber op v).kind = if v.isWritable = true then .type else .writing := by
  rw [Error.kind_of_shown_eq rfl]
  rfl

/-- A number of arguments that is not taken is refused whatever they are. -/
theorem apply_of_not_takes (h : ¬ op.Takes args.length) :
    op.apply args = .error (op.countError args.length) := by
  cases op with
  | arithmetic op =>
    obtain rfl : args = [] := List.length_eq_zero_iff.1 (Decidable.not_not.1 h)
    rfl
  | comparison op => exact Comparison.apply_of_length_ne h

/-- Of arguments that are taken the leftmost one at fault is refused. -/
theorem apply_of_atFault? (h : op.Takes args.length) (hv : atFault? args = some v) :
    op.apply args = .error (.notNumber op v) := by
  cases op with
  | arithmetic op => exact Arithmetic.apply_of_find? hv
  | comparison op => exact Comparison.apply_of_find? h hv

/-- With numbers that are taken an operator computes. -/
theorem apply_of_atFault?_eq_none (h : op.Takes args.length) (hv : atFault? args = none) :
    (∃ v, op.Gives v ∧ op.apply args = .ok v) ∨
      (∃ arith, op = .arithmetic arith) ∧ op.apply args = .error .overflow := by
  have hnumbers := atFault?_eq_none hv
  cases op with
  | arithmetic op =>
    rcases op.apply_cases args with ⟨rfl, -⟩ | ⟨v, hmem, hnone, -⟩ | ho | ⟨n, ho⟩
    · exact absurd rfl h
    · exact absurd hnone (hnumbers v hmem)
    · exact .inr ⟨⟨op, rfl⟩, ho⟩
    · exact .inl ⟨_, ⟨n, rfl⟩, ho⟩
  | comparison op =>
    rcases op.apply_cases args with ⟨hne, -⟩ | ⟨v, hmem, hnone, -⟩ | ⟨b, ho⟩
    · exact absurd h hne
    · exact absurd hnone (hnumbers v hmem)
    · exact .inl ⟨_, ⟨b, rfl⟩, ho⟩

end Operator

namespace Evaluate

open Eval Operator

/-- **What operators refuse.**  A call of an operator leaves the machine as it is.

* It fails for the number of its arguments just if that is not taken, whatever they are.
* It refuses an argument for not being a number just if the number of arguments is taken and
  this is the leftmost such argument, whatever the others are.  The error is one of type if
  the argument can be written, and that of writing it if not.
* Otherwise all arguments are numbers, and either arithmetic gives a number and a comparison
  a truth value, or a number in arithmetic is too large for a double. -/
theorem operator_refuses (host : Host) (op : Operator) (args : List Value) (eval : Evaluator)
    (frame : FrameId) (m : Machine) :
    ∃ r, outcome (apply host eval frame (.operator op) args) m = (r, m) ∧
      ((∃ e, r = .error e ∧ e.kind = .arity) ↔ ¬ op.Takes args.length) ∧
      (∀ v, r = .error (.notNumber op v) ↔ op.Takes args.length ∧ atFault? args = some v) ∧
      ((∃ e, r = .error e ∧ e.kind = .type) ↔
        op.Takes args.length ∧ ∃ v, atFault? args = some v ∧ v.isWritable = true) ∧
      ((∃ e, r = .error e ∧ e.kind = .writing) ↔
        op.Takes args.length ∧ ∃ v, atFault? args = some v ∧ v.isWritable = false) ∧
      (op.Takes args.length → atFault? args = none →
        (∃ v, op.Gives v ∧ r = .ok v) ∨
          (∃ arith, op = .arithmetic arith) ∧ r = .error .overflow) := by
  refine ⟨op.apply args, outcome_ofExcept _ m, ?_⟩
  by_cases htakes : op.Takes args.length
  · cases hfault : atFault? args with
    | some v =>
      rw [apply_of_atFault? htakes hfault]
      have hkind := kind_notNumber op v
      cases hw : v.isWritable with
      | true =>
        rw [hw, if_pos rfl] at hkind
        simp [htakes, hkind, hw]
      | false =>
        rw [hw, if_neg (by decide)] at hkind
        simp [htakes, hkind, hw]
    | none =>
      have hcomputes := apply_of_atFault?_eq_none htakes hfault
      rcases hcomputes with ⟨w, hgives, ho⟩ | ⟨harith, ho⟩
      · simp [ho, htakes, hgives]
      · have hkind : Error.overflow.kind = .overflow := rfl
        simp [ho, htakes, harith, hkind]
  · have hkind := kind_countError op args.length
    rw [apply_of_not_takes htakes]
    have hne : ∀ v, op.countError args.length ≠ .notNumber op v := by
      intro v
      cases op <;> nofun
    simp [htakes, hkind, hne]

/-- A list that holds a number of too many digits is no number, but what is refused is the
writing of it: not every argument that is no number is an error of type. -/
theorem unwritable_argument_refused :
    ¬ ∀ (op : Operator) (args : List Value), op.Takes args.length →
      (∃ v ∈ args, v.number? = none) → ∃ e, op.apply args = .error e ∧ e.kind = .type := by
  intro h
  obtain ⟨e, he, hkind⟩ := h (.arithmetic .add) [.int 1, .list [.int Numeral.bound]] nofun
    ⟨.list [.int Numeral.bound], List.mem_cons_of_mem _ (List.mem_cons_self ..), rfl⟩
  obtain rfl : Error.notNumber (.arithmetic .add) (.list [.int Numeral.bound]) = e :=
    Except.error.inj he
  have hw : (Value.list [.int Numeral.bound]).isWritable = false := by
    rw [Value.isWritable, Value.areWritable, Value.areWritable, Bool.and_true]
    exact Numeral.not_isWritable_bound
  rw [kind_notNumber, hw] at hkind
  cases hkind

end Evaluate
end Lisplet
