/-
# A deeper limit changes nothing that was finished

A bounded evaluation approximates one with a deeper limit: it is broken off for being nested
too deeply, or it ends in the same result, with the same store, and has recorded the same
events (`evaluate_deeper`).

No part of the evaluator looks at an error that comes from inside, and none looks at the
trace, so this is proved for more than one limit and another.  `Eval.Approximates R stop x y`
compares two computations on machines that a relation `R` takes for the same; if `R` knows the
stores, and writing and recording keep to it (`Machine.Indistinct`), then each part of the
evaluator takes evaluators that approximate one another to computations that do, up to one
level of evaluation (`Approximates.step`).  Two inductions on the depth follow from that one
step: a limit against a deeper one (`approximates_of_le`), and a limit against itself on
machines that differ (`approximates_self`).

A host function might do what the evaluator does not: catch the error of a limit, ask for the
limit, or read the trace.  So the same is a condition on its calls (`Host.Approximates`).  The
calls of the standard host meet it for every `R` (`Host.approximates_standard`).
-/

import Lisplet.Session
import Lisplet.Proofs.Outcome

namespace Lisplet

open Eval

variable {R : Machine → Machine → Prop} {stop : Error → Prop}

namespace Eval

variable {α β : Type}

/-- On machines related by `R` a computation is broken off with an error of `stop`, or it has
the result of the other one and both leave related machines. -/
def Approximates (R : Machine → Machine → Prop) (stop : Error → Prop) (x y : Eval α) : Prop :=
  ∀ m n, R m n → (∃ err, stop err ∧ (outcome x m).1 = .error err) ∨
    (outcome x m).1 = (outcome y n).1 ∧ R (outcome x m).2 (outcome y n).2

theorem approximates_pure (a : α) : Approximates R stop (pure a) (pure a) :=
  fun _ _ hmn => .inr ⟨rfl, hmn⟩

theorem approximates_throw (err : Error) : Approximates R stop (throw err : Eval α) (throw err) :=
  fun _ _ hmn => .inr ⟨rfl, hmn⟩

theorem approximates_ofExcept (r : Except Error α) :
    Approximates R stop (ofExcept r) (ofExcept r) := by
  intro m n hmn
  rw [outcome_ofExcept, outcome_ofExcept]
  exact .inr ⟨rfl, hmn⟩

/-- What goes on after a value is compared for each value; an error ends both. -/
theorem Approximates.bind {x y : Eval α} {k l : α → Eval β} (hx : Approximates R stop x y)
    (hk : ∀ a, Approximates R stop (k a) (l a)) : Approximates R stop (x >>= k) (y >>= l) := by
  intro m n hmn
  rw [outcome_bind, outcome_bind]
  have hcases := hx m n hmn
  generalize outcome x m = p at hcases ⊢
  generalize outcome y n = q at hcases ⊢
  obtain ⟨r, m'⟩ := p
  obtain ⟨r', n'⟩ := q
  rcases hcases with ⟨err, hstop, rfl⟩ | ⟨rfl, hmn'⟩
  · exact .inl ⟨err, hstop, rfl⟩
  · cases r with
    | error err => exact .inr ⟨rfl, hmn'⟩
    | ok a => exact hk a m' n' hmn'

end Eval

/-! ### The operations of a machine -/

/-- A relation between machines with the same store that stays when both stores are replaced;
an event that is recorded on both stops the one machine or does the same to both. -/
structure Machine.Indistinct (R : Machine → Machine → Prop) (stop : Error → Prop) : Prop where
  store_eq : ∀ {m n}, R m n → m.store = n.store
  write : ∀ {m n} (s : Store), R m n → R { m with store := s } { n with store := s }
  record : ∀ event, Approximates R stop (record event) (record event)

/-- A machine is not told apart from itself. -/
theorem Machine.indistinct_eq (stop : Error → Prop) : Machine.Indistinct Eq stop where
  store_eq := by rintro m _ rfl; rfl
  write := by rintro m _ s rfl; rfl
  record _ := by rintro m _ rfl; exact .inr ⟨rfl, rfl⟩

namespace Eval

variable {α β : Type} (hR : Machine.Indistinct R stop)
include hR

omit hR in
theorem approximates_get_bind {k l : Machine → Eval β}
    (h : ∀ m n, R m n → Approximates R stop (k m) (l n)) :
    Approximates R stop (get >>= k) (get >>= l) := by
  intro m n hmn
  rw [outcome_get_bind, outcome_get_bind]
  exact h m n hmn m n hmn

theorem approximates_lookup (f : FrameId) (x : Symbol) :
    Approximates R stop (lookup f x) (lookup f x) := by
  intro m n hmn
  rw [outcome_lookup, outcome_lookup, hR.store_eq hmn]
  exact .inr ⟨rfl, hmn⟩

theorem approximates_assign (f : FrameId) (x : Symbol) (v : Value) :
    Approximates R stop (assign f x v) (assign f x v) := by
  intro m n hmn
  rw [outcome_assign, outcome_assign, ← hR.store_eq hmn]
  exact .inr ⟨rfl, hR.write _ hmn⟩

theorem approximates_newFrame (b : Bindings) (outer : Option FrameId) :
    Approximates R stop (newFrame b outer) (newFrame b outer) := by
  intro m n hmn
  rw [outcome_newFrame, outcome_newFrame, ← hR.store_eq hmn]
  exact .inr ⟨rfl, hR.write _ hmn⟩

theorem approximates_extend (formals : List Symbol) (body : Value) (captured : FrameId)
    (args : List Value) :
    Approximates R stop (extend formals body captured args)
      (extend formals body captured args) := by
  unfold extend
  split
  · exact approximates_newFrame hR _ _
  · exact approximates_throw _

end Eval

namespace Evaluate

/-- Each evaluation of one evaluator approximates that of the other. -/
def Approximates (R : Machine → Machine → Prop) (stop : Error → Prop)
    (eval eval' : Evaluator) : Prop :=
  ∀ e f, Eval.Approximates R stop (eval e f) (eval' e f)

end Evaluate

/-- A call with one evaluator approximates one with any other evaluator that the first one
approximates. -/
def HostCall.Approximates (R : Machine → Machine → Prop) (stop : Error → Prop)
    (call call' : HostCall) : Prop :=
  ∀ eval eval', Evaluate.Approximates R stop eval eval' →
    ∀ f args, Eval.Approximates R stop (call eval f args) (call' eval' f args)

/-- The calls of each function of one host approximate those of another host. -/
def Host.Approximates (R : Machine → Machine → Prop) (stop : Error → Prop) (host host' : Host) :
    Prop :=
  ∀ fn, HostCall.Approximates R stop (host.call fn) (host'.call fn)

namespace Evaluate

variable {eval eval' : Evaluator} (h : Approximates R stop eval eval') (f : FrameId)
include h

theorem Approximates.operands (es : List Value) :
    Eval.Approximates R stop (operands eval f es) (operands eval' f es) := by
  induction es with
  | nil => exact approximates_pure _
  | cons e es ih => exact (h e f).bind fun v => ih.bind fun vs => approximates_pure _

theorem Approximates.sequence (es : List Value) :
    ∀ last, Eval.Approximates R stop (sequence eval f last es) (sequence eval' f last es) := by
  induction es with
  | nil => exact fun last => approximates_pure last
  | cons e es ih => exact fun last => (h e f).bind fun v => ih v

theorem Approximates.conditional (parts : List Value) :
    Eval.Approximates R stop (conditional eval f parts) (conditional eval' f parts) := by
  unfold Evaluate.conditional
  split
  · rename_i test consequent alternate
    refine (h test f).bind fun v => ?_
    split
    · exact h consequent f
    · exact h alternate f
  · exact approximates_throw _

variable (hR : Machine.Indistinct R stop)
include hR

theorem Approximates.definition (parts : List Value) :
    Eval.Approximates R stop (definition eval f parts) (definition eval' f parts) := by
  unfold Evaluate.definition
  split
  · split
    · exact approximates_throw _
    · refine (h _ f).bind fun v => (approximates_assign hR _ _ _).bind fun _ => ?_
      -- the stores are the same, so both see or both miss a frame around this one
      refine approximates_get_bind fun m n hmn => ?_
      rw [hR.store_eq hmn]
      dsimp only
      split
      · exact (hR.record _).bind fun _ => approximates_pure _
      · exact approximates_pure _
  · exact approximates_throw _

theorem Approximates.form (which : Form) (parts : List Value) :
    Eval.Approximates R stop (form eval f which parts) (form eval' f which parts) := by
  cases which with
  | sequence => exact h.sequence f parts .unit
  | definition => exact h.definition f hR parts
  | abstraction =>
    simp only [Evaluate.form, abstraction]
    split
    · exact (approximates_ofExcept _).bind fun _ => approximates_pure _
    · exact approximates_throw _
  | conditional => exact h.conditional f parts

variable {host host' : Host} (hhost : Host.Approximates R stop host host')
include hhost

theorem Approximates.apply (fn : Value) (args : List Value) :
    Eval.Approximates R stop (apply host eval f fn args) (apply host' eval' f fn args) := by
  unfold Evaluate.apply
  split
  · rename_i formals body captured
    refine (approximates_extend hR formals body captured args).bind fun inner => ?_
    exact (hR.record _).bind fun _ => h body inner
  · exact approximates_ofExcept _
  · exact hhost _ eval eval' h f args
  · exact approximates_throw _

theorem Approximates.list (items : List Value) :
    Eval.Approximates R stop (list host eval f items) (list host' eval' f items) := by
  unfold Evaluate.list
  split
  · exact approximates_throw _
  · rename_i head tail
    split
    · exact h.form f hR _ tail
    · exact (h head f).bind fun fn => (h.operands f tail).bind fun args =>
        h.apply f hR hhost fn args

omit f in
/-- One level of evaluation keeps to what is nested inside and to what host functions do. -/
theorem Approximates.step : Approximates R stop (step host eval) (step host' eval') := by
  intro e f
  unfold Evaluate.step
  split
  · exact approximates_lookup hR f _
  · exact h.list f hR hhost _
  · exact h.list f hR hhost _
  · exact approximates_pure _

end Evaluate

/-! ### Limits -/

variable {host host' : Host}

/-- At depth zero nothing is evaluated. -/
theorem Evaluate.approximates_zero (hdeep : stop .tooDeep) (e : Value) (f : FrameId)
    (y : Eval Value) : Eval.Approximates R stop (evaluate host 0 e f) y :=
  fun _ _ _ => .inl ⟨.tooDeep, hdeep, rfl⟩

/-- An evaluation that is not nested too deeply ends as it does under a deeper limit. -/
theorem Evaluate.approximates_of_le (hR : Machine.Indistinct R stop) (hdeep : stop .tooDeep)
    (hhost : Host.Approximates R stop host host') {depth depth' : Nat} (h : depth ≤ depth') :
    Approximates R stop (evaluate host depth) (evaluate host' depth') := by
  induction depth generalizing depth' with
  | zero => exact fun e f => approximates_zero hdeep e f _
  | succ depth ih =>
    obtain ⟨deeper, rfl⟩ := Nat.exists_eq_add_one.2 (Nat.lt_of_lt_of_le (Nat.succ_pos _) h)
    exact (ih (Nat.le_of_succ_le_succ h)).step hR hhost

/-- On machines that are taken for the same an evaluation ends in the same, be it that it is
nested too deeply. -/
theorem Evaluate.approximates_self (hR : Machine.Indistinct R stop)
    (hhost : Host.Approximates R stop host host') (depth : Nat) :
    Approximates R stop (evaluate host depth) (evaluate host' depth) := by
  induction depth with
  | zero => exact fun e f => approximates_throw _
  | succ depth ih => exact ih.step hR hhost

namespace Session

theorem approximates_runForms (hR : Machine.Indistinct R stop) {depth depth' : Nat}
    (h : Evaluate.Approximates R stop (evaluate host depth) (evaluate host' depth'))
    (frame : FrameId) (forms : List Value) : ∀ last,
    Eval.Approximates R stop (runForms host depth frame last forms)
      (runForms host' depth' frame last forms) := by
  induction forms with
  | nil => exact fun last => approximates_pure last
  | cons form rest ih =>
    intro last
    exact (hR.record _).bind fun _ => (h form frame).bind fun v => ih v

theorem approximates_run (hR : Machine.Indistinct R stop) {depth depth' : Nat}
    (h : Evaluate.Approximates R stop (evaluate host depth) (evaluate host' depth'))
    (frame : FrameId) (source : String) :
    Eval.Approximates R stop (run host depth frame source) (run host' depth' frame source) :=
  (approximates_ofExcept _).bind fun forms => approximates_runForms hR h frame forms .unit

end Session

/-! ### Host functions that keep to their evaluators -/

namespace HostCall

theorem approximates_missing (fn : HostFunction) :
    HostCall.Approximates R stop (missing fn) (missing fn) :=
  fun _ _ _ _ _ => approximates_throw _

/-- A call that needs an argument keeps to what it does with one. -/
theorem approximates_withFirst {fn : HostFunction} {call : FrameId → Value → Eval Value}
    (h : ∀ f v, Eval.Approximates R stop (call f v) (call f v)) :
    HostCall.Approximates R stop (withFirst fn call) (withFirst fn call) := by
  intro _ _ _ f args
  cases args with
  | nil => exact approximates_throw _
  | cons v rest => exact h f v

end HostCall

/-- What the functions of the standard host do depends on the store alone. -/
theorem Host.approximates_standard (hR : Machine.Indistinct R stop) :
    Host.Approximates R stop .standard .standard := by
  have hcount : HostCall.Approximates R stop .count .count := fun _ _ _ _ _ => approximates_pure _
  have htwice : HostCall.Approximates R stop .twice .twice :=
    HostCall.approximates_withFirst fun f v => by
      cases v.twice? with
      | none => exact approximates_throw _
      | some w => exact approximates_pure _
  have hlisting : HostCall.Approximates R stop .listing .listing :=
    fun _ _ _ _ _ => approximates_pure _
  have hdepth : HostCall.Approximates R stop .depth .depth := fun _ _ _ f _ =>
    approximates_get_bind fun m n hmn => by
      rw [hR.store_eq hmn]
      exact approximates_pure _
  have hhere : HostCall.Approximates R stop .here .here :=
    HostCall.approximates_withFirst fun f v =>
      (approximates_assign hR f _ v).bind fun _ => approximates_pure _
  exact call_standard (P := fun call => HostCall.Approximates R stop call call) hcount htwice
    hlisting hdepth hhere HostCall.approximates_missing

/-! ### A deeper limit -/

/-- Host functions ignore the limit, if what they do under it is described by `host`, and under
a deeper one by `host'`: a call ends in the same under both, unless it is broken off under the
first one, wherever the evaluation inside of it does.  So they do not ask for the limit, and
they do not catch the error of an evaluation that is nested too deeply. -/
def Host.IgnoresLimit (host host' : Host) : Prop := Host.Approximates Eq (· = .tooDeep) host host'

theorem Host.ignoresLimit_none : Host.none.IgnoresLimit .none := HostCall.approximates_missing

/-- Approximation on one machine: the outcome is the same in all its parts. -/
theorem Eval.Approximates.outcome_eq {α : Type} {x y : Eval α} {m m' : Machine}
    {r : Except Error α} (h : Approximates Eq (· = .tooDeep) x y) (ho : outcome x m = (r, m'))
    (hr : r ≠ .error .tooDeep) : outcome y m = (r, m') := by
  rcases h m m rfl with ⟨err, rfl, herr⟩ | ⟨hres, hafter⟩
  · rw [ho] at herr
    exact absurd herr hr
  · rw [← ho]
    exact (Prod.ext hres hafter).symm

/-- **A deeper limit changes nothing that was finished.**  Let host functions ignore the limit.
An expression that has a value or ends in an error under one limit, but not in that of being
nested too deeply, ends in the same under every deeper limit, in any frame and on any machine,
and leaves the same machine: the same store and the same trace.  The same holds for the texts
that a session runs. -/
theorem evaluate_deeper (hhost : host.IgnoresLimit host') {depth depth' : Nat}
    (h : depth ≤ depth') (frame : FrameId) (m m' : Machine) (r : Except Error Value)
    (hr : ∀ err, r = .error err → err.kind ≠ .depth) :
    (∀ e, outcome (evaluate host depth e frame) m = (r, m') →
      outcome (evaluate host' depth' e frame) m = (r, m')) ∧
    ∀ source, outcome (Session.run host depth frame source) m = (r, m') →
      outcome (Session.run host' depth' frame source) m = (r, m') := by
  have hr : r ≠ .error .tooDeep := fun hdeep => hr _ hdeep rfl
  have heq := Machine.indistinct_eq (· = .tooDeep)
  have heval := Evaluate.approximates_of_le heq rfl hhost h
  constructor
  · intro e ho
    exact (heval e frame).outcome_eq ho hr
  · intro source ho
    exact (Session.approximates_run heq heval frame source).outcome_eq ho hr

/-- A host function that applies what `f` is bound to, which is a lambda whose body is a form:
calling it needs four levels; at the standard depth the same is done, and the same recorded, and
three levels are not enough. -/
theorem evaluate_deeper_call :
    let again : HostCall := fun eval frame args => eval (.list (.symbol ⟨"f"⟩ :: args)) frame
    let host := Host.ofTable [(⟨"again", 0⟩, again)]
    let body : Value := .list [.symbol ⟨"begin"⟩, .symbol ⟨"x"⟩]
    let call : Value := .list [.symbol ⟨"again"⟩, .symbol ⟨"y"⟩]
    let m : Machine := ⟨Store.empty.push ⟨Bindings.empty.insertAll
      [(⟨"again"⟩, .function (.host ⟨"again", 0⟩)), (⟨"f"⟩, .lambda [⟨"x"⟩] body 0),
        (⟨"y"⟩, .int 5)], none⟩, .kept, #[]⟩
    (outcome (evaluate host 3 call 0) m).1 = .error .tooDeep ∧
      (outcome (evaluate host 4 call 0) m).1 = .ok (.int 5) ∧
      (outcome (evaluate host 4 call 0) m).2.trace = #[.applied [⟨"x"⟩] body [.int 5]] ∧
      outcome (evaluate host Session.standardDepth call 0) m =
        outcome (evaluate host 4 call 0) m ∧
      outcome (Session.run host Session.standardDepth 0 "(again y)") m =
        outcome (Session.run host 4 0 "(again y)") m := by
  intro again host body call m
  have hagain : HostCall.Approximates Eq (· = .tooDeep) again again := fun _ _ h f _ => h _ f
  have hhost : host.IgnoresLimit host :=
    Host.call_ofTable (P := fun call => HostCall.Approximates Eq (· = .tooDeep) call call)
      (List.forall_mem_singleton.2 hagain) HostCall.approximates_missing
  have hread : Reader.readAll (Reader.tokenize "(again y)") = (.ok [call], []) := rfl
  have hresult : (outcome (Session.run host 4 0 "(again y)") m).1 = .ok (.int 5) := by
    rw [Session.run, hread]
    rfl
  have hdepth : 4 ≤ Session.standardDepth := by decide
  obtain ⟨hcall, -⟩ := evaluate_deeper hhost hdepth 0 m (outcome (evaluate host 4 call 0) m).2
    (.ok (.int 5)) nofun
  obtain ⟨-, hrun⟩ := evaluate_deeper hhost hdepth 0 m
    (outcome (Session.run host 4 0 "(again y)") m).2
    (outcome (Session.run host 4 0 "(again y)") m).1 (by rw [hresult]; exact nofun)
  exact ⟨rfl, rfl, rfl, hcall call rfl, (hrun "(again y)" (Prod.eta _).symm).trans (Prod.eta _)⟩

end Lisplet
