/-
# Runs that agree

Two computations agree (`Likeness.Agree`) if on machines that are alike they end alike:
in values between which a given relation holds or in errors that are alike, and on
machines that are alike again.  A value may speak of frames, and the relation between
values then depends on how many frames there are; a computation that follows another one
may rely on the frames that this one left (`Agree.bind`).

An evaluator is uniform (`Likeness.Uniform`) if its runs of one expression in frames
that stand for each other agree.  Each part of the evaluator keeps this up, given that
the evaluation of what is nested inside does, so evaluation is uniform at every depth
(`Lawful.evaluate`), and so are the sessions that evaluate source texts
(`Lawful.run`, `Lawful.readEvaluate`).

While two runs agree, the first one leaves the frames alone that stand for no frame of
the second one (`Likeness.Kept`).
-/

import Lisplet.Session
import Lisplet.Proofs.Grammar
import Lisplet.Proofs.Likeness
import Lisplet.Proofs.Soundness

namespace Lisplet

open Eval Evaluate

namespace Likeness

/-- Machines are alike: their stores are, and they treat events in the same way. -/
structure Machines (L : Likeness) (m n : Machine) : Prop where
  stores : L.Stores m.store n.store
  tracing : m.tracing = n.tracing

/-- From `m` to `m'` no frame was changed that stands for no other. -/
structure Kept (L : Likeness) (m m' : Machine) : Prop where
  /-- No frame is lost. -/
  next_le : m.store.next ≤ m'.store.next
  /-- The frames that stand for no other are what they were. -/
  frame? : ∀ f, f < m.store.next → (∀ g, ¬ L.frame f g) → m'.store.frame? f = m.store.frame? f
  /-- Events are treated in the same way. -/
  tracing : m'.tracing = m.tracing

variable {L : Likeness} {host : Host}

namespace Kept

variable {m m₁ m₂ : Machine}

theorem same (hs : m₁.store = m.store) (ht : m₁.tracing = m.tracing) : L.Kept m m₁ :=
  ⟨Nat.le_of_eq (congrArg Store.next hs).symm, fun f _ _ => congrArg (Store.frame? · f) hs, ht⟩

theorem trans (h₁ : L.Kept m m₁) (h₂ : L.Kept m₁ m₂) : L.Kept m m₂ where
  next_le := Nat.le_trans h₁.next_le h₂.next_le
  frame? f hf hfree :=
    (h₂.frame? f (Nat.lt_of_lt_of_le hf h₁.next_le) hfree).trans (h₁.frame? f hf hfree)
  tracing := h₂.tracing.trans h₁.tracing

theorem define {f g : FrameId} (hfg : L.frame f g) (m : Machine) (x : Symbol) (v : Value)
    (trace : Array Event) : L.Kept m { m with store := m.store.define f x v, trace } where
  next_le := Nat.le_of_eq (m.store.next_define f x v).symm
  frame? f' _ hfree := by
    have hne : f' ≠ f := fun heq => hfree g (heq ▸ hfg)
    rw [Store.frame?_define, if_neg hne]
  tracing := rfl

theorem push (L : Likeness) (m : Machine) (frame : Frame) :
    L.Kept m { m with store := m.store.push frame } where
  next_le := Nat.le_of_lt (by simp)
  frame? _ hf _ := Store.frame?_push_of_lt hf
  tracing := rfl

end Kept

/-- How two computations end that were started on machines that are alike: in results
and on machines that are alike, no frame of the first one being changed that stands for
no other. -/
structure EndAlike (L : Likeness) (V : Nat → α → β → Prop) (m : Machine)
    (p : Except Error α × Machine) (q : Except Error β × Machine) : Prop where
  results : L.Results p.2.store.next (V p.2.store.next) p.1 q.1
  machines : L.Machines p.2 q.2
  kept : L.Kept m p.2

/-- Two computations agree: on machines that are alike and have `k` frames at least they
end alike. -/
def Agree (L : Likeness) (k : Nat) (V : Nat → α → β → Prop) (x : Eval α) (y : Eval β) : Prop :=
  ∀ m n, k ≤ m.store.next → L.Machines m n → L.EndAlike V m (outcome x m) (outcome y n)

variable {k : Nat}

namespace Agree

variable {V : Nat → α → β → Prop} {W : Nat → γ → δ → Prop}

theorem pure {a : α} {b : β} (h : ∀ n, k ≤ n → V n a b) : L.Agree k V (pure a) (pure b) :=
  fun m _ hk hmn => ⟨.ok (h m.store.next hk), hmn, .same rfl rfl⟩

theorem throw {err err' : Error} (h : L.Errors k err err') :
    L.Agree k V (throw err) (throw err') :=
  fun _ _ hk hmn => ⟨.error (h.mono hk), hmn, .same rfl rfl⟩

theorem ofExcept {r : Except Error α} {r' : Except Error β}
    (h : ∀ n, k ≤ n → L.Results n (V n) r r') :
    L.Agree k V (Eval.ofExcept r) (Eval.ofExcept r') := by
  intro m n hk hmn
  rw [outcome_ofExcept, outcome_ofExcept]
  exact ⟨h m.store.next hk, hmn, .same rfl rfl⟩

/-- Computations that agree may be followed by such that agree given what was computed
and the frames that there are by then. -/
theorem bind {x : Eval α} {y : Eval β} {x' : α → Eval γ} {y' : β → Eval δ}
    (h : L.Agree k V x y) (h' : ∀ n a b, k ≤ n → V n a b → L.Agree n W (x' a) (y' b)) :
    L.Agree k W (x >>= x') (y >>= y') := by
  intro m n hk hmn
  obtain ⟨hres, hmn₁, hkept⟩ := h m n hk hmn
  rw [outcome_bind, outcome_bind]
  generalize outcome x m = p at hres hmn₁ hkept ⊢
  generalize outcome y n = q at hres hmn₁ ⊢
  obtain ⟨r, m₁⟩ := p
  obtain ⟨r', n₁⟩ := q
  cases hres with
  | ok hab =>
    have hend := h' _ _ _ (Nat.le_trans hk hkept.next_le) hab m₁ n₁ (Nat.le_refl _) hmn₁
    exact ⟨hend.results, hend.machines, hkept.trans hend.kept⟩
  | error herr => exact ⟨.error herr, hmn₁, hkept⟩

/-! ### The operations of a machine -/

variable {f g : FrameId} {x : Symbol} {v w : Value}

/-- Events that are written alike are recorded alike. -/
theorem record {event event' : Event} (hw : event.isWritable = event'.isWritable)
    (herr : event.isWritable = false → L.Errors k .unwritable .unwritable) :
    L.Agree k (fun _ _ _ => True) (record event) (record event') := by
  intro m n hk hmn
  unfold Eval.record
  rw [outcome_get_bind, outcome_get_bind, ← hmn.tracing, ← hw]
  cases hm : m.tracing with
  | off => exact ⟨.ok trivial, hmn, .same rfl rfl⟩
  | kept => exact ⟨.ok trivial, ⟨hmn.stores, hmn.tracing⟩, .same rfl rfl⟩
  | written =>
    cases hevent : event.isWritable with
    | true => exact ⟨.ok trivial, ⟨hmn.stores, hmn.tracing⟩, .same rfl rfl⟩
    | false => exact ⟨.error ((herr hevent).mono hk), hmn, .same rfl rfl⟩

theorem lookup (hx : L.name x = true) (hfg : L.frame f g) :
    L.Agree k L.Values (lookup f x) (lookup g x) := by
  intro m n _ hmn
  rw [outcome_lookup, outcome_lookup]
  have hlook := hmn.stores.lookup? hx hfg
  generalize m.store.lookup? f x = v at hlook ⊢
  generalize n.store.lookup? g x = w at hlook ⊢
  cases hlook with
  | some hvw => exact ⟨.ok hvw, hmn, .same rfl rfl⟩
  | none => exact ⟨.error (.same rfl (by simp [Error.causeKind])), hmn, .same rfl rfl⟩

/-- What a definition does behind the evaluation of its value. -/
theorem definition_assign (hL : L.Lawful) (hx : L.name x = true) (hfg : L.frame f g)
    (hvw : L.Values k v w) :
    L.Agree k L.Values
      (do
        Eval.assign f x v
        if ((← get).store.outer? f).isNone then Eval.record (.defined x)
        return Value.unit)
      (do
        Eval.assign g x w
        if ((← get).store.outer? g).isNone then Eval.record (.defined x)
        return Value.unit) := by
  intro m n hk hmn
  obtain ⟨trace, hm⟩ := outcome_definition_assign f x v m
  obtain ⟨trace', hn⟩ := outcome_definition_assign g x w n
  rw [hm, hn]
  exact ⟨.ok (.plain hL.unit), ⟨hmn.stores.define hL hfg hx (hvw.mono hk), hmn.tracing⟩,
    .define hfg m x v trace⟩

theorem newFrame (hL : L.Lawful) {b c : Bindings} (hbc : L.Entries k b c)
    {o p : Option FrameId} (hop : Option.Rel (fun o p => L.frame o p ∧ o < k) o p) :
    L.Agree k (fun n f g => L.frame f g ∧ f < n) (newFrame b o) (newFrame c p) := by
  intro m n hk hmn
  rw [outcome_newFrame, outcome_newFrame]
  have hop' : Option.Rel (fun o p => L.frame o p ∧ o < m.store.next) o p :=
    hop.imp fun _ _ h => ⟨h.1, Nat.lt_of_lt_of_le h.2 hk⟩
  exact ⟨.ok ⟨hmn.stores.next 0, by simp⟩,
    ⟨hmn.stores.push hL (hbc.mono hk) hop', hmn.tracing⟩, .push L m _⟩

/-- A lambda gets a new frame in both runs, or the wrong number of arguments. -/
theorem extend (hL : L.Lawful) {formals : List Symbol} {body : Value} {args args' : List Value}
    (hbody : L.expr body) (hformals : ∀ x ∈ formals, L.name x = true) (hfg : L.frame f g)
    (hf : f < k) (hargs : List.Forall₂ (L.Values k) args args') :
    L.Agree k (fun n f g => L.frame f g ∧ f < n) (extend formals body f args)
      (extend formals body g args') := by
  rw [Eval.extend, Eval.extend, ← hargs.length_eq]
  split
  · exact newFrame hL (Entries.empty.insertAll hformals hargs) (.some ⟨hfg, hf⟩)
  · exact throw (.argumentCount hbody)

/-- A lambda form makes lambdas that are alike, nothing being evaluated. -/
theorem abstraction (hL : L.Lawful) {f g : FrameId} {parts : List Value}
    (he : L.expr (.list (.symbol Form.abstraction.keyword :: parts))) (hfg : L.frame f g)
    (hf : f < k) :
    L.Agree k L.Values (abstraction f parts) (abstraction g parts) := by
  by_cases hl : parts.length = 2
  · obtain ⟨params, body, rfl⟩ := List.length_eq_two.1 hl
    rw [Evaluate.abstraction, Evaluate.abstraction]
    by_cases hp : ∃ items, params = .list items
    · obtain ⟨items, rfl⟩ := hp
      rcases symbols_or_not items with ⟨formals, rfl⟩ | ⟨formals, p, rest, rfl, hp⟩
      · rw [parameters_symbols]
        obtain ⟨hformals, hbody⟩ := hL.abstraction he
        exact .pure fun _ hn => .lambda hbody hformals hfg (Nat.lt_of_lt_of_le hf hn)
      · rw [parameters_append _ hp]
        exact .throw (.parameter he (by simp))
    · rw [parameters_of_ne (fun items heq => hp ⟨items, heq⟩)]
      exact .throw (.parameters he)
  · rw [abstraction_of_length_ne hl, abstraction_of_length_ne hl]
    exact .throw (.same rfl (by simp [Error.causeKind]))

end Agree

/-! ### Evaluation -/

/-- An evaluator is uniform: its runs of one expression in frames that stand for each
other agree. -/
def Uniform (L : Likeness) (eval : Evaluator) : Prop :=
  ∀ {k e f g}, L.expr e → L.frame f g → f < k → L.Agree k L.Values (eval e f) (eval e g)

namespace Uniform

variable {eval : Evaluator} {f g : FrameId} {parts : List Value}

theorem operands (h : L.Uniform eval) {es : List Value} (hes : ∀ e ∈ es, L.expr e)
    (hfg : L.frame f g) (hf : f < k) :
    L.Agree k (fun n => List.Forall₂ (L.Values n)) (operands eval f es) (operands eval g es) := by
  induction es generalizing k with
  | nil => exact .pure fun _ _ => .nil
  | cons e es ih =>
    obtain ⟨he, hes⟩ := List.forall_mem_cons.1 hes
    refine (h he hfg hf).bind fun n v w hn hvw => ?_
    refine (ih hes (Nat.lt_of_lt_of_le hf hn)).bind fun n' vs ws hn' hvws => ?_
    exact .pure fun _ hle =>
      .cons (hvw.mono (Nat.le_trans hn' hle)) (hvws.imp fun _ _ h => h.mono hle)

theorem sequence (h : L.Uniform eval) (hes : ∀ e ∈ parts, L.expr e) (hfg : L.frame f g)
    (hf : f < k) {v w : Value} (hvw : L.Values k v w) :
    L.Agree k L.Values (sequence eval f v parts) (sequence eval g w parts) := by
  induction parts generalizing k v w with
  | nil => exact .pure fun _ hn => hvw.mono hn
  | cons e es ih =>
    obtain ⟨he, hes⟩ := List.forall_mem_cons.1 hes
    exact (h he hfg hf).bind fun n _ _ hn hvw => ih hes (Nat.lt_of_lt_of_le hf hn) hvw

theorem definition (hL : L.Lawful) (h : L.Uniform eval)
    (he : L.expr (.list (.symbol Form.definition.keyword :: parts))) (hfg : L.frame f g)
    (hf : f < k) :
    L.Agree k L.Values (definition eval f parts) (definition eval g parts) := by
  by_cases hl : parts.length = 2
  · obtain ⟨target, e, rfl⟩ := List.length_eq_two.1 hl
    rw [Evaluate.definition, Evaluate.definition]
    cases htarget : target.symbol? with
    | none => exact .throw (.target he htarget)
    | some x =>
      obtain rfl := Value.symbol?_eq_some_iff.1 htarget
      obtain ⟨hx, he⟩ := hL.definition he
      exact (h he hfg hf).bind fun _ _ _ _ hvw => .definition_assign hL hx hfg hvw
  · rw [definition_of_length_ne hl, definition_of_length_ne hl]
    exact .throw (.same rfl (by simp [Error.causeKind]))

theorem conditional (hL : L.Lawful) (h : L.Uniform eval)
    (he : L.expr (.list (.symbol Form.conditional.keyword :: parts))) (hfg : L.frame f g)
    (hf : f < k) :
    L.Agree k L.Values (conditional eval f parts) (conditional eval g parts) := by
  by_cases hl : parts.length = 3
  · obtain ⟨test, a, b, rfl⟩ := List.length_eq_three.1 hl
    have hparts := hL.conditional he
    refine (h (hparts test (by simp)) hfg hf).bind fun n v w hn hvw => ?_
    rw [hvw.isTrue_eq]
    split
    · exact h (hparts a (by simp)) hfg (Nat.lt_of_lt_of_le hf hn)
    · exact h (hparts b (by simp)) hfg (Nat.lt_of_lt_of_le hf hn)
  · rw [conditional_of_length_ne hl, conditional_of_length_ne hl]
    exact .throw (.same rfl (by simp [Error.causeKind]))

theorem form (hL : L.Lawful) (h : L.Uniform eval) (which : Form)
    (he : L.expr (.list (.symbol which.keyword :: parts))) (hfg : L.frame f g) (hf : f < k) :
    L.Agree k L.Values (form eval f which parts) (form eval g which parts) := by
  cases which with
  | sequence => exact h.sequence (hL.sequence he) hfg hf (.plain hL.unit)
  | definition => exact h.definition hL he hfg hf
  | abstraction => exact .abstraction hL he hfg hf
  | conditional => exact h.conditional hL he hfg hf

/-- The event of an application shows what is alike. -/
theorem record_applied {formals : List Symbol} {body : Value} {args args' : List Value}
    (hbody : L.expr body) (hargs : List.Forall₂ (L.Values k) args args') :
    L.Agree k (fun _ _ _ => True) (record (.applied formals body args))
      (record (.applied formals body args')) := by
  refine .record ?_ fun hw => ?_
  · simp [Event.isWritable, Event.shown, all_isWritable_eq hargs]
  · cases hb : body.isWritable with
    | false => exact .unwritable (w := body) (.inl hbody) hb
    | true =>
      have hw : args.all Value.isWritable = false := by
        rwa [Event.isWritable, Event.shown, List.all_cons, hb, Bool.true_and] at hw
      obtain ⟨v, w, hvw, hv⟩ := exists_isWritable_eq_false hargs hw
      exact .unwritable (.inr hvw) hv

theorem apply (hL : L.Lawful) (h : L.Uniform eval) {v w : Value} {args args' : List Value}
    (hvw : L.Values k v w) (hargs : List.Forall₂ (L.Values k) args args') :
    L.Agree k L.Values (apply host eval f v args) (apply host eval g w args') := by
  cases hvw with
  | lambda hbody hformals hframe hlt =>
    refine (Agree.extend hL hbody hformals hframe hlt hargs).bind fun n f' g' hn hfg' => ?_
    refine (record_applied hbody (hargs.imp fun _ _ h => h.mono hn)).bind fun n' _ _ hn' _ => ?_
    exact h hbody hfg'.1 (Nat.lt_of_lt_of_le hfg'.2 hn')
  | plain hplain =>
    by_cases hf : ∃ fn, v = .function fn
    · obtain ⟨fn, rfl⟩ := hf
      cases fn with
      | operator op =>
        exact .ofExcept fun n hn => .operator hL (hargs.imp fun _ _ h => h.mono hn)
      | host fn => exact absurd hplain hL.host
    · have hl : ∀ formals body captured, v ≠ .lambda formals body captured := fun _ _ _ heq =>
        hL.lambda (heq ▸ hplain)
      rw [apply_of_ne hl fun fn heq => hf ⟨fn, heq⟩, apply_of_ne hl fun fn heq => hf ⟨fn, heq⟩]
      exact .throw (.notFunction (.plain hplain))

theorem list (hL : L.Lawful) (h : L.Uniform eval) (he : L.expr (.list parts)) (hfg : L.frame f g)
    (hf : f < k) : L.Agree k L.Values (list host eval f parts) (list host eval g parts) := by
  cases parts with
  | nil => exact .throw (.same rfl (by simp [Error.causeKind]))
  | cons head es =>
    cases hhead : head.form? with
    | some which =>
      obtain rfl := Value.form?_eq_some_iff.1 hhead
      rw [list_keyword, list_keyword]
      exact h.form hL which he hfg hf
    | none =>
      rw [list_combination hhead, list_combination hhead]
      have hparts := hL.combination hhead he
      refine (h (hparts head (by simp)) hfg hf).bind fun n v w hn hvw => ?_
      have hes : ∀ e ∈ es, L.expr e := fun e he => hparts e (List.mem_cons_of_mem _ he)
      refine (h.operands hes hfg (Nat.lt_of_lt_of_le hf hn)).bind fun n' vs ws hn' hvws => ?_
      exact h.apply hL (hvw.mono hn') hvws

/-- One level of evaluation is uniform. -/
theorem step (hL : L.Lawful) (h : L.Uniform eval) : L.Uniform (step host eval) := by
  intro k e f g he hfg hf
  cases e with
  | symbol x => exact .lookup (hL.symbol he) hfg
  | list items => exact h.list hL he hfg hf
  | hostList => exact absurd he hL.hostList
  | _ => exact .pure fun _ _ => .plain (hL.constant he rfl)

end Uniform

/-- **Evaluation is uniform.**  At every depth, the evaluations of an expression in frames
that stand for each other agree. -/
theorem Lawful.evaluate (hL : L.Lawful) (depth : Nat) : L.Uniform (evaluate host depth) := by
  induction depth with
  | zero => exact fun _ _ _ => .throw (.same rfl (by simp [Error.causeKind]))
  | succ depth ih => exact ih.step hL

/-! ### Source texts -/

/-- Reading the first expression of a source text agrees with itself. -/
theorem Agree.readOne (L : Likeness) (source : String) :
    L.Agree k (fun _ e e' => (Reader.readExpr (Reader.tokenize source)).1 = .ok e ∧ e = e')
      (Session.readOne source) (Session.readOne source) := by
  unfold Session.readOne
  rcases hread : Reader.readExpr (Reader.tokenize source) with ⟨err | e, rest⟩
  · exact .throw (.of_reading (Reader.kind_of_readExprIn (congrArg Prod.fst hread)))
  · have hread : L.Agree k (fun _ e' e'' => e = e' ∧ e = e'') (Eval.ofExcept (.ok e))
        (Eval.ofExcept (.ok e)) := .ofExcept fun _ _ => .ok ⟨rfl, rfl⟩
    refine hread.bind ?_
    rintro n _ _ - ⟨rfl, rfl⟩
    split
    · refine (Agree.record rfl fun h => ?_).bind fun _ _ _ _ _ => .pure fun _ _ => ⟨rfl, rfl⟩
      cases h
    · exact .pure fun _ _ => ⟨rfl, rfl⟩

namespace Lawful

variable {f g : FrameId}

theorem runForms (hL : L.Lawful) (depth : Nat) {forms : List Value} (hforms : ∀ e ∈ forms, L.expr e)
    (hfg : L.frame f g) (hf : f < k) {v w : Value} (hvw : L.Values k v w) :
    L.Agree k L.Values (Session.runForms host depth f v forms)
      (Session.runForms host depth g w forms) := by
  induction forms generalizing k v w with
  | nil => exact .pure fun _ hn => hvw.mono hn
  | cons e forms ih =>
    obtain ⟨he, hforms⟩ := List.forall_mem_cons.1 hforms
    have hwrite : (Event.started e).isWritable = false → L.Errors k .unwritable .unwritable :=
      fun hw => .unwritable (w := e) (.inl he)
        (by simpa [Event.isWritable, Event.shown] using hw)
    refine (Agree.record rfl hwrite).bind fun n _ _ hn _ => ?_
    have hf' := Nat.lt_of_lt_of_le hf hn
    refine (hL.evaluate depth he hfg hf').bind fun n' v w hn' hvw => ?_
    exact ih hforms (Nat.lt_of_lt_of_le hf' hn') hvw

/-- The evaluations of a source text in frames that stand for each other agree, if its
forms may be evaluated. -/
theorem run (hL : L.Lawful) (host : Host) (depth : Nat) {source : String}
    (hsource : ∀ forms, (Reader.readAll (Reader.tokenize source)).1 = .ok forms →
      ∀ e ∈ forms, L.expr e)
    (hfg : L.frame f g) (hf : f < k) :
    L.Agree k L.Values (Session.run host depth f source) (Session.run host depth g source) := by
  unfold Session.run
  cases hread : (Reader.readAll (Reader.tokenize source)).1 with
  | ok forms => exact hL.runForms depth (hsource forms hread) hfg hf (.plain hL.unit)
  | error err => exact .throw (.of_reading (Reader.kind_of_readAllIn hread))

/-- So do the evaluations of the first expression of a source text. -/
theorem readEvaluate (hL : L.Lawful) (host : Host) (depth : Nat) {source : String}
    (hsource : ∀ e, (Reader.readExpr (Reader.tokenize source)).1 = .ok e → L.expr e)
    (hfg : L.frame f g) (hf : f < k) :
    L.Agree k L.Values (Session.readOne source >>= fun e => Lisplet.evaluate host depth e f)
      (Session.readOne source >>= fun e => Lisplet.evaluate host depth e g) := by
  refine (Agree.readOne L source).bind ?_
  rintro n e _ hn ⟨he, rfl⟩
  exact hL.evaluate depth (hsource e he) hfg (Nat.lt_of_lt_of_le hf hn)

end Lawful
end Likeness
end Lisplet
