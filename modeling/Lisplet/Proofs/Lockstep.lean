/-
# Runs in lockstep

Two computations match (`Simulation.Matches`) if on machines that go together they end in
results that do, and on machines that do so again, whatever frames were made meanwhile.
A computation that follows another one starts from the world that this one left
(`Matches.bind`).

An evaluator is faithful to a simulation if its runs of expressions that go together, in
frames that do, match (`Simulation.Faithful`).  Each part of the evaluator keeps this up,
given that the evaluation of what is nested inside does, so at every depth evaluation is
faithful (`Lawful.evaluate`): the runs of both expressions end alike, also by giving up.
-/

import Lisplet.Proofs.Scope
import Lisplet.Proofs.Simulation

namespace Lisplet
namespace Simulation

open Eval Evaluate

variable {Mode : Type} {S : Simulation Mode} {made made' : List Mode} {host : Host}

/-- Machines go together: their stores do, and they treat events in the same way. -/
structure Machines (S : Simulation Mode) (made : List Mode) (m n : Machine) : Prop where
  stores : S.Stores made m.store n.store
  tracing : m.tracing = n.tracing

/-- How two computations end that were started in the world `made`: in results and on
machines that go together in a world that has grown. -/
def EndMatched (S : Simulation Mode) (made : List Mode) (V : List Mode → α → β → Prop)
    (p : Except Error α × Machine) (q : Except Error β × Machine) : Prop :=
  ∃ made', made <+: made' ∧ S.Results made' (V made') p.1 q.1 ∧ S.Machines made' p.2 q.2

/-- Two computations match: on machines that go together they end alike. -/
def Matches (S : Simulation Mode) (made : List Mode) (V : List Mode → α → β → Prop)
    (x : Eval α) (y : Eval β) : Prop :=
  ∀ m n, S.Machines made m n → S.EndMatched made V (outcome x m) (outcome y n)

namespace Matches

variable {V : List Mode → α → β → Prop} {W : List Mode → γ → δ → Prop}

theorem pure {a : α} {b : β} (h : V made a b) : S.Matches made V (pure a) (pure b) :=
  fun _ _ hmn => ⟨made, List.prefix_rfl, .ok h, hmn⟩

theorem throw {err err' : Error} (h : S.Errors made err err') :
    S.Matches made V (throw err) (throw err') :=
  fun _ _ hmn => ⟨made, List.prefix_rfl, .error h, hmn⟩

theorem ofExcept {r : Except Error α} {r' : Except Error β} (h : S.Results made (V made) r r') :
    S.Matches made V (Eval.ofExcept r) (Eval.ofExcept r') := by
  intro m n hmn
  rw [outcome_ofExcept, outcome_ofExcept]
  exact ⟨made, List.prefix_rfl, h, hmn⟩

/-- Computations that match may be followed by such that match given what was computed,
in the world that there is by then. -/
theorem bind {x : Eval α} {y : Eval β} {x' : α → Eval γ} {y' : β → Eval δ}
    (h : S.Matches made V x y)
    (h' : ∀ made' a b, made <+: made' → V made' a b → S.Matches made' W (x' a) (y' b)) :
    S.Matches made W (x >>= x') (y >>= y') := by
  intro m n hmn
  obtain ⟨made₁, hgrow, hres, hmn₁⟩ := h m n hmn
  rw [outcome_bind, outcome_bind]
  generalize outcome x m = p at hres hmn₁ ⊢
  generalize outcome y n = q at hres hmn₁ ⊢
  obtain ⟨r, m₁⟩ := p
  obtain ⟨r', n₁⟩ := q
  cases hres with
  | ok hab =>
    obtain ⟨made₂, hgrow', hres', hmn₂⟩ := h' made₁ _ _ hgrow hab m₁ n₁ hmn₁
    exact ⟨made₂, hgrow.trans hgrow', hres', hmn₂⟩
  | error herr => exact ⟨made₁, hgrow, .error herr, hmn₁⟩

/-! ### The operations of a machine -/

variable {k : Mode} {f g : Nat} {x x' : Symbol} {v w : Value}

/-- Events that are both written or both not are recorded alike. -/
theorem record (hS : S.Lawful) {event event' : Event}
    (hw : event.isWritable = event'.isWritable) :
    S.Matches made (fun _ _ _ => True) (record event) (record event') := by
  intro m n hmn
  unfold Eval.record
  rw [outcome_get_bind, outcome_get_bind, ← hmn.tracing, ← hw]
  cases m.tracing with
  | off => exact ⟨made, List.prefix_rfl, .ok trivial, hmn⟩
  | kept => exact ⟨made, List.prefix_rfl, .ok trivial, hmn.stores, hmn.tracing⟩
  | written =>
    cases event.isWritable with
    | true => exact ⟨made, List.prefix_rfl, .ok trivial, hmn.stores, hmn.tracing⟩
    | false => exact ⟨made, List.prefix_rfl, .error (.same (hS.refl _)), hmn⟩

theorem lookup (hS : S.Lawful) (hfg : S.Frames made k f g) (hx : S.names k x x') :
    S.Matches made S.Values (lookup f x) (lookup g x') := by
  intro m n hmn
  rw [outcome_lookup, outcome_lookup]
  have hlook := hmn.stores.lookup? hfg hx
  generalize m.store.lookup? f x = v at hlook ⊢
  generalize n.store.lookup? g x' = w at hlook ⊢
  cases hlook with
  | some hvw => exact ⟨made, List.prefix_rfl, .ok hvw, hmn⟩
  | none => exact ⟨made, List.prefix_rfl, .error (.same (hS.unbound hx)), hmn⟩

/-- What a definition does behind the evaluation of its value. -/
theorem definition_assign (hS : S.Lawful) (hfg : S.Frames made k f g) (hx : S.names k x x')
    (hvw : S.Values made v w) :
    S.Matches made S.Values
      (do
        Eval.assign f x v
        if ((← get).store.outer? f).isNone then Eval.record (.defined x)
        return Value.unit)
      (do
        Eval.assign g x' w
        if ((← get).store.outer? g).isNone then Eval.record (.defined x')
        return Value.unit) := by
  intro m n hmn
  obtain ⟨trace, hm⟩ := outcome_definition_assign f x v m
  obtain ⟨trace', hn⟩ := outcome_definition_assign g x' w n
  rw [hm, hn]
  exact ⟨made, List.prefix_rfl, .ok (.inert rfl), hmn.stores.define hS hfg hx hvw, hmn.tracing⟩

end Matches

/-- Adding bindings binds the names of the pairs. -/
theorem binds_zip {formals : List Symbol} {args : List Value} (hl : args.length = formals.length)
    {y : Symbol} (hy : y ∈ formals) :
    (Bindings.empty.insertAll (formals.zip args)).binds y = true :=
  Bindings.binds_insertAll (.inr (by rwa [List.map_fst_zip (Nat.le_of_eq hl.symm)]))

/-! ### Evaluation -/

/-- An evaluator is faithful: its runs of expressions that go together, in frames that do,
match. -/
def Faithful (S : Simulation Mode) (eval : Evaluator) : Prop :=
  ∀ {made k f g e e'}, S.Frames made k f g → S.code k e e' →
    S.Matches made S.Values (eval e f) (eval e' g)

namespace Faithful

variable {eval : Evaluator} {k : Mode} {f g : Nat}

theorem operands (h : S.Faithful eval) {es es' : List Value}
    (hes : List.Forall₂ (S.code k) es es') (hfg : S.Frames made k f g) :
    S.Matches made (fun made => List.Forall₂ (S.Values made)) (operands eval f es)
      (operands eval g es') := by
  induction hes generalizing made with
  | nil => exact .pure .nil
  | cons he _ ih =>
    refine (h hfg he).bind fun made₁ v w hgrow hvw => ?_
    refine (ih (hfg.mono hgrow)).bind fun made₂ vs ws hgrow' hvws => ?_
    exact .pure (.cons (hvw.mono hgrow') hvws)

theorem sequence (h : S.Faithful eval) {es es' : List Value}
    (hes : List.Forall₂ (S.code k) es es') (hfg : S.Frames made k f g) {v w : Value}
    (hvw : S.Values made v w) :
    S.Matches made S.Values (sequence eval f v es) (sequence eval g w es') := by
  induction hes generalizing made v w with
  | nil => exact .pure hvw
  | cons he _ ih =>
    exact (h hfg he).bind fun made₁ _ _ hgrow hvw => ih (hfg.mono hgrow) hvw

theorem definition (hS : S.Lawful) (h : S.Faithful eval) {parts parts' : List Value}
    (hparts : S.DefinitionParts k parts parts') (hfg : S.Frames made k f g) :
    S.Matches made S.Values (definition eval f parts) (definition eval g parts') := by
  cases hparts with
  | target hx he =>
    exact (h hfg he).bind fun _ _ _ hgrow hvw => .definition_assign hS (hfg.mono hgrow) hx hvw
  | refused hv hv' herr =>
    rw [Evaluate.definition, Evaluate.definition, hv, hv']
    exact .throw (.same herr)
  | count hl hl' =>
    rw [definition_of_length_ne hl, definition_of_length_ne hl']
    exact .throw (.same (hS.refl _))

theorem abstraction (hS : S.Lawful) {parts parts' : List Value}
    (hparts : S.AbstractionParts k parts parts') (hfg : S.Frames made k f g) :
    S.Matches made S.Values (abstraction f parts) (abstraction g parts') := by
  cases hparts with
  | lambda h =>
    rw [Evaluate.abstraction, Evaluate.abstraction, parameters_symbols, parameters_symbols]
    exact .pure (.lambda hfg h)
  | refused hp hp' herr =>
    rw [Evaluate.abstraction, Evaluate.abstraction, hp, hp']
    exact .throw (.same herr)
  | count hl hl' =>
    rw [abstraction_of_length_ne hl, abstraction_of_length_ne hl']
    exact .throw (.same (hS.refl _))

theorem conditional (hS : S.Lawful) (h : S.Faithful eval) {parts parts' : List Value}
    (hparts : List.Forall₂ (S.code k) parts parts') (hfg : S.Frames made k f g) :
    S.Matches made S.Values (conditional eval f parts) (conditional eval g parts') := by
  by_cases hl : parts.length = 3
  · obtain ⟨test, a, b, rfl⟩ := List.length_eq_three.1 hl
    obtain ⟨test', a', b', rfl⟩ := List.length_eq_three.1 (hparts.length_eq ▸ hl)
    obtain ⟨htest, ha, hb, -⟩ : S.code k test test' ∧ S.code k a a' ∧ S.code k b b' ∧ True := by
      simpa using hparts
    refine (h hfg htest).bind fun made₁ v w hgrow hvw => ?_
    rw [hvw.isTrue_eq]
    split
    · exact h (hfg.mono hgrow) ha
    · exact h (hfg.mono hgrow) hb
  · rw [conditional_of_length_ne hl, conditional_of_length_ne (hparts.length_eq ▸ hl)]
    exact .throw (.same (hS.refl _))

/-- Lambdas that go together are applied in new frames that do. -/
theorem apply_lambda (hS : S.Lawful) (h : S.Faithful eval) {formals formals' : List Symbol}
    {body body' : Value} (hbody : S.Abstracts k formals body formals' body')
    {captured captured' : Nat} (hcaptured : S.Frames made k captured captured')
    {args args' : List Value} (hargs : List.Forall₂ (S.Values made) args args') :
    S.Matches made S.Values (apply host eval f (.lambda formals body captured) args)
      (apply host eval g (.lambda formals' body' captured') args') := by
  obtain ⟨inner, hcross, hformals, hbody⟩ := hbody
  have hwritable : (Event.applied formals body args).isWritable =
      (Event.applied formals' body' args').isWritable := by
    simp only [Event.isWritable, Event.shown, List.all_cons, hS.writable hbody,
      all_isWritable_eq hS hargs]
  by_cases hl : args.length = formals.length
  · have hl' : args'.length = formals'.length := by
      rw [← hargs.length_eq, ← hformals.length_eq, hl]
    -- the frames for the bodies are made in step, and the world grows by their mode
    have hextend : S.Matches made (fun made f g => S.Frames made inner f g)
        (extend formals body captured args) (extend formals' body' captured' args') := by
      intro m n hmn
      rw [outcome_extend hl, outcome_extend hl']
      have hentries := Entries.insertAll hS hformals hargs .empty
      have hbinds : ∀ y y', S.names inner y y' → S.names k y y' ∨
          (Bindings.empty.insertAll (formals.zip args)).binds y = true :=
        fun y y' hy => (hcross y y' hy).imp_right (binds_zip hl)
      exact ⟨made ++ [inner], List.prefix_append .., .ok (hmn.stores.frames_next inner),
        hmn.stores.push hS hentries hcaptured hbinds, hmn.tracing⟩
    refine hextend.bind fun made₁ f' g' _ hfg' => ?_
    refine (Matches.record hS hwritable).bind fun made₂ _ _ hgrow _ => ?_
    exact h (hfg'.mono hgrow) hbody
  · have hl' : args'.length ≠ formals'.length := by
      rwa [← hargs.length_eq, ← hformals.length_eq]
    have hthrow : S.Matches made S.Values (throw (.argumentCount formals body args.length))
        (throw (.argumentCount formals' body' args'.length)) := by
      rw [← hargs.length_eq]
      exact .throw (.same (hS.argumentCount hformals hbody))
    rw [apply, apply, extend, extend, if_neg hl, if_neg hl']
    exact hthrow

theorem apply (hS : S.Lawful) (h : S.Faithful eval) {v w : Value} {args args' : List Value}
    (hvw : S.Values made v w) (hargs : List.Forall₂ (S.Values made) args args') :
    S.Matches made S.Values (apply host eval f v args) (apply host eval g w args') := by
  cases hvw with
  | lambda hframe hbody => exact h.apply_lambda hS hbody hframe hargs
  | inert hinert =>
    match v, hinert with
    | .function (.operator op), _ => exact .ofExcept (.operator hS hargs)
    | .number _, _ | .bool _, _ | .symbol _, _ | .text _, _ => exact .throw (.same (hS.refl _))
    | .null, _ | .list _, _ | .hostList .., _ | .unit, _ => exact .throw (.same (hS.refl _))

theorem list (hS : S.Lawful) (h : S.Faithful eval) {items : List Value} {e' : Value}
    (he : S.code k (.list items) e') (hfg : S.Frames made k f g) :
    ∃ items', e' = .list items' ∧
      S.Matches made S.Values (list host eval f items) (list host eval g items') := by
  cases items with
  | nil =>
    obtain rfl := hS.empty he
    exact ⟨[], rfl, .throw (.same (hS.refl _))⟩
  | cons head es =>
    cases hhead : head.form? with
    | none =>
      obtain ⟨head', es', rfl, hhead', hfn, hes⟩ := hS.combination hhead he
      refine ⟨_, rfl, ?_⟩
      rw [list_combination hhead, list_combination hhead']
      refine (h hfg hfn).bind fun made₁ v w hgrow hvw => ?_
      refine (h.operands hes (hfg.mono hgrow)).bind fun made₂ vs ws hgrow' hvws => ?_
      exact h.apply hS (hvw.mono hgrow') hvws
    | some which =>
      obtain rfl := Value.form?_eq_some_iff.1 hhead
      simp only [list_keyword]
      cases which with
      | sequence =>
        obtain ⟨parts', rfl, hparts⟩ := hS.sequence he
        exact ⟨_, rfl, by rw [list_keyword]; exact h.sequence hparts hfg (.inert rfl)⟩
      | definition =>
        obtain ⟨parts', rfl, hparts⟩ := hS.definition he
        exact ⟨_, rfl, by rw [list_keyword]; exact h.definition hS hparts hfg⟩
      | abstraction =>
        obtain ⟨parts', rfl, hparts⟩ := hS.abstraction he
        exact ⟨_, rfl, by rw [list_keyword]; exact Faithful.abstraction hS hparts hfg⟩
      | conditional =>
        obtain ⟨parts', rfl, hparts⟩ := hS.conditional he
        exact ⟨_, rfl, by rw [list_keyword]; exact h.conditional hS hparts hfg⟩

/-- One level of evaluation is faithful. -/
theorem step (hS : S.Lawful) (h : S.Faithful eval) : S.Faithful (step host eval) := by
  intro made k f g e e' hfg he
  cases e with
  | symbol x =>
    obtain ⟨x', rfl, hx⟩ := hS.symbol he
    exact .lookup hS hfg hx
  | list items =>
    obtain ⟨items', rfl, hlist⟩ := h.list hS he hfg
    exact hlist
  | hostList kind items =>
    obtain ⟨items', rfl, hitems⟩ := hS.hostList he
    obtain ⟨_, ⟨⟩, hlist⟩ := h.list hS hitems hfg
    exact hlist
  | lambda formals body captured =>
    cases hS.constant he rfl made with
    | lambda hframe h => exact .pure (.lambda hframe h)
    | inert h => exact .pure (.inert h)
  | _ =>
    cases hS.constant he rfl made with
    | inert h => exact .pure (.inert h)

end Faithful

/-- **Evaluation is faithful to lawful simulations**, at every depth. -/
theorem Lawful.evaluate (hS : S.Lawful) (depth : Nat) : S.Faithful (evaluate host depth) := by
  induction depth with
  | zero => exact fun _ _ => .throw (.same (hS.refl _))
  | succ depth ih => exact ih.step hS

end Simulation
end Lisplet
