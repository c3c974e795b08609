/-
# The world of source texts is closed

Source texts know only doubles, symbols and lists, and what they make of these are
doubles, truth values, unit, operators and lambdas (`Value.isResult`).  Whole numbers,
texts, other sequences and the null value of the host never turn up; so nothing is too large for
a double, nothing is too long to be written, and the errors are of five classes.

To be such a value is what it means to be like itself for a likeness whose expressions
are trees and whose plain values are those that source texts lead to
(`Likeness.ofTrees`).  An evaluation that agrees with itself therefore preserves it
(`Lawful.evaluate`), and nothing is left but to look at the bindings of a fresh frame
and at what is reached from it (`Store.Reaches`): `answers_closed`.
-/

import Lisplet.Proofs.Agreement
import Lisplet.Proofs.Scope

namespace Lisplet

open Eval Reader

/-! ### What source texts lead to -/

namespace Value

/-- A double, a truth value, unit or an operator. -/
def isPlain : Value → Bool
  | .number (.float _) | .bool _ | .unit | .function (.operator _) => true
  | _ => false

/-- A plain value, or a lambda whose body is a tree. -/
def isResult : Value → Bool
  | .lambda _ body _ => body.isTree
  | v => v.isPlain

theorem lambdas_of_isPlain {v : Value} (h : v.isPlain = true) : v.lambdas = [] := by
  cases v with
  | number | bool | unit | function => rfl
  | _ => cases h

theorem isWritable_of_isPlain {v : Value} (h : v.isPlain = true) : v.isWritable = true := by
  cases v with
  | number n =>
    cases n with
    | int => cases h
    | float => rfl
  | bool | unit | function => rfl
  | _ => cases h

mutual

/-- Trees hold no whole number that could be too long. -/
theorem isWritable_of_isTree : ∀ {e : Value}, e.isTree = true → e.isWritable = true
  | .number (.float _), _ | .symbol _, _ => rfl
  | .list _, h => areWritable_of_areTrees h

theorem areWritable_of_areTrees : ∀ {es : List Value}, areTrees es = true → areWritable es = true
  | [], _ => rfl
  | e :: es, h => by
    obtain ⟨he, hes⟩ := List.forall_mem_cons.1 (areTrees_iff.1 h)
    rw [areWritable, isWritable_of_isTree he, areWritable_of_areTrees (areTrees_iff.2 hes)]
    rfl

end

/-- Plain numbers are doubles. -/
theorem exists_floats {args : List Value} (hplain : ∀ a ∈ args, a.isPlain = true)
    (hnumber : ∀ a ∈ args, a.number? ≠ none) : ∃ xs : List Double, args = xs.map Value.float := by
  induction args with
  | nil => exact ⟨[], rfl⟩
  | cons a args ih =>
    obtain ⟨ha, hplain⟩ := List.forall_mem_cons.1 hplain
    obtain ⟨hn, hnumber⟩ := List.forall_mem_cons.1 hnumber
    obtain ⟨xs, rfl⟩ := ih hplain hnumber
    match a, ha, hn with
    | .number (.float x), _, _ => exact ⟨x :: xs, rfl⟩

end Value

/-- An operator leads from plain values to a plain value or to an error, but no number is
ever too large. -/
theorem Operator.apply_of_isPlain (op : Operator) {args : List Value}
    (hplain : ∀ a ∈ args, a.isPlain = true) :
    (∃ err, op.apply args = .error err ∧ err ≠ .overflow) ∨
      ∃ v, op.apply args = .ok v ∧ v.isPlain = true := by
  cases op with
  | comparison op =>
    rcases op.apply_cases args with ⟨-, ho⟩ | ⟨v, -, -, ho⟩ | ⟨b, ho⟩
    · exact .inl ⟨_, ho, nofun⟩
    · exact .inl ⟨_, ho, nofun⟩
    · exact .inr ⟨_, ho, rfl⟩
  | arithmetic op =>
    rcases hfind : args.find? (fun a => a.number?.isNone) with _ | v
    · have hnumber : ∀ a ∈ args, a.number? ≠ none := by simpa using hfind
      obtain ⟨xs, rfl⟩ := Value.exists_floats hplain hnumber
      cases xs with
      | nil => exact .inl ⟨_, rfl, nofun⟩
      | cons x xs =>
        obtain ⟨z, hz⟩ := op.apply_floats x xs
        exact .inr ⟨_, hz, rfl⟩
    · exact .inl ⟨_, Arithmetic.apply_of_find? hfind, nofun⟩

/-! ### The likeness of trees -/

namespace Likeness

/-- The likeness under which the trees with a property may be evaluated. -/
def ofTrees (E : Value → Prop) (frame : FrameId → FrameId → Prop) : Likeness where
  expr e := e.isTree = true ∧ E e
  name _ := true
  plain v := v.isPlain = true
  frame := frame

variable {E : Value → Prop} {frame : FrameId → FrameId → Prop}

/-- The items of a list that may be evaluated may be evaluated as well. -/
theorem lawful_ofTrees (hE : ∀ {es}, E (.list es) → ∀ e ∈ es, E e)
    (hframe : ∀ {f f' g g'}, frame f g → frame f' g' → (f = f' ↔ g = g')) :
    (ofTrees E frame).Lawful := by
  have hitems : ∀ {es}, (ofTrees E frame).expr (.list es) → ∀ e ∈ es, (ofTrees E frame).expr e :=
    fun h e he => ⟨Value.areTrees_iff.1 h.1 e he, hE h.2 e he⟩
  exact {
    unique := hframe
    symbol := fun _ => rfl
    constant := by
      rintro e ⟨htree, -⟩ hconst
      cases e with
      | number n =>
        cases n with
        | int => cases htree
        | float => rfl
      | symbol | list => cases hconst
      | _ => cases htree
    hostList := fun h => nomatch h.1
    sequence := fun h e he => hitems h e (List.mem_cons_of_mem _ he)
    conditional := fun h e he => hitems h e (List.mem_cons_of_mem _ he)
    definition := fun h => ⟨rfl, hitems h _ (by simp)⟩
    abstraction := fun h => ⟨fun _ _ => rfl, hitems h _ (by simp)⟩
    combination := fun _ h => hitems h
    unit := rfl
    lambda := nofun
    host := nofun
    operator := by
      intro op args v hplain hv
      rcases op.apply_of_isPlain hplain with ⟨err, ho, -⟩ | ⟨w, ho, hw⟩
      · cases hv.symm.trans ho
      · obtain rfl := Except.ok.inj (hv.symm.trans ho)
        exact hw }

variable {n : Nat} {v w : Value} {err err' : Error}

theorem Values.isResult (h : (ofTrees E frame).Values n v w) : v.isResult = true := by
  cases h with
  | plain h => cases v <;> first | exact h | cases h
  | lambda hbody => exact hbody.1

theorem Values.isWritable (h : (ofTrees E frame).Values n v w) : v.isWritable = true := by
  cases h with
  | plain h => exact Value.isWritable_of_isPlain h
  | lambda hbody =>
    rw [Value.isWritable]
    exact Value.isWritable_of_isTree hbody.1

/-- What an error shows can be written. -/
theorem Errors.all_isWritable (h : (ofTrees E frame).Errors n err err') :
    err.shown.all Value.isWritable = true := by
  cases h with
  | same hshown => rw [hshown]; rfl
  | target h | parameters h =>
    simpa [Error.shown] using Value.isWritable_of_isTree (Value.areTrees_iff.1 h.1 _ (by simp))
  | @parameter items _ v h hv =>
    have hitems : (Value.list items).isTree = true := Value.areTrees_iff.1 h.1 _ (by simp)
    simpa [Error.shown] using Value.isWritable_of_isTree (Value.areTrees_iff.1 hitems v hv)
  | argumentCount h => simpa [Error.shown] using Value.isWritable_of_isTree h.1
  | notFunction h | notNumber h => simpa [Error.shown] using h.isWritable
  | overflow | unwritable => rfl

/-- The errors are of five classes, nesting too deeply aside. -/
theorem Errors.kind_mem (h : (ofTrees E frame).Errors n err err') :
    err.kind ∈ [ErrorKind.reading, .unbound, .invalidName, .type, .arity] ∨ err = .tooDeep := by
  rw [Error.kind, if_pos h.all_isWritable]
  cases h with
  | same hshown hcause =>
    by_cases hdepth : err.causeKind = .depth
    · cases err with
      | tooDeep => exact .inr rfl
      | _ => cases hdepth
    · have hcause : err.causeKind ∈ [ErrorKind.reading, .unbound, .type, .arity] := by
        simpa [hdepth] using hcause
      have hsub : [ErrorKind.reading, .unbound, .type, .arity] ⊆
        [ErrorKind.reading, .unbound, .invalidName, .type, .arity] := by decide
      exact .inl (hsub hcause)
  | overflow op h hplain =>
    rcases op.apply_of_isPlain hplain with ⟨err, ho, hne⟩ | ⟨v, ho, -⟩
    · exact absurd (Except.error.inj (ho.symm.trans h)) hne
    · cases ho.symm.trans h
  | unwritable hv hw =>
    have hwritable := hv.elim (fun h => Value.isWritable_of_isTree h.1) (·.isWritable)
    cases hw.symm.trans hwritable
  | _ => exact .inl (by simp [Error.causeKind])

/-- An error for a name that is no symbol comes from a definition that may be evaluated. -/
theorem Errors.exists_definition (h : (ofTrees E frame).Errors n err err')
    (hkind : err.kind = .invalidName) : ∃ target e, err = .invalidName target ∧
      target.symbol? = none ∧ E (.list [.symbol Form.definition.keyword, target, e]) := by
  have hcause := Error.causeKind_of_kind hkind nofun
  cases h with
  | target h hv => exact ⟨_, _, rfl, hv, h.2⟩
  | same hshown h => rw [hcause] at h; simp at h
  | _ => cases hcause

/-! ### Fresh frames -/

theorem isPlain_of_mem_initial :
    ∀ entry ∈ Bindings.initial.entries, entry.2.isPlain = true := by decide +kernel

/-- Frames with the builtins are made alike. -/
theorem Agree.newRoot (hL : (ofTrees E frame).Lawful) {k : Nat} :
    (ofTrees E frame).Agree k (fun n f g => frame f g ∧ f < n) Session.newRoot Session.newRoot :=
  .newFrame hL (.of_plain isPlain_of_mem_initial) .none

end Likeness

/-! ### Frames that are reached -/

/-- A frame is reached from another one: it is that one, or is around a reached one, or a
lambda that a reached one binds was created in it. -/
inductive Store.Reaches (s : Store) (f : FrameId) : FrameId → Prop
  | self : Reaches s f f
  | outer (h : Reaches s f g) (ho : s.outer? g = some o) : Reaches s f o
  | captured (h : Reaches s f g) (hmem : (x, v) ∈ (s.bindings g).entries)
    (hv : .lambda formals body o ∈ v.lambdas) : Reaches s f o

namespace Likeness

variable {E : Value → Prop} {frame : FrameId → FrameId → Prop} {s : Store} {f g : FrameId}

/-- What a frame that stands for itself binds is like itself. -/
theorem Stores.values_of_mem (h : (ofTrees E frame).Stores s s) (hf : frame f f) {x : Symbol}
    {v : Value} (hmem : (x, v) ∈ (s.bindings f).entries) :
    (ofTrees E frame).Values s.next v v := by
  have hentries := List.forall₂_same.1 (h.entries hf)
  exact (hentries (x, v) (List.mem_filter.2 ⟨hmem, rfl⟩)).2

/-- In a store that is like itself, a frame that stands for itself reaches such alone. -/
theorem Stores.frame_of_reaches (h : (ofTrees E frame).Stores s s) (hf : frame f f)
    (hg : s.Reaches f g) : frame g g := by
  induction hg with
  | self => exact hf
  | @outer g o _ ho ih =>
    have houter := h.outer ih
    rw [ho] at houter
    cases houter with
    | some h => exact h.1
  | @captured g x v formals body o _ hmem hv ih =>
    cases h.values_of_mem ih hmem with
    | plain hplain =>
      rw [Value.lambdas_of_isPlain hplain] at hv
      cases hv
    | lambda _ _ hframe =>
      obtain ⟨-, -, rfl⟩ : _ ∧ _ ∧ _ := by simpa [Value.lambdas] using hv
      exact hframe

end Likeness

/-! ### Sessions -/

namespace Value

/-- An expression stands in another one: it is that one, or stands in an item of it. -/
inductive StandsIn (e : Value) : Value → Prop
  | self : StandsIn e e
  | item (hmem : e' ∈ items) (h : StandsIn e e') : StandsIn e (.list items)

/-- The items of a list stand where the list does. -/
theorem StandsIn.of_list {es : List Value} {e tree : Value} (h : StandsIn (.list es) tree)
    (he : e ∈ es) : StandsIn e tree := by
  induction h with
  | self => exact .item he .self
  | item hmem _ ih => exact .item hmem ih

end Value

namespace Session

/-- An expression stands in a form of one of the texts. -/
def Written (sources : List String) (e : Value) : Prop :=
  ∃ source ∈ sources, ∃ forms, ReadsAll (tokenize source) forms ∧ ∃ form ∈ forms, e.StandsIn form

/-- The answers to texts that are evaluated one after another, whatever each ends in, and
the machine that they leave. -/
def answers (host : Host) (depth : Nat) (frame : FrameId) :
    List String → Machine → List (Except Error Value) × Machine
  | [], m => ([], m)
  | source :: sources, m =>
    let (answer, m₁) := outcome (run host depth frame source) m
    let (others, m₂) := answers host depth frame sources m₁
    (answer :: others, m₂)

/-- The items of a list that stands in a text stand in it. -/
theorem Written.of_list {sources : List String} {es : List Value}
    (h : Written sources (.list es)) : ∀ e ∈ es, Written sources e := by
  obtain ⟨source, hsource, forms, hforms, form, hform, h⟩ := h
  exact fun e he => ⟨source, hsource, forms, hforms, form, hform, h.of_list he⟩

variable {L : Likeness} {host : Host}

/-- Sessions in frames that stand for each other answer alike. -/
theorem answers_alike (hL : L.Lawful) (depth : Nat) {f g : FrameId} (hfg : L.frame f g)
    {sources : List String}
    (hsources : ∀ source ∈ sources, ∀ forms, ReadsAll (tokenize source) forms →
      ∀ e ∈ forms, L.expr e) :
    ∀ {m n : Machine}, f < m.store.next → L.Machines m n →
      let (rs, m') := answers host depth f sources m
      let (rs', n') := answers host depth g sources n
      L.Machines m' n' ∧ m.store.next ≤ m'.store.next ∧
        List.Forall₂ (L.Results m'.store.next (L.Values m'.store.next)) rs rs' := by
  induction sources with
  | nil => exact fun _ hmn => ⟨hmn, Nat.le_refl _, .nil⟩
  | cons source sources ih =>
    intro m n hf hmn
    obtain ⟨hsource, hsources⟩ := List.forall_mem_cons.1 hsources
    have hread : ∀ forms, (readAll (tokenize source)).1 = .ok forms → ∀ e ∈ forms, L.expr e :=
      fun forms h => hsource forms (readAll_eq_ok_iff.1 h)
    have hrun := hL.run host depth hread hfg hf
    have hend := hrun m n (Nat.le_refl _) hmn
    have hle := hend.kept.next_le
    obtain ⟨hmn', hle', hothers⟩ := ih hsources (Nat.lt_of_lt_of_le hf hle) hend.machines
    have hanswer := hend.results.mono hle' fun _ _ h => h.mono hle'
    exact ⟨hmn', Nat.le_trans hle hle', .cons hanswer hothers⟩

/-- **The world of source texts is closed.**  A session may begin on any machine and
evaluate any texts one after another, whatever each ends in.  What it answers and what
the frames bind that are reached from its own one, or from those that lambdas it answered
were created in, are doubles, truth values, unit, operators and lambdas.  Its errors are
of five classes, nesting too deeply aside; the error that something else than a symbol is
to be bound comes from a definition in one of the texts, never from binding the
parameters of a lambda. -/
theorem answers_closed (host : Host) (depth : Nat) (sources : List String) (m : Machine) :
    let start := outcome newRoot m
    ∃ root, start.1 = .ok root ∧
    let session := answers host depth root sources start.2
    (∀ v, .ok v ∈ session.1 → v.isResult = true) ∧
    (∀ f, (session.2.store.Reaches root f ∨ ∃ formals body g,
        .ok (.lambda formals body g) ∈ session.1 ∧ session.2.store.Reaches g f) →
      ∀ entry ∈ (session.2.store.bindings f).entries, entry.2.isResult = true) ∧
    (∀ err, .error err ∈ session.1 →
      (err.kind ∈ [ErrorKind.reading, .unbound, .invalidName, .type, .arity] ∨ err = .tooDeep) ∧
      (err.kind = .invalidName → ∃ target e, err = .invalidName target ∧ target.symbol? = none ∧
        Written sources (.list [.symbol Form.definition.keyword, target, e]))) ∧
    ∀ formals body o args n n' err, outcome (extend formals body o args) n = (.error err, n') →
      err.kind ≠ .invalidName := by
  -- the frames made since the session began stand for themselves
  set own : FrameId → FrameId → Prop := fun f g => f = g ∧ m.store.next ≤ f
  have hL : (Likeness.ofTrees (Written sources) own).Lawful := by
    refine Likeness.lawful_ofTrees Written.of_list ?_
    rintro f f' _ _ ⟨rfl, -⟩ ⟨rfl, -⟩
    exact Iff.rfl
  have hstores : (Likeness.ofTrees (Written sources) own).Stores m.store m.store := by
    refine .of_le (fun i => ⟨rfl, Nat.le_add_right _ i⟩) ?_
    rintro f _ ⟨rfl, hf⟩
    exact ⟨hf, hf⟩
  have hroot := Likeness.Agree.newRoot hL m m (Nat.le_refl _) ⟨hstores, rfl⟩
  have hlt : m.store.next < (outcome newRoot m).2.store.next := by simp [newRoot]
  have hfresh : own m.store.next m.store.next := ⟨rfl, Nat.le_refl _⟩
  obtain ⟨hmachines, -, hanswers⟩ := answers_alike hL depth hfresh
    (fun source hsource forms hforms e he =>
      ⟨Value.areTrees_iff.1 hforms.areTrees e he, source, hsource, forms, hforms, e, he, .self⟩)
    hlt hroot.machines
  refine ⟨m.store.next, rfl, ?_⟩
  have hanswer := List.forall₂_same.1 hanswers
  have hbound {f g : FrameId} (hf : own f f) (hg : Store.Reaches _ f g) :
      ∀ entry ∈ (Store.bindings _ g).entries, entry.2.isResult = true := fun _ hmem =>
    (hmachines.stores.values_of_mem (hmachines.stores.frame_of_reaches hf hg) hmem).isResult
  refine ⟨fun v hv => ?_, fun g hg => ?_, fun err herr => ?_, ?_⟩
  · cases hanswer _ hv with
    | ok h => exact h.isResult
  · rcases hg with hg | ⟨formals, body, o, hv, hg⟩
    · exact hbound hfresh hg
    · cases hanswer _ hv with
      | ok h =>
        cases h with
        | plain h => cases h
        | lambda _ _ hframe => exact hbound hframe hg
  · cases hanswer _ herr with
    | error h => exact ⟨h.kind_mem, h.exists_definition⟩
  · intro formals body o args n n' err hextend hkind
    by_cases hl : args.length = formals.length
    · cases (outcome_extend hl body o n).symm.trans hextend
    · cases (outcome_extend_of_ne hl body o n).symm.trans hextend
      cases Error.causeKind_of_kind hkind nofun

/-- Of four texts the second one is no row of expressions and the third one defines the
empty list. -/
theorem answers_closed_failing :
    let sources := ["(define f (lambda (x) x))", "(define pi", "(define () pi)", "f"]
    let kind? (r : Except Error Value) : Option ErrorKind :=
      match r with
      | .ok _ => none
      | .error err => some err.kind
    let session := answers .standard 3 0 sources (outcome newRoot ⟨.empty, .written, #[]⟩).2
    session.1.map kind? = [none, some .reading, some .invalidName, none] ∧
      (∀ entry ∈ (session.2.store.bindings 0).entries, entry.2.isResult = true) ∧
      ∃ target e, target.symbol? = none ∧
        Written sources (.list [.symbol ⟨"define"⟩, target, e]) := by
  intro sources kind?
  obtain ⟨f, hroot, -, hbound, herr, -⟩ :=
    answers_closed .standard 3 sources ⟨.empty, .written, #[]⟩
  obtain rfl : 0 = f := Except.ok.inj hroot
  have hkinds :
      (answers .standard 3 0 sources (outcome newRoot ⟨.empty, .written, #[]⟩).2).1.map kind? =
        [none, some .reading, some .invalidName, none] := by decide +kernel
  generalize answers .standard 3 0 sources (outcome newRoot ⟨.empty, .written, #[]⟩).2 = session
    at hbound herr hkinds ⊢
  refine ⟨hkinds, hbound 0 (.inl .self), ?_⟩
  have hmem : some ErrorKind.invalidName ∈ session.1.map kind? := by
    rw [hkinds]
    decide
  obtain ⟨r, hr, hkind⟩ := List.mem_map.1 hmem
  cases r with
  | ok v => cases hkind
  | error err =>
    obtain ⟨target, e, -, htarget, hwritten⟩ := (herr err hr).2 (Option.some.inj hkind)
    exact ⟨target, e, htarget, hwritten⟩

end Session
end Lisplet
