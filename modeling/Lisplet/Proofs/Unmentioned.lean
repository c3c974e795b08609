/-
# Bindings that are not mentioned

Where a name is not mentioned, neither in an expression nor in the lambdas that are bound
to other names, it does not matter which frames bind it and to what: the expression has the
same outcome and does the same to all other names (`evaluate_unmentioned`).

A name that heads a form is not mentioned there, since the keyword of a form is never
looked up (`Value.avoids`).  So even `begin`, `define`, `lambda` and `if` may be bound to
anything.
-/

import Lisplet.Proofs.SameCode

namespace Lisplet
namespace Value

/-! ### Expressions that avoid a name -/

mutual

/-- The names that occur in a tree. -/
def symbols : Value → List Symbol
  | .symbol y => [y]
  | .list items => rowSymbols items
  | _ => []

/-- The names that occur in a row of trees. -/
def rowSymbols : List Value → List Symbol
  | [] => []
  | e :: rest => symbols e ++ rowSymbols rest

end

mutual

/-- Whether a name occurs in an expression at most as the keyword that heads a form. -/
def avoids (z : Symbol) : Value → Bool
  | .symbol y => decide (y ≠ z)
  | .list items => listAvoids z items
  | _ => true

/-- Whether a list avoids a name: the keyword of a form does not count. -/
def listAvoids (z : Symbol) : List Value → Bool
  | [] => true
  | head :: tail =>
    match head.form? with
    | some .abstraction => abstractionAvoids z tail
    | some _ => rowAvoids z tail
    | none => avoids z head && rowAvoids z tail

/-- Whether the parts of a lambda form avoid a name.  Its row of parameters is no form,
even if a keyword comes first. -/
def abstractionAvoids (z : Symbol) : List Value → Bool
  | .list params :: body => rowAvoids z params && rowAvoids z body
  | e :: body => avoids z e && rowAvoids z body
  | [] => true

/-- Whether all expressions of a row avoid a name. -/
def rowAvoids (z : Symbol) : List Value → Bool
  | [] => true
  | e :: rest => avoids z e && rowAvoids z rest

end

variable {z : Symbol}

theorem mem_rowSymbols {y : Symbol} {es : List Value} :
    y ∈ rowSymbols es ↔ ∃ e ∈ es, y ∈ e.symbols := by
  induction es with
  | nil => simp [rowSymbols]
  | cons e es ih => simp [rowSymbols, ih]

theorem rowAvoids_iff {es : List Value} :
    rowAvoids z es = true ↔ ∀ e ∈ es, e.avoids z = true := by
  induction es with
  | nil => simp [rowAvoids]
  | cons e es ih => simp [rowAvoids, ih]

theorem avoids_sequence (parts : List Value) :
    avoids z (.list (.symbol Form.sequence.keyword :: parts)) = rowAvoids z parts := by
  simp [avoids, listAvoids]

theorem avoids_conditional (parts : List Value) :
    avoids z (.list (.symbol Form.conditional.keyword :: parts)) = rowAvoids z parts := by
  simp [avoids, listAvoids]

theorem avoids_definition (parts : List Value) :
    avoids z (.list (.symbol Form.definition.keyword :: parts)) = rowAvoids z parts := by
  simp [avoids, listAvoids]

/-- A lambda form avoids a name if its parameters and its body do. -/
theorem avoids_abstraction {formals : List Symbol} {body : Value} :
    avoids z (.list [.symbol Form.abstraction.keyword, .list (formals.map .symbol), body]) = true ↔
      (∀ x ∈ formals, x ≠ z) ∧ body.avoids z = true := by
  simp [avoids, listAvoids, abstractionAvoids, rowAvoids, rowAvoids_iff]

theorem avoids_combination {head : Value} (hf : head.form? = none) (es : List Value) :
    avoids z (.list (head :: es)) = rowAvoids z (head :: es) := by
  simp [avoids, listAvoids, rowAvoids, hf]

/-- Where no keyword is asked for it does not matter what is a form. -/
theorem listAvoids_eq_rowAvoids (hz : Form.ofSymbol? z = none) :
    ∀ items : List Value, listAvoids z items = rowAvoids z items
  | [] => rfl
  | head :: tail => by
    cases hf : head.form? with
    | none => simp only [listAvoids, rowAvoids, hf]
    | some which =>
      have hhead : head.avoids z = true := by
        obtain rfl := form?_eq_some_iff.1 hf
        refine decide_eq_true fun h => ?_
        rw [← h, Form.ofSymbol?_keyword] at hz
        cases hz
      rw [listAvoids, hf, rowAvoids, hhead, Bool.true_and]
      cases which with
      | abstraction =>
        match tail with
        | [] => rfl
        | e :: body =>
          cases e with
          | list params =>
            rw [rowAvoids, avoids, listAvoids_eq_rowAvoids hz params]
            rfl
          | _ => rfl
      | _ => rfl

mutual

/-- A name that is no keyword is avoided where it does not occur. -/
theorem avoids_iff_notMem (hz : Form.ofSymbol? z = none) :
    ∀ e : Value, e.avoids z = true ↔ z ∉ e.symbols
  | .symbol y => by
    rw [avoids, decide_eq_true_iff, symbols, List.mem_singleton]
    exact ne_comm
  | .list items => by
    rw [avoids, listAvoids_eq_rowAvoids hz]
    exact rowAvoids_iff_notMem hz items
  | .number _ | .bool _ | .text _ | .null => by simp [avoids, symbols]
  | .hostList .. | .unit | .function _ | .lambda .. => by simp [avoids, symbols]

theorem rowAvoids_iff_notMem (hz : Form.ofSymbol? z = none) :
    ∀ es : List Value, rowAvoids z es = true ↔ z ∉ rowSymbols es
  | [] => by simp [rowAvoids, rowSymbols]
  | e :: es => by
    rw [rowAvoids, Bool.and_eq_true, avoids_iff_notMem hz e, rowAvoids_iff_notMem hz es,
      rowSymbols, List.mem_append, not_or]

end

example : avoids ⟨"begin"⟩ (.list [.symbol ⟨"begin"⟩, .symbol ⟨"x"⟩,
      .list [.symbol ⟨"lambda"⟩, .list [.symbol ⟨"y"⟩], .list [.symbol ⟨"begin"⟩]]]) = true ∧
    avoids ⟨"begin"⟩
      (.list [.symbol ⟨"lambda"⟩, .list [.symbol ⟨"begin"⟩], .symbol ⟨"x"⟩]) = false ∧
    avoids ⟨"begin"⟩ (.list [.symbol ⟨"f"⟩, .symbol ⟨"begin"⟩]) = false := by decide

/-- A value that does not mention a name: no host function, and if it is a lambda then one
whose parameters and body, a tree, avoid the name, in a frame with a number below `n`. -/
def Spares (z : Symbol) (n : Nat) : Value → Prop
  | .lambda formals body f =>
    f < n ∧ (∀ x ∈ formals, x ≠ z) ∧ body.isTree = true ∧ body.avoids z = true
  | .function (.host _) => False
  | _ => True

end Value

open Value

variable {z : Symbol}

/-- What is evaluated of a tree that avoids a name are such trees. -/
theorem admits_avoids (z : Symbol) (base : Nat) :
    Simulation.Admits (fun e => e.isTree = true ∧ e.avoids z = true) (fun y => y ≠ z) base where
  symbol he := of_decide_eq_true he.2
  constant {e} he hconst := by
    cases e with
    | number => exact .inl rfl
    | symbol | list => cases hconst
    | _ => cases he.1
  hostList he := nomatch he.1
  sequence he e hmem := by
    have havoids := he.2
    rw [avoids_sequence] at havoids
    exact ⟨areTrees_iff.1 he.1 e (List.mem_cons_of_mem _ hmem), rowAvoids_iff.1 havoids e hmem⟩
  conditional he e hmem := by
    have havoids := he.2
    rw [avoids_conditional] at havoids
    exact ⟨areTrees_iff.1 he.1 e (List.mem_cons_of_mem _ hmem), rowAvoids_iff.1 havoids e hmem⟩
  definition {x e} he := by
    have havoids := he.2
    rw [avoids_definition] at havoids
    obtain ⟨hx, he', -⟩ : (Value.symbol x).avoids z = true ∧ e.avoids z = true ∧ True := by
      simpa [rowAvoids] using havoids
    exact ⟨of_decide_eq_true hx, areTrees_iff.1 he.1 e (by simp), he'⟩
  abstraction he := by
    obtain ⟨hformals, hbody⟩ := avoids_abstraction.1 he.2
    exact ⟨hformals, areTrees_iff.1 he.1 _ (by simp), hbody⟩
  combination hhead he e hmem := by
    have havoids := he.2
    rw [avoids_combination hhead] at havoids
    exact ⟨areTrees_iff.1 he.1 e hmem, rowAvoids_iff.1 havoids e hmem⟩

/-! ### Stores that differ in one name -/

/-- Stores have the same frames in the same places, and these bind every name but `z` to
the same value. -/
structure Store.SameBut (z : Symbol) (s t : Store) : Prop where
  next : s.next = t.next
  outer? : ∀ f, s.outer? f = t.outer? f
  get? : ∀ f y, y ≠ z → (s.bindings f).get? y = (t.bindings f).get? y

/-- To bind `z` is no difference. -/
theorem Store.sameBut_define (s : Store) (f : FrameId) (z : Symbol) (v : Value) :
    s.SameBut z (s.define f z v) where
  next := (s.next_define f z v).symm
  outer? g := (s.outer?_define f g z v).symm
  get? g y hy := by
    rw [Store.bindings_define]
    split
    · rename_i hg
      rw [Bindings.get?_insert, if_neg hy, hg.1]
    · rfl

/-- The runs of trees that avoid `z`, from frames with numbers below `n`. -/
abbrev Simulation.sparing (z : Symbol) (n : Nat) : Simulation Unit :=
  sameCode (fun e => e.isTree = true ∧ e.avoids z = true) (fun y => y ≠ z) n n n

namespace Simulation

variable {n : Nat} {s t : Store} {made : List Unit}

/-- Where frames are not moved, each stands for itself. -/
theorem shifted_self {k : Nat} {f g : FrameId} : Shifted n n n k f g ↔ f = g ∧ f < n + k := by
  constructor
  · rintro (⟨rfl, hf⟩ | ⟨i, hi, rfl, rfl⟩)
    · exact ⟨rfl, Nat.lt_add_right _ hf⟩
    · exact ⟨rfl, Nat.add_lt_add_left hi n⟩
  · rintro ⟨rfl, hf⟩
    refine (Nat.lt_or_ge f n).imp (fun h => ⟨rfl, h⟩) fun h => ?_
    obtain ⟨i, rfl⟩ := Nat.exists_eq_add_of_le h
    exact ⟨i, Nat.lt_of_add_lt_add_left hf, rfl, rfl⟩

theorem sparing_frames {f g : FrameId} : (sparing z n).Frames made () f g ↔
    f = g ∧ f < n + made.length := sameCode_frames.trans shifted_self

/-- So values that go together are the same. -/
theorem sparing_values {v w : Value} (h : (sparing z n).Values made v w) : v = w := by
  cases sameCode_values h with
  | other => rfl
  | lambda hframe => rw [(shifted_self.1 hframe).1]

/-- A value that spares `z` goes with itself. -/
theorem Values.of_spares {v : Value} (h : v.Spares z n) : (sparing z n).Values [] v v := by
  refine .self (k := ()) (by rintro _ rfl; exact h) ?_
  rintro formals body f rfl
  obtain ⟨hf, hformals, hbody⟩ := h
  exact ⟨frames_nil.2 ⟨rfl, rfl, hf⟩, sameCode_abstracts.2 ⟨rfl, rfl, hformals, hbody⟩⟩

/-- Stores that are the same but for `z` go together, if what they bind other names to
spares it. -/
theorem Stores.of_sameBut (h : s.SameBut z t) (hs : ∀ {f o}, s.outer? f = some o → o < f)
    (hv : ∀ f y v, y ≠ z → (s.bindings f).get? y = some v → v.Spares z s.next) :
    (sparing z s.next).Stores [] s t := by
  refine .start rfl h.next.symm hs (fun ho => hs ((h.outer? _).trans ho)) (fun f _ => ?_)
    fun f _ => (h.outer? f).symm
  rintro y _ ⟨rfl, hy⟩
  rw [← h.get? f y hy]
  cases hget : (s.bindings f).get? y with
  | none => exact .none
  | some v => exact .some (.of_spares (hv f y v hy hget))

/-- Stores that go together in such runs are the same but for `z`. -/
theorem Stores.sameBut (h : (sparing z n).Stores made s t) : s.SameBut z t := by
  have hnext : s.next = t.next := h.next_left.trans h.next_right.symm
  refine ⟨hnext, h.outer?_eq rfl rfl, fun f y hy => ?_⟩
  rcases Nat.lt_or_ge f s.next with hf | hf
  · obtain ⟨_, hframes⟩ := exists_frames (S := sparing z n) rfl rfl (h.next_left ▸ hf)
    exact (h.entries hframes y y ⟨rfl, hy⟩).eq fun _ _ => sparing_values
  · rw [Store.bindings_of_le hf, Store.bindings_of_le (hnext ▸ hf)]

end Simulation

/-- **Bindings that are not mentioned do not interfere.**  In two stores that are the same
but for the bindings of `z`, a tree that avoids `z` has the same outcome, however deep its
evaluation may go and also if it gives up, and leaves stores that are the same but for the
bindings of `z` again; what frames bind to other names has to spare `z`, and to `z` they
may bind anything. -/
theorem evaluate_unmentioned {host : Host} {m n : Machine} {e : Value} {f : FrameId}
    (hmn : m.store.SameBut z n.store) (htracing : m.tracing = n.tracing)
    (houter : ∀ g o, m.store.outer? g = some o → o < g)
    (hbound : ∀ g y v, y ≠ z → (m.store.bindings g).get? y = some v → v.Spares z m.store.next)
    (he : e.isTree = true) (havoids : e.avoids z = true) (hf : f < m.store.next) (depth : Nat) :
    (Eval.outcome (evaluate host depth e f) m).1 = (Eval.outcome (evaluate host depth e f) n).1 ∧
      (Eval.outcome (evaluate host depth e f) m).2.store.SameBut z
        (Eval.outcome (evaluate host depth e f) n).2.store := by
  have hlawful := (admits_avoids z m.store.next).lawful (Nat.le_refl _) (Nat.le_refl _)
  have hmachines : (Simulation.sparing z m.store.next).Machines [] m n :=
    ⟨.of_sameBut hmn (houter _ _) hbound, htracing⟩
  obtain ⟨made, -, hresults, hmachines'⟩ := hlawful.evaluate depth
    (Simulation.sparing_frames.2 ⟨rfl, hf⟩) ⟨rfl, he, havoids⟩ m n hmachines
  refine ⟨?_, hmachines'.stores.sameBut⟩
  generalize (Eval.outcome (evaluate host depth e f) m).1 = r at hresults ⊢
  generalize (Eval.outcome (evaluate host depth e f) n).1 = r' at hresults ⊢
  cases hresults with
  | ok h => rw [Simulation.sparing_values h]
  | error h =>
    cases h with
    | same h => exact congrArg _ h
    | notNumber h => rw [Simulation.sparing_values h]

/-- `(begin (define y (f x)) y)`, where `f` is a lambda with a sequence as its body: whether
`begin` is bound to a host function or not bound at all, the value is that of `x`. -/
theorem evaluate_unmentioned_begin :
    let fn : Value := .lambda [⟨"a"⟩] (.list [.symbol ⟨"begin"⟩, .symbol ⟨"a"⟩]) 0
    let e : Value := .list [.symbol ⟨"begin"⟩,
      .list [.symbol ⟨"define"⟩, .symbol ⟨"y"⟩, .list [.symbol ⟨"f"⟩, .symbol ⟨"x"⟩]],
      .symbol ⟨"y"⟩]
    let s := Store.empty.push
      ⟨Bindings.empty.insertAll ([⟨"f"⟩, ⟨"x"⟩].zip [fn, .int 5]), none⟩
    let t := s.define 0 ⟨"begin"⟩ (.function (.host .count))
    (Eval.outcome (evaluate Host.standard 5 e 0) ⟨t, .off, #[]⟩).1 = .ok (.int 5) ∧
      (Eval.outcome (evaluate Host.standard 5 e 0) ⟨s, .off, #[]⟩).2.store.SameBut ⟨"begin"⟩
        (Eval.outcome (evaluate Host.standard 5 e 0) ⟨t, .off, #[]⟩).2.store := by
  intro fn e s t
  have hspares : ∀ v ∈ [fn, .int 5], v.Spares ⟨"begin"⟩ s.next :=
    List.forall_mem_cons.2 ⟨⟨by decide, by decide, rfl, rfl⟩, List.forall_mem_singleton.2 trivial⟩
  have hempty : Store.empty.All (Spares ⟨"begin"⟩ s.next) := fun _ _ _ h => nomatch h
  have hs : s.All (Spares ⟨"begin"⟩ s.next) := hempty.push hspares none
  have houter : ∀ g o, s.outer? g = some o → o < g := by
    intro g o ho
    rw [Store.outer?_push] at ho
    split at ho <;> cases ho
  obtain ⟨houtcome, hstore⟩ := evaluate_unmentioned (m := ⟨s, .off, #[]⟩) (n := ⟨t, .off, #[]⟩)
    (e := e) (s.sameBut_define 0 ⟨"begin"⟩ _) rfl houter (fun g y v _ => hs g y v) rfl
    (by decide) (f := 0) (by decide) 5
  exact ⟨houtcome.symm, hstore⟩

end Lisplet
