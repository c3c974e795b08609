/-
# Likeness

Two runs of the same expressions may use different frames for the same purpose.  A
likeness says which frame of the one run stands for which frame of the other, and what
both runs have in common: the expressions that may be evaluated, the symbols that
matter, and the values that are no lambdas.  Values are alike if they are the same or
are lambdas that differ in their frames alone, and those stand for each other
(`Likeness.Values`); errors are alike if they show values that are
(`Likeness.Errors`); stores are alike if frames that stand for each other bind the same
symbols in the same order to values that are alike (`Likeness.Stores`).

Both runs create their frames in step, so all frames that do not exist yet stand for
each other from the start, and a likeness stays what it is while frames are added.
What is said of values and errors is therefore said for a number of frames that exist;
it stays true as the number grows.  If only one of the stores gets new frames, from
elsewhere, the likeness has to be told which frames come next (`Likeness.Rebased`).

Taken of one store with itself, stores being alike is an invariant of that store: only
values of the given kinds are bound in the frames that stand for themselves.
-/

import Mathlib.Data.List.Forall2
import Mathlib.Data.Option.Basic
import Lisplet.Proofs.Closed

theorem Option.Rel.imp {R S : α → β → Prop} {a : Option α} {b : Option β} (h : Option.Rel R a b)
    (hRS : ∀ a b, R a b → S a b) : Option.Rel S a b := by
  cases h with
  | some h => exact .some (hRS _ _ h)
  | none => exact .none

namespace Lisplet

/-- What two runs have in common, and which frame of the one stands for which frame of
the other. -/
structure Likeness where
  /-- The expressions that may be evaluated. -/
  expr : Value → Prop
  /-- The symbols that matter. -/
  name : Symbol → Bool
  /-- The values that are no lambdas. -/
  plain : Value → Prop
  /-- A frame of the one run stands for one of the other. -/
  frame : FrameId → FrameId → Prop

namespace Likeness

/-- What evaluation needs of a likeness: its frames stand for each other one by one, the
parts that a form evaluates are such expressions, and constants and what operators
compute are such values. -/
structure Lawful (L : Likeness) : Prop where
  /-- A frame stands for one frame. -/
  unique : ∀ {f f' g g'}, L.frame f g → L.frame f' g' → (f = f' ↔ g = g')
  /-- Symbols that may be evaluated matter. -/
  symbol : ∀ {x}, L.expr (.symbol x) → L.name x = true
  /-- Constants are plain values. -/
  constant : ∀ {e}, L.expr e → e.isConstant = true → L.plain e
  /-- Other sequences are not evaluated. -/
  hostList : ∀ {kind es}, ¬ L.expr (.hostList kind es)
  /-- The parts of a sequence. -/
  sequence : ∀ {parts}, L.expr (.list (.symbol Form.sequence.keyword :: parts)) →
    ∀ e ∈ parts, L.expr e
  /-- The parts of a conditional. -/
  conditional : ∀ {parts}, L.expr (.list (.symbol Form.conditional.keyword :: parts)) →
    ∀ e ∈ parts, L.expr e
  /-- The target of a definition matters. -/
  definition : ∀ {x e}, L.expr (.list [.symbol Form.definition.keyword, .symbol x, e]) →
    L.name x = true ∧ L.expr e
  /-- So do parameters. -/
  abstraction : ∀ {formals : List Symbol} {body},
    L.expr (.list [.symbol Form.abstraction.keyword, .list (formals.map .symbol), body]) →
      (∀ x ∈ formals, L.name x = true) ∧ L.expr body
  /-- The head and the operands of a combination. -/
  combination : ∀ {head es}, head.form? = none → L.expr (.list (head :: es)) →
    ∀ e ∈ head :: es, L.expr e
  /-- Unit is plain. -/
  unit : L.plain .unit
  /-- Lambdas are not plain. -/
  lambda : ∀ {formals body f}, ¬ L.plain (.lambda formals body f)
  /-- There are no host functions. -/
  host : ∀ {fn}, ¬ L.plain (.function (.host fn))
  /-- Operators lead from plain values to plain values. -/
  operator : ∀ (op : Operator) {args v}, (∀ a ∈ args, L.plain a) → op.apply args = .ok v →
    L.plain v

/-! ### Values -/

/-- Values are alike, `n` frames being there. -/
inductive Values (L : Likeness) (n : Nat) : Value → Value → Prop
  /-- Plain values are alike if they are the same. -/
  | plain (h : L.plain v) : Values L n v v
  /-- Lambdas are alike if they differ in their frames alone, and these stand for each
  other. -/
  | lambda (hbody : L.expr body) (hformals : ∀ x ∈ formals, L.name x = true)
    (hframe : L.frame f g) (hlt : f < n) :
    Values L n (.lambda formals body f) (.lambda formals body g)

variable {L : Likeness} {n k : Nat}

namespace Values

variable {v w : Value}

theorem mono (h : L.Values n v w) (hnk : n ≤ k) : L.Values k v w := by
  cases h with
  | plain h => exact .plain h
  | lambda hbody hformals hframe hlt =>
    exact .lambda hbody hformals hframe (Nat.lt_of_lt_of_le hlt hnk)

/-- No text of a value shows its frame. -/
theorem render_eq (h : L.Values n v w) (style : Style) : v.render style = w.render style := by
  cases h with
  | plain => rfl
  | lambda => cases style <;> simp only [Value.render]

theorem isWritable_eq (h : L.Values n v w) : v.isWritable = w.isWritable := by
  cases h <;> rfl

theorem isTrue_eq (h : L.Values n v w) : v.isTrue = w.isTrue := by
  cases h <;> rfl

theorem number?_eq (h : L.Values n v w) : v.number? = w.number? := by
  cases h <;> rfl

/-- Numbers are plain values. -/
theorem plain_of_number? (h : L.Values n v w) (hv : v.number? ≠ none) : L.plain v ∧ v = w := by
  cases h with
  | plain h => exact ⟨h, rfl⟩
  | lambda => exact absurd rfl hv

end Values

/-- Rows of values are written alike. -/
theorem all_isWritable_eq {vs ws : List Value} (h : List.Forall₂ (L.Values n) vs ws) :
    vs.all Value.isWritable = ws.all Value.isWritable := by
  induction h with
  | nil => rfl
  | cons hv _ ih => rw [List.all_cons, List.all_cons, hv.isWritable_eq, ih]

/-- In a row that cannot be written there is a value that cannot. -/
theorem exists_isWritable_eq_false {vs ws : List Value} (h : List.Forall₂ (L.Values n) vs ws)
    (hvs : vs.all Value.isWritable = false) : ∃ v w, L.Values n v w ∧ v.isWritable = false := by
  induction h with
  | nil => cases hvs
  | @cons v w vs ws hvw _ ih =>
    cases hv : v.isWritable with
    | true => exact ih (by simpa [hv] using hvs)
    | false => exact ⟨v, w, hvw, hv⟩

/-! ### Errors -/

/-- Errors are alike: each is one that reading or evaluating can end in, and what they
show is the same or alike. -/
inductive Errors (L : Likeness) (n : Nat) : Error → Error → Prop
  /-- Errors that show no value. -/
  | same (hshown : err.shown = []) (hkind : err.causeKind ∈
      [ErrorKind.reading, .unbound, .type, .arity, .depth]) : Errors L n err err
  /-- The target of a definition is no symbol. -/
  | target (h : L.expr (.list [.symbol Form.definition.keyword, v, e]))
    (hv : v.symbol? = none) : Errors L n (.invalidName v) (.invalidName v)
  /-- The parameters of a lambda form are not a list. -/
  | parameters (h : L.expr (.list [.symbol Form.abstraction.keyword, v, body])) :
    Errors L n (.parametersNotList v) (.parametersNotList v)
  /-- A parameter of a lambda form is no symbol. -/
  | parameter (h : L.expr (.list [.symbol Form.abstraction.keyword, .list items, body]))
    (hv : v ∈ items) : Errors L n (.parameterNotSymbol v) (.parameterNotSymbol v)
  /-- A lambda gets another number of arguments than it has parameters. -/
  | argumentCount (h : L.expr body) :
    Errors L n (.argumentCount formals body given) (.argumentCount formals body given)
  /-- A value that is no function is applied. -/
  | notFunction (h : L.Values n v w) : Errors L n (.notFunction v) (.notFunction w)
  /-- An operator gets an argument that is no number. -/
  | notNumber (h : L.Values n v w) : Errors L n (.notNumber op v) (.notNumber op w)
  /-- Plain values are too large for an operator. -/
  | overflow (op : Operator) (h : op.apply args = .error .overflow)
    (hargs : ∀ a ∈ args, L.plain a) : Errors L n .overflow .overflow
  /-- An expression or a value cannot be written. -/
  | unwritable (hv : L.expr v ∨ L.Values n v w) (h : v.isWritable = false) :
    Errors L n .unwritable .unwritable

namespace Errors

variable {err err' : Error}

theorem mono (h : L.Errors n err err') (hnk : n ≤ k) : L.Errors k err err' := by
  cases h with
  | same hshown hkind => exact .same hshown hkind
  | target h hv => exact .target h hv
  | parameters h => exact .parameters h
  | parameter h hv => exact .parameter h hv
  | argumentCount h => exact .argumentCount h
  | notFunction h => exact .notFunction (h.mono hnk)
  | notNumber h => exact .notNumber (h.mono hnk)
  | overflow op h hargs => exact .overflow op h hargs
  | unwritable hv h => exact .unwritable (hv.imp_right (·.mono hnk)) h

/-- Errors of reading show nothing. -/
theorem of_reading (h : err.kind = .reading) : L.Errors n err err :=
  .same (Error.shown_of_kind_eq_reading h) (by simp [Error.causeKind_of_kind h nofun])

/-- Errors that are alike are of one class. -/
theorem kind_eq (h : L.Errors n err err') : err.kind = err'.kind := by
  cases h with
  | notFunction h => simp [Error.kind, Error.shown, Error.causeKind, h.isWritable_eq]
  | notNumber h => simp [Error.kind, Error.shown, Error.causeKind, h.isWritable_eq]
  | _ => rfl

/-- Errors that are alike have one message. -/
theorem message_eq (h : L.Errors n err err') : err.message = err'.message := by
  cases h with
  | notFunction h => exact congrArg ("Cannot apply non-function " ++ ·) (h.render_eq .inspected)
  | notNumber h => exact congrArg (_ ++ ·) (h.render_eq .inspected)
  | _ => rfl

end Errors

/-- Computations end alike: in values between which `V` holds, or in errors that are
alike. -/
inductive Results (L : Likeness) (n : Nat) (V : α → β → Prop) :
    Except Error α → Except Error β → Prop
  | ok (h : V a b) : Results L n V (.ok a) (.ok b)
  | error (h : L.Errors n err err') : Results L n V (.error err) (.error err')

theorem Results.mono {V W : α → β → Prop} {r : Except Error α} {r' : Except Error β}
    (h : L.Results n V r r') (hnk : n ≤ k) (hVW : ∀ a b, V a b → W a b) : L.Results k W r r' := by
  cases h with
  | ok h => exact .ok (hVW _ _ h)
  | error h => exact .error (h.mono hnk)

/-- Arguments that are alike have their leftmost one that is no number in one place, or
are the same numbers. -/
theorem find?_cases {args args' : List Value} (h : List.Forall₂ (L.Values n) args args') :
    (∃ v w, args.find? (fun a => a.number?.isNone) = some v ∧
      args'.find? (fun a => a.number?.isNone) = some w ∧ L.Values n v w) ∨
    args = args' ∧ ∀ a ∈ args, L.plain a := by
  induction h with
  | nil => exact .inr ⟨rfl, List.forall_mem_nil _⟩
  | @cons a b args args' hab _ ih =>
    cases ha : a.number? with
    | none => exact .inl ⟨a, b, by simp [ha], by simp [← hab.number?_eq, ha], hab⟩
    | some x =>
      obtain ⟨hplain, rfl⟩ := hab.plain_of_number? (by simp [ha])
      rcases ih with ⟨v, w, hv, hw, hvw⟩ | ⟨rfl, hall⟩
      · exact .inl ⟨v, w, by simpa [ha] using hv, by simpa [ha] using hw, hvw⟩
      · exact .inr ⟨rfl, List.forall_mem_cons.2 ⟨hplain, hall⟩⟩

theorem Results.arithmetic (hL : L.Lawful) {op : Arithmetic} {args args' : List Value}
    (h : List.Forall₂ (L.Values n) args args') :
    L.Results n (L.Values n) (op.apply args) (op.apply args') := by
  rcases find?_cases h with ⟨v, w, hv, hw, hvw⟩ | ⟨rfl, hplain⟩
  · rw [Arithmetic.apply_of_find? hv, Arithmetic.apply_of_find? hw]
    exact .error (.notNumber hvw)
  · rcases op.apply_cases args with ⟨-, ho⟩ | ⟨v, hv, -, ho⟩ | ho | ⟨x, ho⟩
    · exact ho ▸ .error (.same rfl (by simp [Error.causeKind]))
    · exact ho ▸ .error (.notNumber (.plain (hplain v hv)))
    · exact ho ▸ .error (.overflow (.arithmetic op) ho hplain)
    · exact ho ▸ .ok (.plain (hL.operator (.arithmetic op) hplain ho))

theorem Results.comparison (hL : L.Lawful) {op : Comparison} {args args' : List Value}
    (h : List.Forall₂ (L.Values n) args args') :
    L.Results n (L.Values n) (op.apply args) (op.apply args') := by
  by_cases hl : args.length = 2
  · rcases find?_cases h with ⟨v, w, hv, hw, hvw⟩ | ⟨rfl, hplain⟩
    · rw [Comparison.apply_of_find? hl hv, Comparison.apply_of_find? (h.length_eq ▸ hl) hw]
      exact .error (.notNumber hvw)
    · rcases op.apply_cases args with ⟨hne, -⟩ | ⟨v, hv, -, ho⟩ | ⟨b, ho⟩
      · exact absurd hl hne
      · exact ho ▸ .error (.notNumber (.plain (hplain v hv)))
      · exact ho ▸ .ok (.plain (hL.operator (.comparison op) hplain ho))
  · rw [Comparison.apply_of_length_ne hl, Comparison.apply_of_length_ne (h.length_eq ▸ hl),
      ← h.length_eq]
    exact .error (.same rfl (by simp [Error.causeKind]))

/-- An operator ends alike on arguments that are alike. -/
theorem Results.operator (hL : L.Lawful) {op : Operator} {args args' : List Value}
    (h : List.Forall₂ (L.Values n) args args') :
    L.Results n (L.Values n) (op.apply args) (op.apply args') := by
  cases op with
  | arithmetic op => exact .arithmetic hL h
  | comparison op => exact .comparison hL h

/-! ### Bindings -/

/-- Bindings are alike: they bind the same symbols, of those that matter, in the same
order to values that are alike. -/
def Entries (L : Likeness) (n : Nat) (b c : Bindings) : Prop :=
  List.Forall₂ (fun p q => p.1 = q.1 ∧ L.Values n p.2 q.2)
    (b.entries.filter fun entry => L.name entry.1) (c.entries.filter fun entry => L.name entry.1)

namespace Entries

variable {b c : Bindings} {x : Symbol}

theorem mono (h : L.Entries n b c) (hnk : n ≤ k) : L.Entries k b c :=
  h.imp fun _ _ hpq => ⟨hpq.1, hpq.2.mono hnk⟩

theorem empty : L.Entries n .empty .empty := .nil

/-- Bindings to plain values are like themselves. -/
theorem of_plain (h : ∀ entry ∈ b.entries, L.plain entry.2) : L.Entries n b b :=
  List.forall₂_same.2 fun entry hmem => ⟨rfl, .plain (h entry (List.mem_filter.1 hmem).1)⟩

/-- A symbol that matters is found among the entries that do. -/
theorem get?_eq (hx : L.name x = true) (b : Bindings) :
    b.get? x = Bindings.get? ⟨b.entries.filter fun entry => L.name entry.1⟩ x := by
  rw [Bindings.get?, Bindings.get?, List.find?_filter]
  congr 2
  funext entry
  by_cases h : entry.1 = x <;> simp [h, hx]

theorem get? (h : L.Entries n b c) (hx : L.name x = true) :
    Option.Rel (L.Values n) (b.get? x) (c.get? x) := by
  rw [get?_eq hx b, get?_eq hx c, Bindings.get?, Bindings.get?]
  unfold Entries at h
  generalize b.entries.filter (fun entry => L.name entry.1) = es at h ⊢
  generalize c.entries.filter (fun entry => L.name entry.1) = es' at h ⊢
  induction h with
  | nil => exact .none
  | @cons p q _ _ hpq _ ih =>
    by_cases hp : p.1 = x
    · have hq : q.1 = x := hpq.1 ▸ hp
      simpa [hp, hq] using Option.Rel.some hpq.2
    · have hq : q.1 ≠ x := hpq.1 ▸ hp
      simpa [hp, hq] using ih

theorem filter_insertEntry (hx : L.name x = true) (v : Value) (es : List (Symbol × Value)) :
    (Bindings.insertEntry x v es).filter (fun entry => L.name entry.1) =
      Bindings.insertEntry x v (es.filter fun entry => L.name entry.1) := by
  induction es with
  | nil => simp [Bindings.insertEntry, hx]
  | cons entry es ih =>
    rw [Bindings.insertEntry]
    by_cases he : entry.1 = x
    · simp [Bindings.insertEntry, he, hx]
    · by_cases hname : L.name entry.1 = true
      · simp [Bindings.insertEntry, he, hname, ih]
      · simp [he, hname, ih]

theorem insert {v w : Value} (h : L.Entries n b c) (hx : L.name x = true)
    (hv : L.Values n v w) : L.Entries n (b.insert x v) (c.insert x w) := by
  unfold Entries at h ⊢
  rw [Bindings.insert, Bindings.insert, filter_insertEntry hx, filter_insertEntry hx]
  generalize b.entries.filter (fun entry => L.name entry.1) = es at h ⊢
  generalize c.entries.filter (fun entry => L.name entry.1) = es' at h ⊢
  induction h with
  | nil => exact .cons ⟨rfl, hv⟩ .nil
  | @cons p q es es' hpq hes ih =>
    rw [Bindings.insertEntry, Bindings.insertEntry, hpq.1]
    split
    · exact .cons ⟨rfl, hv⟩ hes
    · exact .cons hpq ih

theorem insertAll {formals : List Symbol} {args args' : List Value}
    (hformals : ∀ x ∈ formals, L.name x = true) (hargs : List.Forall₂ (L.Values n) args args') :
    ∀ {b c : Bindings}, L.Entries n b c →
      L.Entries n (b.insertAll (formals.zip args)) (c.insertAll (formals.zip args')) := by
  induction hargs generalizing formals with
  | nil =>
    intro b c h
    rwa [List.zip_nil_right]
  | cons hv _ ih =>
    intro b c h
    cases formals with
    | nil => exact h
    | cons x formals =>
      obtain ⟨hx, hformals⟩ := List.forall_mem_cons.1 hformals
      exact ih hformals (h.insert hx hv)

end Entries

/-! ### Stores -/

/-- Stores are alike: frames that stand for each other are alike, the frames around them
are older and stand for each other, and so do the frames that do not exist yet. -/
structure Stores (L : Likeness) (s t : Store) : Prop where
  /-- New frames are made in step. -/
  next : ∀ i, L.frame (s.next + i) (t.next + i)
  /-- Frames that stand for each other exist together. -/
  exist : ∀ {f g}, L.frame f g → (f < s.next ↔ g < t.next)
  /-- The frames around them stand for each other. -/
  outer : ∀ {f g}, L.frame f g →
    Option.Rel (fun o p => L.frame o p ∧ o < f ∧ p < g) (s.outer? f) (t.outer? g)
  /-- They bind alike. -/
  entries : ∀ {f g}, L.frame f g → L.Entries s.next (s.bindings f) (t.bindings g)

end Likeness

/-- The value of a symbol in the first `n` frames of the chain of a frame. -/
def Store.lookupFrom (s : Store) (n : Nat) (f : FrameId) (x : Symbol) : Option Value :=
  ((s.chainFrom n f).find? fun g => (s.bindings g).binds x).bind fun g => (s.bindings g).get? x

/-- A symbol is looked up in the frame first and then in those around it. -/
theorem Store.lookupFrom_succ (s : Store) (n : Nat) (f : FrameId) (x : Symbol) :
    s.lookupFrom (n + 1) f x =
      ((s.bindings f).get? x).or ((s.outer? f).bind fun o => s.lookupFrom n o x) := by
  unfold lookupFrom outer?
  rw [chainFrom]
  cases hf : s.frame? f with
  | none => simp [bindings, hf]
  | some frame =>
    cases hx : (s.bindings f).get? x with
    | some v => simp [Bindings.binds, hx]
    | none => cases ho : frame.outer <;> simp [Bindings.binds, hx, ho]

namespace Likeness

variable {L : Likeness}

namespace Stores

variable {s t : Store} {f g : FrameId} {x : Symbol} {v w : Value}

/-- Stores are alike if no frame of theirs stands for another one yet. -/
theorem of_le (hnext : ∀ i, L.frame (s.next + i) (t.next + i))
    (h : ∀ {f g}, L.frame f g → s.next ≤ f ∧ t.next ≤ g) : L.Stores s t where
  next := hnext
  exist hfg := iff_of_false (Nat.not_lt.2 (h hfg).1) (Nat.not_lt.2 (h hfg).2)
  outer hfg := by
    rw [Store.outer?, Store.outer?, Store.frame?_eq_none (h hfg).1, Store.frame?_eq_none (h hfg).2]
    exact .none
  entries hfg := by
    rw [Store.bindings, Store.bindings, Store.frame?_eq_none (h hfg).1,
      Store.frame?_eq_none (h hfg).2]
    exact .empty

theorem lookupFrom (h : L.Stores s t) (hx : L.name x = true) :
    ∀ {n k f g}, L.frame f g → f < n → g < k →
      Option.Rel (L.Values s.next) (s.lookupFrom n f x) (t.lookupFrom k g x) := by
  intro n
  induction n with
  | zero => exact fun _ hf => absurd hf (Nat.not_lt_zero _)
  | succ n ih =>
    intro k f g hfg hf hg
    obtain ⟨k, rfl⟩ := Nat.exists_eq_add_of_le' (Nat.lt_of_le_of_lt (Nat.zero_le g) hg)
    rw [Store.lookupFrom_succ, Store.lookupFrom_succ]
    have hget := (h.entries hfg).get? hx
    have houter := h.outer hfg
    generalize (s.bindings f).get? x = own at hget ⊢
    generalize (t.bindings g).get? x = own' at hget ⊢
    generalize s.outer? f = around at houter ⊢
    generalize t.outer? g = around' at houter ⊢
    cases hget with
    | some hv => exact .some hv
    | none =>
      cases houter with
      | none => exact .none
      | some hop =>
        obtain ⟨hframe, hlt, hlt'⟩ := hop
        exact ih hframe (Nat.lt_of_lt_of_le hlt (Nat.le_of_lt_succ hf))
          (Nat.lt_of_lt_of_le hlt' (Nat.le_of_lt_succ hg))

/-- A symbol that matters is looked up alike. -/
theorem lookup? (h : L.Stores s t) (hx : L.name x = true) (hfg : L.frame f g) :
    Option.Rel (L.Values s.next) (s.lookup? f x) (t.lookup? g x) :=
  h.lookupFrom hx hfg (Nat.lt_succ_self f) (Nat.lt_succ_self g)

/-- A definition in frames that stand for each other keeps stores alike. -/
theorem define (hL : L.Lawful) (h : L.Stores s t) (hfg : L.frame f g) (hx : L.name x = true)
    (hv : L.Values s.next v w) : L.Stores (s.define f x v) (t.define g x w) where
  next := by simpa only [Store.next_define] using h.next
  exist hfg' := by simpa only [Store.next_define] using h.exist hfg'
  outer hfg' := by
    rw [Store.outer?_define, Store.outer?_define]
    exact h.outer hfg'
  entries {f' g'} hfg' := by
    rw [Store.next_define, Store.bindings_define, Store.bindings_define]
    by_cases hf : f' = f ∧ f < s.next
    · have hg : g' = g ∧ g < t.next := ⟨(hL.unique hfg' hfg).1 hf.1, (h.exist hfg).1 hf.2⟩
      rw [if_pos hf, if_pos hg]
      exact (h.entries hfg).insert hx hv
    · have hg : ¬ (g' = g ∧ g < t.next) := fun hg =>
        hf ⟨(hL.unique hfg' hfg).2 hg.1, (h.exist hfg).2 hg.2⟩
      rw [if_neg hf, if_neg hg]
      exact h.entries hfg'

/-- So does a new frame. -/
theorem push (hL : L.Lawful) (h : L.Stores s t) {b c : Bindings} (hb : L.Entries s.next b c)
    {o p : Option FrameId} (hop : Option.Rel (fun o p => L.frame o p ∧ o < s.next) o p) :
    L.Stores (s.push ⟨b, o⟩) (t.push ⟨c, p⟩) where
  next i := by
    rw [Store.next_push, Store.next_push, Nat.succ_add_eq_add_succ, Nat.succ_add_eq_add_succ]
    exact h.next (i + 1)
  exist {f g} hfg := by
    rw [Store.next_push, Store.next_push, Nat.lt_succ_iff_lt_or_eq, Nat.lt_succ_iff_lt_or_eq]
    exact or_congr (h.exist hfg) (hL.unique hfg (h.next 0))
  outer {f g} hfg := by
    have hnew : f = s.next ↔ g = t.next := hL.unique hfg (h.next 0)
    rw [Store.outer?_push, Store.outer?_push]
    by_cases hf : f = s.next
    · rw [if_pos hf, if_pos (hnew.1 hf), hf, hnew.1 hf]
      exact hop.imp fun _ _ hop => ⟨hop.1, hop.2, (h.exist hop.1).1 hop.2⟩
    · rw [if_neg hf, if_neg (hf ∘ hnew.2)]
      exact h.outer hfg
  entries {f g} hfg := by
    have hnew : f = s.next ↔ g = t.next := hL.unique hfg (h.next 0)
    rw [Store.next_push, Store.bindings_push, Store.bindings_push]
    by_cases hf : f = s.next
    · rw [if_pos hf, if_pos (hnew.1 hf)]
      exact hb.mono (Nat.le_succ _)
    · rw [if_neg hf, if_neg (hf ∘ hnew.2)]
      exact (h.entries hfg).mono (Nat.le_succ _)

end Stores

/-! ### Other frames -/

/-- The likeness with other frames standing for each other. -/
def reframe (L : Likeness) (frame : FrameId → FrameId → Prop) : Likeness := { L with frame }

section Reframe

variable {frame : FrameId → FrameId → Prop} {n k : Nat}

theorem Values.reframe {v w : Value} (h : L.Values n v w) (hnk : n ≤ k)
    (hframe : ∀ {f g}, L.frame f g → f < n → frame f g) : (L.reframe frame).Values k v w := by
  cases h with
  | plain h => exact .plain h
  | lambda hbody hformals hfg hlt =>
    exact .lambda hbody hformals (hframe hfg hlt) (Nat.lt_of_lt_of_le hlt hnk)

theorem Entries.reframe {b c : Bindings} (h : L.Entries n b c) (hnk : n ≤ k)
    (hframe : ∀ {f g}, L.frame f g → f < n → frame f g) : (L.reframe frame).Entries k b c :=
  h.imp fun _ _ hpq => ⟨hpq.1, hpq.2.reframe hnk hframe⟩

end Reframe

/-- The frames that stand for each other when the first of two stores had frames added
that stand for none: those that did and existed, and all that do not exist yet. -/
inductive Rebased (L : Likeness) (s s' t : Store) : FrameId → FrameId → Prop
  | old (h : L.frame f g) (hf : f < s.next) : Rebased L s s' t f g
  | new (i : Nat) : Rebased L s s' t (s'.next + i) (t.next + i)

section Rebase

variable {s s' t : Store}

theorem Rebased.unique (hL : L.Lawful) (h : L.Stores s t) (hnext : s.next ≤ s'.next)
    {f f' g g' : FrameId} (hfg : L.Rebased s s' t f g) (hfg' : L.Rebased s s' t f' g') :
    f = f' ↔ g = g' := by
  cases hfg with
  | old hfg hf =>
    cases hfg' with
    | old hfg' _ => exact hL.unique hfg hfg'
    | new i =>
      have hf' := Nat.lt_add_right i (Nat.lt_of_lt_of_le hf hnext)
      have hg := Nat.lt_add_right i ((h.exist hfg).1 hf)
      exact iff_of_false (Nat.ne_of_lt hf') (Nat.ne_of_lt hg)
  | new i =>
    cases hfg' with
    | old hfg' hf =>
      have hf' := Nat.lt_add_right i (Nat.lt_of_lt_of_le hf hnext)
      have hg := Nat.lt_add_right i ((h.exist hfg').1 hf)
      exact iff_of_false (Nat.ne_of_gt hf') (Nat.ne_of_gt hg)
    | new j => exact Nat.add_right_inj.trans Nat.add_right_inj.symm

/-- The frames that were added stand for none, so one that does existed before. -/
theorem Rebased.of_lt {f g : FrameId} (h : L.Rebased s s' t f g) (hf : f < s'.next) :
    L.frame f g ∧ f < s.next := by
  cases h with
  | old h hf => exact ⟨h, hf⟩
  | new i => exact absurd hf (by simp)

/-- Stores stay alike while the first one has frames changed that stand for no other and
frames added. -/
theorem Stores.rebase (h : L.Stores s t) (hnext : s.next ≤ s'.next)
    (hkept : ∀ {f g}, L.frame f g → f < s.next → s'.frame? f = s.frame? f) :
    (L.reframe (L.Rebased s s' t)).Stores s' t where
  next := .new
  exist hfg := by
    cases hfg with
    | old hfg hf => exact iff_of_true (Nat.lt_of_lt_of_le hf hnext) ((h.exist hfg).1 hf)
    | new i => exact iff_of_false (by simp) (by simp)
  outer {f g} hfg := by
    cases hfg with
    | old hfg hf =>
      rw [Store.outer?, hkept hfg hf]
      exact (h.outer hfg).imp fun _ _ hop => ⟨.old hop.1 (Nat.lt_trans hop.2.1 hf), hop.2⟩
    | new i =>
      rw [Store.outer?, Store.outer?, Store.frame?_eq_none (by simp),
        Store.frame?_eq_none (by simp)]
      exact .none
  entries hfg := by
    cases hfg with
    | old hfg hf =>
      rw [Store.bindings, hkept hfg hf]
      exact (h.entries hfg).reframe hnext .old
    | new i =>
      rw [Store.bindings, Store.bindings, Store.frame?_eq_none (by simp),
        Store.frame?_eq_none (by simp)]
      exact .empty

end Rebase

end Likeness
end Lisplet
