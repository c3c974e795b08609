/-
# Simulations

Two runs may go in step although their frames, their code and even their names differ.
A simulation says how they go together: which names, which expressions and which errors
of the one go with which of the other (`Simulation`).  This may depend on the frame that
an expression is evaluated in, so frames have *modes*.  Both runs start from stores whose
frames below `base` are the same, and all of these have one mode; the frames that are
made after that go together in the order in which they are made, and their modes are
recorded (`Simulation.Frames`).  So the world in which values go together grows with the
runs, by what the modes of new frames are.

A likeness (`Likeness`) relates runs of the same code in which the frames that stand for
each other are settled from the start.  Here the code of the two runs and the names that
their frames bind may differ, and what is asked of bindings does not depend on their order.

`Simulation.Lawful` is what evaluation needs of a simulation, one condition for each
kind of expression.
-/

import Lisplet.Proofs.Grounded
import Lisplet.Proofs.Likeness
import Lisplet.Proofs.Soundness

/-- A relation between optional values is equality if it is equality between values. -/
theorem Option.Rel.eq {R : α → α → Prop} {a b : Option α} (h : Option.Rel R a b)
    (hR : ∀ a b, R a b → a = b) : a = b := by
  cases h with
  | some h => rw [hR _ _ h]
  | none => rfl

namespace Lisplet

/-- A value that is neither a lambda nor a host function. -/
def Value.isInert : Value → Bool
  | .lambda .. | .function (.host _) => false
  | _ => true

/-- How two runs go together. -/
structure Simulation (Mode : Type) where
  /-- The names that go together in frames of a mode. -/
  names : Mode → Symbol → Symbol → Prop
  /-- The expressions that go together in frames of a mode. -/
  code : Mode → Value → Value → Prop
  /-- The errors that go together. -/
  errors : Error → Error → Prop
  /-- The mode of the frames that both runs start from. -/
  ground : Mode
  /-- The number of frames that both runs start from. -/
  base : Nat
  /-- The number of the first frame that the one run makes. -/
  left : Nat
  /-- The number of the first frame that the other run makes. -/
  right : Nat

namespace Simulation

variable {Mode : Type} (S : Simulation Mode)

/-! ### What goes together -/

/-- Frames go together if they are one of those that both runs start from, or were made at
the same point; `made` lists the modes of the frames made so far. -/
def Frames (made : List Mode) (k : Mode) (f g : Nat) : Prop :=
  (k = S.ground ∧ f = g ∧ f < S.base) ∨
    ∃ i, made[i]? = some k ∧ f = S.left + i ∧ g = S.right + i

/-- What two lambdas made in frames of mode `k` have in common: parameters and bodies go
together in the mode of the frames that are made for them, and names that go together
there go together around them as well, but for parameters. -/
def Abstracts (k : Mode) (formals : List Symbol) (body : Value) (formals' : List Symbol)
    (body' : Value) : Prop :=
  ∃ inner, (∀ y y', S.names inner y y' → S.names k y y' ∨ y ∈ formals) ∧
    List.Forall₂ (S.names inner) formals formals' ∧ S.code inner body body'

/-- Values go together if they are one inert value, or lambdas that go together. -/
inductive Values (made : List Mode) : Value → Value → Prop
  | inert (h : v.isInert = true) : Values made v v
  | lambda (hframe : S.Frames made k f g) (h : S.Abstracts k formals body formals' body') :
    Values made (.lambda formals body f) (.lambda formals' body' g)

/-- Errors go together if they are said to, or name operands that do. -/
inductive Errors (made : List Mode) : Error → Error → Prop
  | same (h : S.errors err err') : Errors made err err'
  | notNumber (h : S.Values made v w) : Errors made (.notNumber op v) (.notNumber op w)

/-- Computations end in values between which `V` holds, or in errors that go together. -/
inductive Results (made : List Mode) (V : α → β → Prop) : Except Error α → Except Error β → Prop
  | ok (h : V a b) : Results made V (.ok a) (.ok b)
  | error (h : S.Errors made err err') : Results made V (.error err) (.error err')

/-- The parts of definitions go together: target and value do, or both targets are
refused, or both times the number of parts is. -/
inductive DefinitionParts (k : Mode) : List Value → List Value → Prop
  | target (hx : S.names k x x') (he : S.code k e e') :
    DefinitionParts k [.symbol x, e] [.symbol x', e']
  | refused (h : v.symbol? = none) (h' : v'.symbol? = none)
    (herr : S.errors (.invalidName v) (.invalidName v')) : DefinitionParts k [v, e] [v', e']
  | count (h : parts.length ≠ 2) (h' : parts'.length ≠ 2) : DefinitionParts k parts parts'

/-- The parts of lambda forms go together: they make lambdas that do, or both rows of
parameters are refused, or both times the number of parts is. -/
inductive AbstractionParts (k : Mode) : List Value → List Value → Prop
  | lambda (h : S.Abstracts k formals body formals' body') :
    AbstractionParts k [.list (formals.map .symbol), body] [.list (formals'.map .symbol), body']
  | refused (h : Evaluate.parameters params = .error err)
    (h' : Evaluate.parameters params' = .error err') (herr : S.errors err err') :
    AbstractionParts k [params, body] [params', body']
  | count (h : parts.length ≠ 2) (h' : parts'.length ≠ 2) : AbstractionParts k parts parts'

/-- What evaluation needs of a simulation. -/
structure Lawful : Prop where
  /-- The frames that the runs make come after those that they start from. -/
  base_le_left : S.base ≤ S.left
  base_le_right : S.base ≤ S.right
  /-- A name goes with one name. -/
  unique : ∀ {k y y' w w'}, S.names k y y' → S.names k w w' → (y = w ↔ y' = w')
  /-- An error goes with itself. -/
  refl : ∀ err, S.errors err err
  /-- So do symbols without a binding if their names do. -/
  unbound : ∀ {k y y'}, S.names k y y' → S.errors (.unbound y) (.unbound y')
  /-- So do lambdas that get another number of arguments than they have parameters. -/
  argumentCount : ∀ {k formals formals' body body' given},
    List.Forall₂ (S.names k) formals formals' → S.code k body body' →
      S.errors (.argumentCount formals body given) (.argumentCount formals' body' given)
  /-- Both expressions or none can be written. -/
  writable : ∀ {k e e'}, S.code k e e' → e.isWritable = e'.isWritable
  /-- A symbol goes with one whose name goes with its name. -/
  symbol : ∀ {k y e'}, S.code k (.symbol y) e' → ∃ y', e' = .symbol y' ∧ S.names k y y'
  /-- Constants go together as values do, whatever frames were made. -/
  constant : ∀ {k e e'}, S.code k e e' → e.isConstant = true → ∀ made, S.Values made e e'
  /-- Another sequence goes with one if the lists of their items go together. -/
  hostList : ∀ {k kind es e'}, S.code k (.hostList kind es) e' →
    ∃ es', e' = .hostList kind es' ∧ S.code k (.list es) (.list es')
  /-- The empty list goes with itself. -/
  empty : ∀ {k e'}, S.code k (.list []) e' → e' = .list []
  /-- The parts of sequences go together one by one. -/
  sequence : ∀ {k parts e'}, S.code k (.list (.symbol Form.sequence.keyword :: parts)) e' →
    ∃ parts', e' = .list (.symbol Form.sequence.keyword :: parts') ∧
      List.Forall₂ (S.code k) parts parts'
  /-- So do those of conditionals. -/
  conditional : ∀ {k parts e'}, S.code k (.list (.symbol Form.conditional.keyword :: parts)) e' →
    ∃ parts', e' = .list (.symbol Form.conditional.keyword :: parts') ∧
      List.Forall₂ (S.code k) parts parts'
  definition : ∀ {k parts e'}, S.code k (.list (.symbol Form.definition.keyword :: parts)) e' →
    ∃ parts', e' = .list (.symbol Form.definition.keyword :: parts') ∧
      S.DefinitionParts k parts parts'
  abstraction : ∀ {k parts e'}, S.code k (.list (.symbol Form.abstraction.keyword :: parts)) e' →
    ∃ parts', e' = .list (.symbol Form.abstraction.keyword :: parts') ∧
      S.AbstractionParts k parts parts'
  /-- A combination goes with one whose head and operands go with its own. -/
  combination : ∀ {k head es e'}, head.form? = none → S.code k (.list (head :: es)) e' →
    ∃ head' es', e' = .list (head' :: es') ∧ head'.form? = none ∧ S.code k head head' ∧
      List.Forall₂ (S.code k) es es'

variable {S} {made made' : List Mode} {k k' : Mode} {f f' g g' : Nat}

/-! ### Growing worlds -/

theorem Frames.mono (h : S.Frames made k f g) (hm : made <+: made') : S.Frames made' k f g := by
  refine h.imp_right ?_
  rintro ⟨i, hi, hf, hg⟩
  obtain ⟨more, rfl⟩ := hm
  obtain ⟨hlt, -⟩ := List.getElem?_eq_some_iff.1 hi
  exact ⟨i, by rw [List.getElem?_append_left hlt, hi], hf, hg⟩

theorem Values.mono {v w : Value} (h : S.Values made v w) (hm : made <+: made') :
    S.Values made' v w := by
  cases h with
  | inert h => exact .inert h
  | lambda hframe h => exact .lambda (hframe.mono hm) h

/-! ### Frames -/

/-- A frame goes with one frame and has one mode. -/
theorem Frames.unique (hS : S.Lawful) (h : S.Frames made k f g) (h' : S.Frames made k' f' g') :
    (f = f' ↔ g = g') ∧ (f = f' → k = k') := by
  have hleft := hS.base_le_left
  have hright := hS.base_le_right
  rcases h with ⟨rfl, rfl, hf⟩ | ⟨i, hi, rfl, rfl⟩ <;>
    rcases h' with ⟨rfl, rfl, hf'⟩ | ⟨j, hj, rfl, rfl⟩
  · exact ⟨Iff.rfl, fun _ => rfl⟩
  · exact ⟨by omega, by omega⟩
  · exact ⟨by omega, by omega⟩
  · refine ⟨by omega, fun h => ?_⟩
    obtain rfl : i = j := by omega
    exact Option.some.inj (hi.symm.trans hj)

/-- The last frame of both runs is a frame of the last mode. -/
theorem frames_last (S : Simulation Mode) (made : List Mode) (k : Mode) :
    S.Frames (made ++ [k]) k (S.left + made.length) (S.right + made.length) :=
  .inr ⟨made.length, by simp, rfl, rfl⟩

/-- Before any frame was made each goes with itself. -/
theorem frames_nil : S.Frames [] k f g ↔ k = S.ground ∧ f = g ∧ f < S.base :=
  or_iff_left fun ⟨_, h, _⟩ => nomatch h

/-- With one more frame made on both sides no others go together than before. -/
theorem Frames.of_append (h : S.Frames (made ++ [k']) k f g) :
    S.Frames made k f g ∨ k = k' ∧ f = S.left + made.length ∧ g = S.right + made.length := by
  rcases h with h | ⟨i, hi, rfl, rfl⟩
  · exact .inl (.inl h)
  · rcases Nat.lt_trichotomy i made.length with hlt | rfl | hgt
    · exact .inl (.inr ⟨i, by rwa [List.getElem?_append_left hlt] at hi, rfl, rfl⟩)
    · exact .inr ⟨by simpa [eq_comm] using hi, rfl, rfl⟩
    · rw [List.getElem?_eq_none (by simpa using Nat.succ_le_of_lt hgt)] at hi
      cases hi

/-- If no frames are made in one run alone before the runs start, then frames are not moved. -/
theorem Frames.eq (hS : S.left = S.right) (h : S.Frames made k f g) : f = g := by
  rcases h with ⟨-, rfl, -⟩ | ⟨i, -, rfl, rfl⟩
  · rfl
  · rw [hS]

/-- Then every frame goes with itself in some mode. -/
theorem exists_frames (hbase : S.base = S.left) (hS : S.left = S.right)
    (hf : f < S.left + made.length) : ∃ k, S.Frames made k f f := by
  rcases Nat.lt_or_ge f S.left with h | h
  · exact ⟨S.ground, .inl ⟨rfl, rfl, hbase ▸ h⟩⟩
  · obtain ⟨i, rfl⟩ := Nat.exists_eq_add_of_le h
    have hi : i < made.length := Nat.lt_of_add_lt_add_left hf
    exact ⟨made[i], .inr ⟨i, List.getElem?_eq_getElem hi, rfl, by rw [hS]⟩⟩

/-! ### Values -/

namespace Values

variable {v w : Value}

/-- A value that is no host function goes with itself, if it does when it is a lambda. -/
theorem self (hhost : ∀ fn, v ≠ .function (.host fn))
    (hlambda : ∀ formals body f, v = .lambda formals body f →
      S.Frames made k f f ∧ S.Abstracts k formals body formals body) : S.Values made v v := by
  match v with
  | .lambda formals body f =>
    obtain ⟨hframe, h⟩ := hlambda formals body f rfl
    exact .lambda hframe h
  | .function (.host fn) => exact absurd rfl (hhost fn)
  | .function (.operator _) | .number _ | .bool _ | .symbol _ => exact .inert rfl
  | .text _ | .null | .list _ | .hostList .. | .unit => exact .inert rfl

theorem isTrue_eq (h : S.Values made v w) : v.isTrue = w.isTrue := by
  cases h <;> rfl

theorem isWritable_eq (hS : S.Lawful) (h : S.Values made v w) : v.isWritable = w.isWritable := by
  cases h with
  | inert => rfl
  | lambda _ h =>
    obtain ⟨_, -, -, hbody⟩ := h
    rw [Value.isWritable, Value.isWritable, hS.writable hbody]

/-- Values that go together are one value, or both are no numbers. -/
theorem eq_or_number? (h : S.Values made v w) : v = w ∨ v.number? = none ∧ w.number? = none := by
  cases h with
  | inert => exact .inl rfl
  | lambda => exact .inr ⟨rfl, rfl⟩

end Values

theorem all_isWritable_eq (hS : S.Lawful) {vs ws : List Value}
    (h : List.Forall₂ (S.Values made) vs ws) :
    vs.all Value.isWritable = ws.all Value.isWritable := by
  induction h with
  | nil => rfl
  | cons hv _ ih => rw [List.all_cons, List.all_cons, hv.isWritable_eq hS, ih]

/-- Arguments that go together are the same, or have their leftmost one that is no number
in one place. -/
theorem find?_cases {args args' : List Value} (h : List.Forall₂ (S.Values made) args args') :
    args = args' ∨ ∃ v w, args.find? (fun a => a.number?.isNone) = some v ∧
      args'.find? (fun a => a.number?.isNone) = some w ∧ S.Values made v w := by
  induction h with
  | nil => exact .inl rfl
  | @cons a b args args' hab _ ih =>
    rcases hab.eq_or_number? with rfl | ⟨ha, hb⟩
    · cases ha : a.number? with
      | none => exact .inr ⟨a, a, by simp [ha], by simp [ha], hab⟩
      | some x => exact ih.imp (congrArg _) fun ⟨v, w, hv, hw, hvw⟩ =>
          ⟨v, w, by simpa [ha] using hv, by simpa [ha] using hw, hvw⟩
    · exact .inr ⟨a, b, by simp [ha], by simp [hb], hab⟩

/-- An operator ends on arguments that go together in results that do. -/
theorem Results.operator (hS : S.Lawful) {op : Operator} {args args' : List Value}
    (h : List.Forall₂ (S.Values made) args args') :
    S.Results made (S.Values made) (op.apply args) (op.apply args') := by
  have hsame : S.Results made (S.Values made) (op.apply args) (op.apply args) := by
    rcases ho : op.apply args with err | v
    · exact .error (.same (hS.refl err))
    · rcases Operator.apply_eq_ok ho with ⟨n, rfl⟩ | ⟨b, rfl⟩ <;> exact .ok (.inert rfl)
  rcases find?_cases h with rfl | ⟨v, w, hv, hw, hvw⟩
  · exact hsame
  · cases op with
    | arithmetic op =>
      simp only [Operator.apply, Arithmetic.apply_of_find? hv, Arithmetic.apply_of_find? hw]
      exact .error (.notNumber hvw)
    | comparison op =>
      by_cases hl : args.length = 2
      · simp only [Operator.apply, Comparison.apply_of_find? hl hv,
          Comparison.apply_of_find? (h.length_eq ▸ hl) hw]
        exact .error (.notNumber hvw)
      · simp only [Operator.apply, Comparison.apply_of_length_ne hl,
          Comparison.apply_of_length_ne (h.length_eq ▸ hl), h.length_eq]
        exact .error (.same (hS.refl _))

/-! ### Bindings -/

/-- Bindings in frames of mode `k` go together: names that do are bound to values that
do, or not at all. -/
def Entries (S : Simulation Mode) (made : List Mode) (k : Mode) (b c : Bindings) : Prop :=
  ∀ y y', S.names k y y' → Option.Rel (S.Values made) (b.get? y) (c.get? y')

namespace Entries

variable {b c : Bindings}

theorem mono (h : S.Entries made k b c) (hm : made <+: made') : S.Entries made' k b c :=
  fun y y' hy => (h y y' hy).imp fun _ _ hvw => hvw.mono hm

theorem empty : S.Entries made k .empty .empty := fun _ _ _ => .none

theorem insert (hS : S.Lawful) (h : S.Entries made k b c) {x x' : Symbol} (hx : S.names k x x')
    {v w : Value} (hvw : S.Values made v w) : S.Entries made k (b.insert x v) (c.insert x' w) := by
  intro y y' hy
  rw [Bindings.get?_insert, Bindings.get?_insert]
  by_cases hyx : y = x
  · rw [if_pos hyx, if_pos ((hS.unique hy hx).1 hyx)]
    exact .some hvw
  · rw [if_neg hyx, if_neg (mt (hS.unique hy hx).2 hyx)]
    exact h y y' hy

theorem insertAll (hS : S.Lawful) {formals formals' : List Symbol}
    (hformals : List.Forall₂ (S.names k) formals formals') :
    ∀ {args args' : List Value} {b c : Bindings}, List.Forall₂ (S.Values made) args args' →
      S.Entries made k b c →
      S.Entries made k (b.insertAll (formals.zip args)) (c.insertAll (formals'.zip args')) := by
  induction hformals with
  | nil => exact fun _ h => h
  | cons hx _ ih =>
    intro args args' b c hargs h
    cases hargs with
    | nil => exact h
    | cons hvw hargs => exact ih hargs (h.insert hS hx hvw)

end Entries

/-! ### Stores -/

/-- Stores go together, `made` being the modes of the frames that were made: frames that go
together have bindings that do, and lie inside of frames that do; a name that a frame does
not bind goes around it with the same name as in it. -/
structure Stores (S : Simulation Mode) (made : List Mode) (s t : Store) : Prop where
  next_left : s.next = S.left + made.length
  next_right : t.next = S.right + made.length
  outer_lt_left : ∀ {f o}, s.outer? f = some o → o < f
  outer_lt_right : ∀ {f o}, t.outer? f = some o → o < f
  entries : ∀ {k f g}, S.Frames made k f g → S.Entries made k (s.bindings f) (t.bindings g)
  outer : ∀ {k f g}, S.Frames made k f g → Option.Rel
    (fun o o' => ∃ k', S.Frames made k' o o' ∧
      ∀ y y', S.names k y y' → S.names k' y y' ∨ (s.bindings f).binds y = true)
    (s.outer? f) (t.outer? g)

namespace Stores

variable {s t : Store} {x x' : Symbol} {v w : Value}

/-- Two stores go together before anything was made if all frames that both runs start from
have bindings that do, and lie in the same places. -/
theorem start (hleft : s.next = S.left) (hright : t.next = S.right)
    (hs : ∀ {f o}, s.outer? f = some o → o < f) (ht : ∀ {f o}, t.outer? f = some o → o < f)
    (hentries : ∀ f, f < S.base → S.Entries [] S.ground (s.bindings f) (t.bindings f))
    (houter : ∀ f, f < S.base → t.outer? f = s.outer? f) : S.Stores [] s t where
  next_left := hleft
  next_right := hright
  outer_lt_left := hs
  outer_lt_right := ht
  entries hfg := by
    obtain ⟨rfl, rfl, hf⟩ := frames_nil.1 hfg
    exact hentries _ hf
  outer {_ f _} hfg := by
    obtain ⟨rfl, rfl, hf⟩ := frames_nil.1 hfg
    rw [houter f hf]
    cases ho : s.outer? f with
    | none => exact .none
    | some o =>
      have hlt : o < S.base := Nat.lt_trans (hs ho) hf
      exact .some ⟨S.ground, frames_nil.2 ⟨rfl, rfl, hlt⟩, fun _ _ hy => .inl hy⟩

/-- Frames that go together exist. -/
theorem lt_next (hS : S.Lawful) (h : S.Stores made s t) (hfg : S.Frames made k f g) :
    f < s.next ∧ g < t.next := by
  have hleft := hS.base_le_left
  have hright := hS.base_le_right
  rw [h.next_left, h.next_right]
  rcases hfg with ⟨-, rfl, hf⟩ | ⟨i, hi, rfl, rfl⟩
  · omega
  · obtain ⟨hlt, -⟩ := List.getElem?_eq_some_iff.1 hi
    omega

/-- The same frame was made last in both runs. -/
theorem frames_next (h : S.Stores made s t) (k : Mode) :
    S.Frames (made ++ [k]) k s.next t.next := by
  rw [h.next_left, h.next_right]
  exact S.frames_last made k

/-- Names that go together mean values that do. -/
theorem lookup? (h : S.Stores made s t) (hfg : S.Frames made k f g) (hx : S.names k x x') :
    Option.Rel (S.Values made) (s.lookup? f x) (t.lookup? g x') := by
  induction f using Nat.strong_induction_on generalizing g k with
  | _ f ih =>
    rw [Store.lookup?_eq h.outer_lt_left, Store.lookup?_eq h.outer_lt_right]
    have hentry := h.entries hfg x x' hx
    have houter := h.outer hfg
    cases hv : (s.bindings f).get? x with
    | some v =>
      rw [hv] at hentry
      generalize (t.bindings g).get? x' = w at hentry ⊢
      cases hentry with
      | some hvw => exact .some hvw
    | none =>
      rw [hv] at hentry
      generalize (t.bindings g).get? x' = w at hentry ⊢
      cases hentry
      cases ho : s.outer? f with
      | none =>
        rw [ho] at houter
        generalize t.outer? g = o' at houter ⊢
        cases houter
        exact .none
      | some o =>
        rw [ho] at houter
        generalize t.outer? g = o' at houter ⊢
        cases houter with
        | some hoo' =>
          obtain ⟨k', hframes, hcross⟩ := hoo'
          have hunbound : (s.bindings f).binds x ≠ true := by simp [Bindings.binds, hv]
          exact ih o (h.outer_lt_left ho) hframes ((hcross x x' hx).resolve_right hunbound)

/-- A definition in frames that go together. -/
theorem define (hS : S.Lawful) (h : S.Stores made s t) (hfg : S.Frames made k f g)
    (hx : S.names k x x') (hvw : S.Values made v w) :
    S.Stores made (s.define f x v) (t.define g x' w) where
  next_left := by rw [Store.next_define, h.next_left]
  next_right := by rw [Store.next_define, h.next_right]
  outer_lt_left ho := h.outer_lt_left (by rwa [Store.outer?_define] at ho)
  outer_lt_right ho := h.outer_lt_right (by rwa [Store.outer?_define] at ho)
  entries {k' f' g'} hfg' := by
    obtain ⟨hf, hg⟩ := h.lt_next hS hfg
    obtain ⟨hiff, hmode⟩ := hfg'.unique hS hfg
    rw [Store.bindings_define, Store.bindings_define]
    by_cases heq : f' = f
    · obtain rfl := hmode heq
      rw [if_pos ⟨heq, hf⟩, if_pos ⟨hiff.1 heq, hg⟩]
      exact (h.entries hfg).insert hS hx hvw
    · rw [if_neg fun h => heq h.1, if_neg fun h => heq (hiff.2 h.1)]
      exact h.entries hfg'
  outer {k' f' g'} hfg' := by
    rw [Store.outer?_define, Store.outer?_define]
    refine (h.outer hfg').imp fun o o' ⟨k'', hframes, hcross⟩ => ⟨k'', hframes, fun y y' hy => ?_⟩
    refine (hcross y y' hy).imp_right fun hbinds => ?_
    -- what was bound before the definition still is
    rw [Store.bindings_define]
    split
    · rename_i heq
      rw [Bindings.binds, Bindings.get?_insert]
      split
      · rfl
      · rwa [← heq.1]
    · exact hbinds

/-- New frames inside of frames that go together. -/
theorem push (hS : S.Lawful) (h : S.Stores made s t) {inner : Mode} {b c : Bindings}
    (hbc : S.Entries made inner b c) (hfg : S.Frames made k f g)
    (hcross : ∀ y y', S.names inner y y' → S.names k y y' ∨ b.binds y = true) :
    S.Stores (made ++ [inner]) (s.push ⟨b, some f⟩) (t.push ⟨c, some g⟩) := by
  have hgrow : made <+: made ++ [inner] := List.prefix_append ..
  obtain ⟨hf, hg⟩ := h.lt_next hS hfg
  -- frames that went together before are not the new ones
  have hold : ∀ {k' f' g'}, S.Frames made k' f' g' → f' ≠ s.next ∧ g' ≠ t.next :=
    fun hfg' => ⟨Nat.ne_of_lt (h.lt_next hS hfg').1, Nat.ne_of_lt (h.lt_next hS hfg').2⟩
  refine ⟨?_, ?_, Store.outer_lt_push h.outer_lt_left ?_, Store.outer_lt_push h.outer_lt_right ?_,
    fun hfg' => ?_, fun hfg' => ?_⟩
  · rw [Store.next_push, h.next_left, List.length_append]; rfl
  · rw [Store.next_push, h.next_right, List.length_append]; rfl
  · rintro _ ⟨⟩
    exact hf
  · rintro _ ⟨⟩
    exact hg
  · rw [Store.bindings_push, Store.bindings_push]
    rcases hfg'.of_append with hfg' | ⟨rfl, hf', hg'⟩
    · rw [if_neg (hold hfg').1, if_neg (hold hfg').2]
      exact (h.entries hfg').mono hgrow
    · rw [if_pos (hf'.trans h.next_left.symm), if_pos (hg'.trans h.next_right.symm)]
      exact hbc.mono hgrow
  · rw [Store.outer?_push, Store.outer?_push, Store.bindings_push]
    rcases hfg'.of_append with hfg' | ⟨rfl, hf', hg'⟩
    · rw [if_neg (hold hfg').1, if_neg (hold hfg').2, if_neg (hold hfg').1]
      exact (h.outer hfg').imp fun _ _ ⟨k', hframes, hcross⟩ => ⟨k', hframes.mono hgrow, hcross⟩
    · rw [if_pos (hf'.trans h.next_left.symm), if_pos (hg'.trans h.next_right.symm),
        if_pos (hf'.trans h.next_left.symm)]
      exact .some ⟨k, hfg.mono hgrow, hcross⟩

/-- Where frames are not moved, they lie in the same places in both stores. -/
theorem outer?_eq (hbase : S.base = S.left) (hS : S.left = S.right) (h : S.Stores made s t)
    (f : FrameId) : s.outer? f = t.outer? f := by
  rcases Nat.lt_or_ge f s.next with hf | hf
  · obtain ⟨k, hframes⟩ := exists_frames hbase hS (h.next_left ▸ hf)
    exact (h.outer hframes).eq fun _ _ ⟨_, hframes, _⟩ => hframes.eq hS
  · have hf' : t.next ≤ f := by rwa [h.next_right, ← hS, ← h.next_left]
    rw [Store.outer?, Store.outer?, Store.frame?_eq_none hf, Store.frame?_eq_none hf']

end Stores
end Simulation
end Lisplet
