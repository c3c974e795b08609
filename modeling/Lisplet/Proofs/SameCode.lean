/-
# Runs of the same code

Two runs of the same code in frames that differ: what may be evaluated is given by a
property of expressions, and the names that matter by a property of names
(`Simulation.sameCode`).  The simulation is lawful if the parts that are evaluated have
the property again and the names in them matter (`Simulation.Admits`).

Values then go together if they are the same but for the frames of lambdas
(`Value.SameUpTo`), and errors have one class and one message.
-/

import Lisplet.Proofs.Lockstep

theorem Option.Rel.symm {R : α → β → Prop} {a : Option α} {b : Option β} (h : Option.Rel R a b) :
    Option.Rel (fun b a => R a b) b a := by
  cases h with
  | some h => exact .some h
  | none => exact .none

namespace Lisplet

/-- Values are the same up to frames: they are one value and no lambda, or lambdas with the
same parameters and the same body that were created in frames between which `φ` holds. -/
inductive Value.SameUpTo (φ : FrameId → FrameId → Prop) : Value → Value → Prop
  | other (h : ∀ formals body f, v ≠ .lambda formals body f) : SameUpTo φ v v
  | lambda (h : φ f g) : SameUpTo φ (.lambda formals body f) (.lambda formals body g)

/-- Outcomes are the same up to frames: values are, and errors are of one class and have
one message. -/
inductive Outcome.SameUpTo (φ : FrameId → FrameId → Prop) :
    Except Error Value → Except Error Value → Prop
  | ok (h : v.SameUpTo φ w) : SameUpTo φ (.ok v) (.ok w)
  | error (hkind : err.kind = err'.kind) (hmessage : err.message = err'.message) :
    SameUpTo φ (.error err) (.error err')

/-- A frame of one store and a frame of another are the same up to frames: they bind the
same names to values that are, and lie inside of frames between which `φ` holds. -/
structure Store.FrameSameUpTo (φ : FrameId → FrameId → Prop) (s : Store) (f : FrameId) (t : Store)
    (g : FrameId) : Prop where
  get? : ∀ x, Option.Rel (Value.SameUpTo φ) ((s.bindings f).get? x) ((t.bindings g).get? x)
  outer? : Option.Rel φ (s.outer? f) (t.outer? g)

/-- Stores are the same up to frames: those between which `φ` holds are. -/
def Store.SameUpTo (φ : FrameId → FrameId → Prop) (s t : Store) : Prop :=
  ∀ f g, φ f g → s.FrameSameUpTo φ f t g

/-- Frames below `n` are shared by two runs, and those with the `k` numbers from `p` on stand
for those from `q` on. -/
def Shifted (n p q k f g : Nat) : Prop :=
  f = g ∧ f < n ∨ ∃ i, i < k ∧ f = p + i ∧ g = q + i

namespace Value.SameUpTo

variable {φ ψ : FrameId → FrameId → Prop} {v w : Value}

theorem imp (h : v.SameUpTo φ w) (hφ : ∀ f g, φ f g → ψ f g) : v.SameUpTo ψ w := by
  cases h with
  | other h => exact .other h
  | lambda h => exact .lambda (hφ _ _ h)

/-- No text of a value shows its frame. -/
theorem render_eq (h : v.SameUpTo φ w) (style : Style) : v.render style = w.render style := by
  cases h with
  | other => rfl
  | lambda => cases style <;> simp only [Value.render]

theorem isWritable_eq (h : v.SameUpTo φ w) : v.isWritable = w.isWritable := by
  cases h <;> rfl

theorem symm (h : v.SameUpTo φ w) : w.SameUpTo (fun f g => φ g f) v := by
  cases h with
  | other h => exact .other h
  | lambda h => exact .lambda h

end Value.SameUpTo

section

variable {φ ψ : FrameId → FrameId → Prop}

theorem Outcome.SameUpTo.imp {r r' : Except Error Value} (h : Outcome.SameUpTo φ r r')
    (hφ : ∀ f g, φ f g → ψ f g) : Outcome.SameUpTo ψ r r' := by
  cases h with
  | ok h => exact .ok (h.imp hφ)
  | error hkind hmessage => exact .error hkind hmessage

theorem Outcome.SameUpTo.symm {r r' : Except Error Value} (h : Outcome.SameUpTo φ r r') :
    Outcome.SameUpTo (fun f g => φ g f) r' r := by
  cases h with
  | ok h => exact .ok h.symm
  | error hkind hmessage => exact .error hkind.symm hmessage.symm

theorem Store.FrameSameUpTo.imp {s t : Store} {f g : FrameId} (h : s.FrameSameUpTo φ f t g)
    (hφ : ∀ f g, φ f g → ψ f g) : s.FrameSameUpTo ψ f t g where
  get? x := (h.get? x).imp fun _ _ hvw => hvw.imp hφ
  outer? := h.outer?.imp hφ

theorem Store.FrameSameUpTo.symm {s t : Store} {f g : FrameId} (h : s.FrameSameUpTo φ f t g) :
    t.FrameSameUpTo (fun f g => φ g f) g s f where
  get? x := (h.get? x).symm.imp fun _ _ => Value.SameUpTo.symm
  outer? := h.outer?.symm

end

/-- Names that are the same and have a property are the same rows. -/
theorem forall₂_eq_and {P : α → Prop} {l l' : List α} :
    List.Forall₂ (fun a b => a = b ∧ P a) l l' ↔ l = l' ∧ ∀ a ∈ l, P a := by
  constructor
  · intro h
    induction h with
    | nil => exact ⟨rfl, List.forall_mem_nil _⟩
    | cons hab _ ih =>
      obtain ⟨rfl, ha⟩ := hab
      exact ⟨by rw [ih.1], List.forall_mem_cons.2 ⟨ha, ih.2⟩⟩
  · rintro ⟨rfl, h⟩
    exact List.forall₂_same.2 fun a ha => ⟨rfl, h a ha⟩

namespace Simulation

/-- The simulation of runs of the same code: `expr` may be evaluated, names of `name`
matter. -/
def sameCode (expr : Value → Prop) (name : Symbol → Prop) (base left right : Nat) :
    Simulation Unit where
  names _ y y' := y = y' ∧ name y
  code _ e e' := e = e' ∧ expr e
  errors := Eq
  ground := ()
  base := base
  left := left
  right := right

/-- The expressions of a kind are made of such, and the names in them matter; the lambdas
in them were created in frames below `base`. -/
structure Admits (expr : Value → Prop) (name : Symbol → Prop) (base : Nat) : Prop where
  symbol : ∀ {x}, expr (.symbol x) → name x
  constant : ∀ {e}, expr e → e.isConstant = true → e.isInert = true ∨
    ∃ formals body f, e = .lambda formals body f ∧ f < base ∧ (∀ x ∈ formals, name x) ∧ expr body
  hostList : ∀ {kind es}, expr (.hostList kind es) → expr (.list es)
  sequence : ∀ {parts}, expr (.list (.symbol Form.sequence.keyword :: parts)) →
    ∀ e ∈ parts, expr e
  conditional : ∀ {parts}, expr (.list (.symbol Form.conditional.keyword :: parts)) →
    ∀ e ∈ parts, expr e
  definition : ∀ {x e}, expr (.list [.symbol Form.definition.keyword, .symbol x, e]) →
    name x ∧ expr e
  abstraction : ∀ {formals : List Symbol} {body},
    expr (.list [.symbol Form.abstraction.keyword, .list (formals.map .symbol), body]) →
      (∀ x ∈ formals, name x) ∧ expr body
  combination : ∀ {head es}, head.form? = none → expr (.list (head :: es)) →
    ∀ e ∈ head :: es, expr e

variable {expr : Value → Prop} {name : Symbol → Prop} {base left right : Nat} {made : List Unit}
  {f g : Nat}

/-- In runs of the same code the frames that were made go together in the order in which
they were made. -/
theorem sameCode_frames : (sameCode expr name base left right).Frames made () f g ↔
    Shifted base left right made.length f g := by
  simp only [Frames, sameCode, true_and]
  refine or_congr_right (exists_congr fun i => and_congr_left' ?_)
  rw [List.getElem?_eq_some_iff]
  exact ⟨fun ⟨h, _⟩ => h, fun h => ⟨h, rfl⟩⟩

/-- Lambdas have in common their parameters and their body. -/
theorem sameCode_abstracts {formals formals' : List Symbol} {body body' : Value} :
    (sameCode expr name base left right).Abstracts () formals body formals' body' ↔
      formals = formals' ∧ body = body' ∧ (∀ x ∈ formals, name x) ∧ expr body := by
  constructor
  · rintro ⟨_, -, hformals, rfl, hbody⟩
    obtain ⟨rfl, hname⟩ := forall₂_eq_and.1 hformals
    exact ⟨rfl, rfl, hname, hbody⟩
  · rintro ⟨rfl, rfl, hname, hbody⟩
    exact ⟨(), fun _ _ hy => .inl hy, forall₂_eq_and.2 ⟨rfl, hname⟩, rfl, hbody⟩

/-- Values that go together are the same up to frames. -/
theorem sameCode_values {v w : Value} (h : (sameCode expr name base left right).Values made v w) :
    v.SameUpTo (Shifted base left right made.length) w := by
  cases h with
  | inert h => exact .other (by rintro _ _ _ rfl; cases h)
  | lambda hframe h =>
    obtain ⟨rfl, rfl, -⟩ := sameCode_abstracts.1 h
    exact .lambda (sameCode_frames.1 hframe)

/-- So are outcomes. -/
theorem sameCode_results {r r' : Except Error Value}
    (h : (sameCode expr name base left right).Results made
      ((sameCode expr name base left right).Values made) r r') :
    Outcome.SameUpTo (Shifted base left right made.length) r r' := by
  cases h with
  | ok h => exact .ok (sameCode_values h)
  | error h =>
    cases h with
    | same h =>
      obtain rfl := h
      exact .error rfl rfl
    | notNumber h =>
      have hsame := sameCode_values h
      refine .error ?_ ?_
      · exact Error.kind_congr rfl rfl rfl hsame.isWritable_eq
      · exact congrArg (_ ++ ·) (hsame.render_eq .inspected)

/-- So are stores. -/
theorem sameCode_stores {s t : Store}
    (h : (sameCode expr (fun _ => True) base left right).Stores made s t) :
    s.SameUpTo (Shifted base left right made.length) t := by
  intro f g hfg
  have hframes : (sameCode expr (fun _ => True) base left right).Frames made () f g :=
    sameCode_frames.2 hfg
  exact ⟨fun x => (h.entries hframes x x ⟨rfl, trivial⟩).imp fun _ _ => sameCode_values,
    (h.outer hframes).imp fun _ _ ⟨_, houter, _⟩ => sameCode_frames.1 houter⟩

theorem Admits.definitionParts (h : Admits expr name base) {parts : List Value}
    (he : expr (.list (.symbol Form.definition.keyword :: parts))) :
    (sameCode expr name base left right).DefinitionParts () parts parts := by
  by_cases hl : parts.length = 2
  · obtain ⟨target, e, rfl⟩ := List.length_eq_two.1 hl
    cases htarget : target.symbol? with
    | none => exact .refused htarget htarget rfl
    | some x =>
      obtain rfl := Value.symbol?_eq_some_iff.1 htarget
      obtain ⟨hx, he⟩ := h.definition he
      exact .target ⟨rfl, hx⟩ ⟨rfl, he⟩
  · exact .count hl hl

theorem Admits.abstractionParts (h : Admits expr name base) {parts : List Value}
    (he : expr (.list (.symbol Form.abstraction.keyword :: parts))) :
    (sameCode expr name base left right).AbstractionParts () parts parts := by
  by_cases hl : parts.length = 2
  · obtain ⟨params, body, rfl⟩ := List.length_eq_two.1 hl
    cases hp : Evaluate.parameters params with
    | error err => exact .refused hp hp rfl
    | ok formals =>
      obtain rfl := Evaluate.parameters_eq_ok_iff.1 hp
      obtain ⟨hformals, hbody⟩ := h.abstraction he
      exact .lambda (sameCode_abstracts.2 ⟨rfl, rfl, hformals, hbody⟩)
  · exact .count hl hl

/-- The simulation of runs of the same code is lawful if the code is of a kind that
evaluation does not leave. -/
theorem Admits.lawful (h : Admits expr name base) (hleft : base ≤ left) (hright : base ≤ right) :
    (sameCode expr name base left right).Lawful where
  base_le_left := hleft
  base_le_right := hright
  unique := by
    rintro _ y _ w _ ⟨rfl, -⟩ ⟨rfl, -⟩
    rfl
  refl _ := rfl
  unbound := by
    rintro _ y _ ⟨rfl, -⟩
    rfl
  argumentCount := by
    rintro _ formals formals' body _ given hformals ⟨rfl, -⟩
    obtain ⟨rfl, -⟩ := forall₂_eq_and.1 hformals
    rfl
  writable := by
    rintro _ e _ ⟨rfl, -⟩
    rfl
  symbol := by
    rintro _ y _ ⟨rfl, he⟩
    exact ⟨y, rfl, rfl, h.symbol he⟩
  constant := by
    rintro _ e _ ⟨rfl, he⟩ hconst made
    rcases h.constant he hconst with hinert | ⟨formals, body, f, rfl, hf, hformals, hbody⟩
    · exact .inert hinert
    · exact .lambda (sameCode_frames.2 (.inl ⟨rfl, hf⟩))
        (sameCode_abstracts.2 ⟨rfl, rfl, hformals, hbody⟩)
  hostList := by
    rintro _ kind es _ ⟨rfl, he⟩
    exact ⟨es, rfl, rfl, h.hostList he⟩
  empty := by
    rintro _ _ ⟨rfl, -⟩
    rfl
  sequence := by
    rintro _ parts _ ⟨rfl, he⟩
    exact ⟨parts, rfl, forall₂_eq_and.2 ⟨rfl, h.sequence he⟩⟩
  conditional := by
    rintro _ parts _ ⟨rfl, he⟩
    exact ⟨parts, rfl, forall₂_eq_and.2 ⟨rfl, h.conditional he⟩⟩
  definition := by
    rintro _ parts _ ⟨rfl, he⟩
    exact ⟨parts, rfl, h.definitionParts he⟩
  abstraction := by
    rintro _ parts _ ⟨rfl, he⟩
    exact ⟨parts, rfl, h.abstractionParts he⟩
  combination := by
    rintro _ head es _ hhead ⟨rfl, he⟩
    obtain ⟨hfn, hes⟩ := List.forall_mem_cons.1 (h.combination hhead he)
    exact ⟨head, es, rfl, hhead, ⟨rfl, hfn⟩, forall₂_eq_and.2 ⟨rfl, hes⟩⟩

end Simulation
end Lisplet
