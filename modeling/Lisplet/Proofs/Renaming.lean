/-
# Renamed parameters

It does not matter how the parameters of a lambda are named.  Where a lambda form stands
in an expression, one of its parameters may be replaced, everywhere in the form, by a name
that is new to it (`Renaming.Rewrites`): the expression has the same outcome, up to the new
name in lambdas, and binds the same in all frames that were there before
(`evaluate_renaming`).

The form may define the parameter anew, list it twice, or list it again in lambdas inside;
the frames made for its body then bind the new name wherever they did the old one.  The two
runs go together in two modes (`Renaming.Side`): inside of calls of the form names go with
their replacements, and outside each goes with itself.
-/

import Lisplet.Proofs.ClosedWorld
import Lisplet.Proofs.Unmentioned

namespace Lisplet
namespace Value

/-! ### Trees with other names -/

mutual

/-- A tree with its names replaced. -/
def mapSymbols (σ : Symbol → Symbol) : Value → Value
  | .symbol y => .symbol (σ y)
  | .list items => .list (mapRow σ items)
  | v => v

/-- A row of trees with their names replaced. -/
def mapRow (σ : Symbol → Symbol) : List Value → List Value
  | [] => []
  | e :: rest => mapSymbols σ e :: mapRow σ rest

end

/-- The form that makes a lambda. -/
def lambdaForm (formals : List Symbol) (body : Value) : Value :=
  .list [.symbol Form.abstraction.keyword, .list (formals.map .symbol), body]

variable {σ : Symbol → Symbol} {e : Value} {formals : List Symbol} {body : Value}

theorem mapRow_eq_map (σ : Symbol → Symbol) (es : List Value) :
    mapRow σ es = es.map (mapSymbols σ) := by
  induction es with
  | nil => rfl
  | cons e es ih => rw [mapRow, ih, List.map_cons]

theorem symbol?_mapSymbols (σ : Symbol → Symbol) (e : Value) :
    (e.mapSymbols σ).symbol? = e.symbol?.map σ := by
  cases e <;> rfl

mutual

/-- A tree with its names replaced is a tree. -/
theorem isTree_mapSymbols : ∀ e : Value, (e.mapSymbols σ).isTree = e.isTree
  | .list es => areTrees_mapRow es
  | .number _ | .bool _ | .symbol _ | .text _ | .null => rfl
  | .hostList .. | .unit | .function _ | .lambda .. => rfl

theorem areTrees_mapRow : ∀ es : List Value, areTrees (mapRow σ es) = areTrees es
  | [] => rfl
  | e :: es => by rw [mapRow, areTrees, areTrees, isTree_mapSymbols e, areTrees_mapRow es]

end

theorem mem_symbols_lambdaForm {y : Symbol} : y ∈ (lambdaForm formals body).symbols ↔
    y = Form.abstraction.keyword ∨ y ∈ formals ∨ y ∈ body.symbols := by
  simp [lambdaForm, symbols, rowSymbols, mem_rowSymbols]

theorem mapSymbols_lambdaForm (hσ : σ Form.abstraction.keyword = Form.abstraction.keyword) :
    (lambdaForm formals body).mapSymbols σ = lambdaForm (formals.map σ) (body.mapSymbols σ) := by
  have hformals : mapRow σ (formals.map .symbol) = (formals.map σ).map .symbol := by
    rw [mapRow_eq_map, List.map_map, List.map_map]
    rfl
  simp only [lambdaForm, mapSymbols, mapRow, hσ, hformals]

/-- Below its keyword a lambda form has no parameter list. -/
theorem parameters_lambdaForm (formals : List Symbol) (body : Value) :
    Evaluate.parameters (lambdaForm formals body) =
      .error (.parameterNotSymbol (.list (formals.map .symbol))) :=
  Evaluate.parameters_append [Form.abstraction.keyword] rfl [body]

end Value

open Value

/-- A lambda form, a parameter of it and another name for it, which does not occur in the
form; neither name is a keyword. -/
structure Renaming where
  formals : List Symbol
  body : Value
  /-- The parameter. -/
  old : Symbol
  /-- The name that it gets. -/
  new : Symbol
  old_mem : old ∈ formals
  new_notMem : new ∉ (lambdaForm formals body).symbols
  old_form? : Form.ofSymbol? old = none
  new_form? : Form.ofSymbol? new = none

namespace Renaming

variable (R : Renaming)

/-- The name that stands for a name in the renamed form. -/
def rename (y : Symbol) : Symbol := if y = R.old then R.new else y

/-- The form. -/
abbrev form : Value := lambdaForm R.formals R.body

/-- The form with the new name. -/
abbrev renamed : Value := R.form.mapSymbols R.rename

/-- An expression in which the form stands somewhere is rewritten there. -/
inductive Rewrites : Value → Value → Prop
  | here : Rewrites R.form R.renamed
  | item (h : Rewrites e e') :
    Rewrites (.list (before ++ e :: after)) (.list (before ++ e' :: after))

/-- Values are the same but for the new name: they are the same, or lambdas in the same
frame, of which one holds the form in its body, or was made in a call of it. -/
inductive Alike : Value → Value → Prop
  | same : Alike v v
  | around {formals : List Symbol} {body body' : Value} (h : R.Rewrites body body') :
    Alike (.lambda formals body f) (.lambda formals body' f)
  | inside {formals : List Symbol} {body : Value} (hformals : R.new ∉ formals)
    (hbody : R.new ∉ body.symbols) :
    Alike (.lambda formals body f) (.lambda (formals.map R.rename) (body.mapSymbols R.rename) f)

/-- Outcomes are: values are, or errors are of one class. -/
inductive AlikeOutcomes : Except Error Value → Except Error Value → Prop
  | ok (h : R.Alike v w) : AlikeOutcomes (.ok v) (.ok w)
  | error (h : err.kind = err'.kind) : AlikeOutcomes (.error err) (.error err')

/-- Stores are: they have the same frames in the same places, and each binds the same names
to values that are, or, if it has a number from `n` on, their replacements. -/
structure AlikeStores (n : Nat) (s t : Store) : Prop where
  next : s.next = t.next
  outer? : ∀ f, s.outer? f = t.outer? f
  get? : ∀ f, (∀ y, Option.Rel R.Alike ((s.bindings f).get? y) ((t.bindings f).get? y)) ∨
    n ≤ f ∧ ∀ y, y ≠ R.new →
      Option.Rel R.Alike ((s.bindings f).get? y) ((t.bindings f).get? (R.rename y))

/-! ### Names -/

variable {R} {n : Nat} {y y' : Symbol}

theorem new_notMem_formals : R.new ∉ R.formals :=
  fun h => R.new_notMem (mem_symbols_lambdaForm.2 (.inr (.inl h)))

theorem new_notMem_body : R.new ∉ R.body.symbols :=
  fun h => R.new_notMem (mem_symbols_lambdaForm.2 (.inr (.inr h)))

/-- Names other than the new one have different replacements. -/
theorem rename_inj (hy : y ≠ R.new) (hy' : y' ≠ R.new) : R.rename y = R.rename y' ↔ y = y' := by
  unfold rename
  split <;> split <;> simp_all [eq_comm]

/-- Keywords stand for themselves, and nothing else does for them. -/
theorem ofSymbol?_rename (y : Symbol) : Form.ofSymbol? (R.rename y) = Form.ofSymbol? y := by
  unfold rename
  split
  · rename_i h
    rw [h, R.old_form?, R.new_form?]
  · rfl

theorem rename_keyword (which : Form) : R.rename which.keyword = which.keyword :=
  (Form.keyword_of_ofSymbol? ((ofSymbol?_rename _).trans (Form.ofSymbol?_keyword which))).symm

theorem renamed_eq : R.renamed =
    lambdaForm (R.formals.map R.rename) (R.body.mapSymbols R.rename) :=
  mapSymbols_lambdaForm (rename_keyword _)

/-! ### Code -/

/-- Where a frame is: inside of calls of the form, or outside. -/
inductive Side where
  | outside
  | inside

/-- The names that go together. -/
inductive Names (R : Renaming) : Side → Symbol → Symbol → Prop
  | outside {y : Symbol} : Names R .outside y y
  | inside {y : Symbol} (h : y ≠ R.new) : Names R .inside y (R.rename y)

/-- The expressions that go together: outside, one without host functions with itself, and a
tree in which the form stands with the rewritten one; inside, a tree without the new name
with its replacement. -/
inductive Code (R : Renaming) (n : Nat) : Side → Value → Value → Prop
  | same (hfree : e.HostFree) (hwithin : e.Within n) : Code R n .outside e e
  | around (htree : e.isTree = true) (h : R.Rewrites e e') : Code R n .outside e e'
  | inside (htree : e.isTree = true) (hnew : R.new ∉ e.symbols) :
    Code R n .inside e (e.mapSymbols R.rename)

variable {k : Side} {e e' : Value}

theorem Rewrites.isTree (h : R.Rewrites e e') (he : e.isTree = true) : e'.isTree = true := by
  induction h with
  | here => rwa [isTree_mapSymbols]
  | item _ ih =>
    have hitems := areTrees_iff.1 he
    refine areTrees_iff.2 fun v hv => ?_
    rcases List.mem_append.1 hv with hv | hv
    · exact hitems v (List.mem_append_left _ hv)
    · rcases List.mem_cons.1 hv with rfl | hv
      · exact ih (hitems _ (by simp))
      · exact hitems v (List.mem_append_right _ (List.mem_cons_of_mem _ hv))

namespace Code

/-- A tree goes with itself outside. -/
theorem of_isTree (h : e.isTree = true) : Code R n .outside e e :=
  .same (hostFree_of_isTree h) (within_of_isTree h)

theorem isWritable_eq (h : Code R n k e e') : e.isWritable = e'.isWritable := by
  cases h with
  | same => rfl
  | around htree h => rw [isWritable_of_isTree htree, isWritable_of_isTree (h.isTree htree)]
  | inside htree =>
    rw [isWritable_of_isTree htree,
      isWritable_of_isTree ((isTree_mapSymbols e).trans htree)]

theorem symbol (h : Code R n k (.symbol y) e') : ∃ y', e' = .symbol y' ∧ Names R k y y' := by
  cases h with
  | same => exact ⟨y, rfl, .outside⟩
  | around _ h => cases h
  | inside _ hnew => exact ⟨_, rfl, .inside fun h => hnew (by simp [symbols, h])⟩

theorem keyword {which : Form} (h : Code R n k (.symbol which.keyword) e') :
    e' = .symbol which.keyword := by
  obtain ⟨y', rfl, hy⟩ := h.symbol
  cases hy with
  | outside => rfl
  | inside => rw [rename_keyword]

/-- What goes with something that is no symbol is none. -/
theorem symbol?_eq_none (h : Code R n k e e') (he : e.symbol? = none) : e'.symbol? = none := by
  cases h with
  | same => exact he
  | around _ h => cases h <;> rfl
  | inside => rw [symbol?_mapSymbols, he]; rfl

theorem form?_eq_none (h : Code R n k e e') (he : e.form? = none) : e'.form? = none := by
  cases hy : e.symbol? with
  | none => rw [form?, h.symbol?_eq_none hy]; rfl
  | some y =>
    obtain rfl := symbol?_eq_some_iff.1 hy
    obtain ⟨y', rfl, hy⟩ := h.symbol
    cases hy with
    | outside => exact he
    | inside => exact (ofSymbol?_rename y).trans he

/-- What goes with something that is no list is none. -/
theorem ne_list (h : Code R n k e e') (he : ∀ items, e ≠ .list items) :
    ∀ items, e' ≠ .list items := by
  cases h with
  | same => exact he
  | around _ h => cases h <;> exact absurd rfl (he _)
  | inside =>
    rintro items heq
    cases e <;> first | exact he _ rfl | cases heq

/-- A list goes with one whose items go with its own, or it is the form itself. -/
theorem list {items : List Value} (h : Code R n k (.list items) e') :
    (∃ items', e' = .list items' ∧ List.Forall₂ (Code R n k) items items') ∨
      k = .outside ∧ R.form.isTree = true ∧ .list items = R.form ∧ e' = R.renamed := by
  have hsame : ∀ {es : List Value}, (∀ e ∈ es, Code R n .outside e e) →
      List.Forall₂ (Code R n .outside) es es := List.forall₂_same.2
  cases h with
  | same hfree hwithin =>
    exact .inl ⟨items, rfl, hsame fun e he =>
      .same (areHostFree_iff.1 hfree e he) (within_list.1 hwithin e he)⟩
  | inside htree hnew =>
    refine .inl ⟨_, rfl, ?_⟩
    rw [mapRow_eq_map, List.forall₂_map_right_iff]
    exact List.forall₂_same.2 fun e he => .inside (areTrees_iff.1 htree e he)
      fun h => hnew (mem_rowSymbols.2 ⟨e, he, h⟩)
  | around htree h =>
    have hitems := areTrees_iff.1 htree
    cases h with
    | here => exact .inr ⟨rfl, htree, rfl, rfl⟩
    | @item e e' before after h =>
      refine .inl ⟨_, rfl, List.rel_append (hsame fun v hv => ?_)
        (.cons (.around (hitems e (by simp)) h) (hsame fun v hv => ?_))⟩
      · exact of_isTree (hitems v (List.mem_append_left _ hv))
      · exact of_isTree (hitems v (List.mem_append_right _ (List.mem_cons_of_mem _ hv)))

/-- Below another keyword than `lambda` the items of a form go together. -/
theorem parts {which : Form} {parts : List Value} (hwhich : which ≠ .abstraction)
    (h : Code R n k (.list (.symbol which.keyword :: parts)) e') :
    ∃ parts', e' = .list (.symbol which.keyword :: parts') ∧
      List.Forall₂ (Code R n k) parts parts' := by
  rcases h.list with ⟨_, rfl, hitems⟩ | ⟨-, -, hform, -⟩
  · obtain ⟨head, parts', hhead, hparts, rfl⟩ := List.forall₂_cons_left_iff.1 hitems
    obtain rfl := hhead.keyword
    exact ⟨parts', rfl, hparts⟩
  · -- the form is headed by the keyword `lambda`
    cases which <;> simp_all [lambdaForm, Form.keyword]

/-- Rows whose items go together are rows of symbols whose names do, or what is no symbol
comes first in one place. -/
theorem symbols_or_not {items items' : List Value} (h : List.Forall₂ (Code R n k) items items') :
    (∃ formals formals' : List Symbol, items = formals.map .symbol ∧
      items' = formals'.map .symbol ∧ List.Forall₂ (Names R k) formals formals') ∨
      ∃ (formals formals' : List Symbol) (p p' : Value) (rest rest' : List Value),
        items = formals.map .symbol ++ p :: rest ∧ items' = formals'.map .symbol ++ p' :: rest' ∧
          p.symbol? = none ∧ Code R n k p p' := by
  induction h with
  | nil => exact .inl ⟨[], [], rfl, rfl, .nil⟩
  | @cons v v' items items' hv _ ih =>
    cases hy : v.symbol? with
    | none => exact .inr ⟨[], [], v, v', items, items', rfl, rfl, hy, hv⟩
    | some y =>
      obtain rfl := symbol?_eq_some_iff.1 hy
      obtain ⟨y', rfl, hy⟩ := hv.symbol
      rcases ih with ⟨formals, formals', rfl, rfl, h⟩ |
          ⟨formals, formals', p, p', rest, rest', rfl, rfl, hp, h⟩
      · exact .inl ⟨y :: formals, y' :: formals', rfl, rfl, .cons hy h⟩
      · exact .inr ⟨y :: formals, y' :: formals', p, p', rest, rest', rfl, rfl, hp, h⟩

end Code

/-! ### The simulation -/

/-- The runs of an expression and of the rewritten one, from stores with `n` frames. -/
def simulation (R : Renaming) (n : Nat) : Simulation Side where
  names := Names R
  code := Code R n
  errors err err' := err.kind = err'.kind
  ground := .outside
  base := n
  left := n
  right := n

variable {made : List Side}

/-- Rows of parameters that go together are parameter lists whose names do, or are refused
with errors of one class. -/
theorem Code.parameters {params params' : Value} (h : Code R n k params params') :
    (∃ formals formals' : List Symbol, params = .list (formals.map .symbol) ∧
      params' = .list (formals'.map .symbol) ∧ List.Forall₂ (Names R k) formals formals') ∨
      ∃ err err', Evaluate.parameters params = .error err ∧
        Evaluate.parameters params' = .error err' ∧ err.kind = err'.kind := by
  by_cases hlist : ∃ items, params = .list items
  · obtain ⟨items, rfl⟩ := hlist
    rcases h.list with ⟨items', rfl, hitems⟩ | ⟨-, -, hform, rfl⟩
    · rcases Code.symbols_or_not hitems with ⟨formals, formals', rfl, rfl, hformals⟩ |
          ⟨formals, formals', p, p', rest, rest', rfl, rfl, hp, hpp'⟩
      · exact .inl ⟨formals, formals', rfl, rfl, hformals⟩
      · exact .inr ⟨_, _, Evaluate.parameters_append formals hp rest,
          Evaluate.parameters_append formals' (hpp'.symbol?_eq_none hp) rest',
          Error.kind_congr rfl rfl rfl hpp'.isWritable_eq⟩
    · have hwritable : ∀ formals : List Symbol,
          (Value.list (formals.map .symbol)).isWritable = true :=
        fun formals => isWritable_of_isTree (areTrees_iff.2 (by simp [isTree]))
      rw [hform, renamed_eq]
      exact .inr ⟨_, _, parameters_lambdaForm .., parameters_lambdaForm ..,
        Error.kind_congr rfl rfl rfl (by rw [hwritable, hwritable])⟩
  · have hne := not_exists.1 hlist
    exact .inr ⟨_, _, Evaluate.parameters_of_ne hne, Evaluate.parameters_of_ne (h.ne_list hne),
      Error.kind_congr rfl rfl rfl h.isWritable_eq⟩

/-- Lambdas made in frames of one mode go together if their parts do in that mode. -/
theorem abstracts_self {formals : List Symbol} {body body' : Value} {formals' : List Symbol}
    (hformals : List.Forall₂ (Names R k) formals formals') (hbody : Code R n k body body') :
    (R.simulation n).Abstracts k formals body formals' body' :=
  ⟨k, fun _ _ hy => .inl hy, hformals, hbody⟩

/-- The form and the renamed one make lambdas that go together. -/
theorem abstracts_form (h : R.form.isTree = true) :
    (R.simulation n).Abstracts .outside R.formals R.body (R.formals.map R.rename)
      (R.body.mapSymbols R.rename) := by
  have hbody : R.body.isTree = true := areTrees_iff.1 h _ (by simp)
  refine ⟨.inside, fun y y' hy => ?_, ?_, .inside hbody new_notMem_body⟩
  · cases hy
    by_cases hold : y = R.old
    · exact .inr (hold ▸ R.old_mem)
    · have hself : R.rename y = y := if_neg hold
      rw [hself]
      exact .inl .outside
  · rw [List.forall₂_map_right_iff]
    exact List.forall₂_same.2 fun y hy => .inside fun h => new_notMem_formals (h ▸ hy)

/-- A value without host functions goes with itself. -/
theorem values_self {v : Value} (hfree : v.HostFree) (hwithin : v.Within n) :
    (R.simulation n).Values made v v := by
  refine .self (k := .outside) (by rintro _ rfl; cases hfree) ?_
  rintro formals body f rfl
  obtain ⟨hf, hbody⟩ := within_lambda.1 hwithin
  exact ⟨.inl ⟨rfl, rfl, hf⟩,
    abstracts_self (List.forall₂_same.2 fun _ _ => .outside) (.same hfree hbody)⟩

/-- Parts that go together one by one do so as the parts of a definition. -/
theorem definitionParts {parts parts' : List Value}
    (hparts : List.Forall₂ (Code R n k) parts parts') :
    (R.simulation n).DefinitionParts k parts parts' := by
  by_cases hl : parts.length = 2
  · obtain ⟨target, e, rfl⟩ := List.length_eq_two.1 hl
    obtain ⟨target', e', rfl⟩ := List.length_eq_two.1 (hparts.length_eq ▸ hl)
    obtain ⟨htarget, he, -⟩ : Code R n k target target' ∧ Code R n k e e' ∧ True := by
      simpa using hparts
    cases hy : target.symbol? with
    | none =>
      exact .refused hy (htarget.symbol?_eq_none hy)
        (Error.kind_congr rfl rfl rfl htarget.isWritable_eq)
    | some y =>
      obtain rfl := symbol?_eq_some_iff.1 hy
      obtain ⟨y', rfl, hy⟩ := htarget.symbol
      exact .target hy he
  · exact .count hl (hparts.length_eq ▸ hl)

/-- Parts that go together one by one do so as the parts of a lambda form. -/
theorem abstractionParts {parts parts' : List Value}
    (hparts : List.Forall₂ (Code R n k) parts parts') :
    (R.simulation n).AbstractionParts k parts parts' := by
  by_cases hl : parts.length = 2
  · obtain ⟨params, body, rfl⟩ := List.length_eq_two.1 hl
    obtain ⟨params', body', rfl⟩ := List.length_eq_two.1 (hparts.length_eq ▸ hl)
    obtain ⟨hparams, hbody, -⟩ : Code R n k params params' ∧ Code R n k body body' ∧ True := by
      simpa using hparts
    rcases hparams.parameters with ⟨formals, formals', rfl, rfl, hformals⟩ |
        ⟨err, err', herr, herr', hkind⟩
    · exact .lambda (abstracts_self hformals hbody)
    · exact .refused herr herr' hkind
  · exact .count hl (hparts.length_eq ▸ hl)

/-- **Renaming a parameter is lawful.** -/
theorem lawful (R : Renaming) (n : Nat) : (R.simulation n).Lawful where
  base_le_left := Nat.le_refl n
  base_le_right := Nat.le_refl n
  unique hy hw := by
    cases hy with
    | outside => cases hw; rfl
    | inside hy =>
      cases hw with
      | inside hw => exact (rename_inj hy hw).symm
  refl _ := rfl
  unbound _ := rfl
  argumentCount _ hbody := Error.kind_congr rfl rfl rfl hbody.isWritable_eq
  writable h := h.isWritable_eq
  symbol h := h.symbol
  constant {k e e'} h hconst made := by
    cases h with
    | same hfree hwithin => exact values_self hfree hwithin
    | around _ h => cases h <;> cases hconst
    | inside htree =>
      cases e with
      | number => exact .inert rfl
      | symbol | list => cases hconst
      | _ => cases htree
  hostList h := by
    cases h with
    | same hfree hwithin => exact ⟨_, rfl, .same hfree hwithin⟩
    | around htree => cases htree
    | inside htree => cases htree
  empty h := by
    rcases h.list with ⟨_, rfl, hitems⟩ | ⟨-, -, hform, -⟩
    · cases hitems
      rfl
    · cases hform
  sequence h := h.parts (by decide)
  conditional h := h.parts (by decide)
  definition h := by
    obtain ⟨parts', rfl, hparts⟩ := h.parts (by decide)
    exact ⟨parts', rfl, definitionParts hparts⟩
  abstraction h := by
    rcases h.list with ⟨_, rfl, hitems⟩ | ⟨rfl, htree, hform, rfl⟩
    · obtain ⟨head, parts', hhead, hparts, rfl⟩ := List.forall₂_cons_left_iff.1 hitems
      obtain rfl := hhead.keyword
      exact ⟨parts', rfl, abstractionParts hparts⟩
    · obtain ⟨-, rfl⟩ := List.cons.inj (Value.list.inj hform)
      exact ⟨_, renamed_eq, .lambda (abstracts_form htree)⟩
  combination {k head es e'} hhead h := by
    rcases h.list with ⟨_, rfl, hitems⟩ | ⟨-, -, hform, -⟩
    · obtain ⟨head', es', hfn, hes, rfl⟩ := List.forall₂_cons_left_iff.1 hitems
      exact ⟨head', es', rfl, hfn.form?_eq_none hhead, hfn, hes⟩
    · -- the form is no combination
      obtain ⟨rfl, -⟩ := List.cons.inj (Value.list.inj hform)
      rw [form?_keyword] at hhead
      cases hhead

/-! ### What goes together is the same but for the new name -/

theorem forall₂_names_outside {formals formals' : List Symbol}
    (h : List.Forall₂ (Names R .outside) formals formals') : formals = formals' := by
  induction h with
  | nil => rfl
  | cons hy _ ih => cases hy; rw [ih]

theorem forall₂_names_inside {formals formals' : List Symbol}
    (h : List.Forall₂ (Names R .inside) formals formals') :
    R.new ∉ formals ∧ formals' = formals.map R.rename := by
  induction h with
  | nil => exact ⟨List.not_mem_nil, rfl⟩
  | cons hy _ ih =>
    cases hy with
    | inside hy => exact ⟨fun h => (List.mem_cons.1 h).elim (hy ·.symm) ih.1, by rw [ih.2]; rfl⟩

theorem alike_of_values {v w : Value} (h : (R.simulation n).Values made v w) : R.Alike v w := by
  cases h with
  | inert => exact .same
  | lambda hframe h =>
    obtain rfl := hframe.eq rfl
    obtain ⟨inner, -, hformals, hbody⟩ := h
    cases hbody with
    | same => obtain rfl := forall₂_names_outside hformals; exact .same
    | around _ h => obtain rfl := forall₂_names_outside hformals; exact .around h
    | inside _ hnew =>
      obtain ⟨hnew', rfl⟩ := forall₂_names_inside hformals
      exact .inside hnew' hnew

theorem alikeOutcomes_of_results {r r' : Except Error Value}
    (h : (R.simulation n).Results made ((R.simulation n).Values made) r r') :
    R.AlikeOutcomes r r' := by
  cases h with
  | ok h => exact .ok (alike_of_values h)
  | error h =>
    cases h with
    | same h => exact .error h
    | notNumber h =>
      exact .error (Error.kind_congr rfl rfl rfl (h.isWritable_eq (R.lawful n)))

theorem alikeStores_of_stores {s t : Store} (h : (R.simulation n).Stores made s t) :
    R.AlikeStores n s t := by
  have hnext : s.next = t.next := h.next_left.trans h.next_right.symm
  refine ⟨hnext, h.outer?_eq rfl rfl, fun f => ?_⟩
  rcases Nat.lt_or_ge f s.next with hf | hf
  · obtain ⟨k, hframes⟩ := Simulation.exists_frames (S := R.simulation n) rfl rfl
      (h.next_left ▸ hf)
    have hentries := h.entries hframes
    cases k with
    | outside => exact .inl fun y => (hentries y y .outside).imp fun _ _ => alike_of_values
    | inside =>
      refine .inr ⟨?_, fun y hy => (hentries y _ (.inside hy)).imp fun _ _ => alike_of_values⟩
      rcases hframes with ⟨⟨⟩, -⟩ | ⟨i, -, rfl, -⟩
      exact Nat.le_add_right n i
  · rw [Store.bindings_of_le hf, Store.bindings_of_le (hnext ▸ hf)]
    exact .inl fun _ => .none

/-- Evaluations of which one is nested too deeply both are. -/
theorem AlikeOutcomes.tooDeep_iff {r r' : Except Error Value} (h : R.AlikeOutcomes r r') :
    r = .error .tooDeep ↔ r' = .error .tooDeep := by
  cases h with
  | ok => simp
  | error h => simp [← Error.kind_eq_depth_iff, h]

/-- A store goes with itself. -/
theorem stores_self {s : Store} (hs : s.Grounded) (hfree : s.All HostFree) :
    (R.simulation s.next).Stores [] s s := by
  refine .start rfl rfl hs.outer_lt hs.outer_lt (fun f _ => ?_) fun _ _ => rfl
  rintro y _ ⟨⟩
  cases hget : (s.bindings f).get? y with
  | none => exact .none
  | some v => exact .some (values_self (hfree f y v hget) (hs.within f y v hget))

end Renaming

/-- **Parameter names do not matter.**  Let a lambda form stand somewhere in a tree, and
let a parameter of it be replaced by a name that does not occur in the form, wherever in the
form it occurs.  However deep the evaluation of the tree may go, that of the rewritten one is
too deep if and only if this one is; both have the same outcome but for the new name, an
error of the same class if there is one, and leave the same frames, of which those that were
there before bind the same names to values that are the same but for the new name. -/
theorem evaluate_renaming (R : Renaming) {host : Host} {m : Machine} {e e' : Value}
    {f : FrameId} (hs : m.store.Grounded) (hfree : m.store.All HostFree) (he : e.isTree = true)
    (h : R.Rewrites e e') (hf : f < m.store.next) (depth : Nat) :
    let p := Eval.outcome (evaluate host depth e f) m
    let q := Eval.outcome (evaluate host depth e' f) m
    (p.1 = .error .tooDeep ↔ q.1 = .error .tooDeep) ∧ R.AlikeOutcomes p.1 q.1 ∧
      R.AlikeStores m.store.next p.2.store q.2.store := by
  intro p q
  obtain ⟨made, -, hresults, hmachines⟩ := (R.lawful m.store.next).evaluate depth
    (Simulation.frames_nil.2 ⟨rfl, rfl, hf⟩) (.around he h) m m
    ⟨Renaming.stores_self hs hfree, rfl⟩
  have houtcomes := Renaming.alikeOutcomes_of_results hresults
  exact ⟨houtcomes.tooDeep_iff, houtcomes, Renaming.alikeStores_of_stores hmachines.stores⟩

/-- `((lambda (x) (begin (define x (+ x x)) (lambda (y) x))) z)` with `z` for `x` in the form:
the name is that of the argument, but the frame of the call binds it anew. -/
theorem evaluate_renaming_call :
    let body : Value := .list [.symbol ⟨"begin"⟩,
      .list [.symbol ⟨"define"⟩, .symbol ⟨"x"⟩,
        .list [.symbol ⟨"+"⟩, .symbol ⟨"x"⟩, .symbol ⟨"x"⟩]],
      .list [.symbol ⟨"lambda"⟩, .list [.symbol ⟨"y"⟩], .symbol ⟨"x"⟩]]
    let R : Renaming :=
      ⟨[⟨"x"⟩], body, ⟨"x"⟩, ⟨"z"⟩, by decide, by decide, by decide, by decide⟩
    let e : Value := .list [R.form, .symbol ⟨"z"⟩]
    let e' : Value := .list [R.renamed, .symbol ⟨"z"⟩]
    let m : Machine := ⟨Store.empty.push ⟨Bindings.empty.insertAll
      ([⟨"+"⟩, ⟨"z"⟩].zip [.operator (.arithmetic .add), .int 5]), none⟩, .off, #[]⟩
    (Eval.outcome (evaluate Host.standard 5 e 0) m).1 = .ok (.lambda [⟨"y"⟩] (.symbol ⟨"x"⟩) 1) ∧
      (Eval.outcome (evaluate Host.standard 5 e' 0) m).1 = .ok (.lambda [⟨"y"⟩] (.symbol ⟨"z"⟩) 1) ∧
      R.AlikeStores 1 (Eval.outcome (evaluate Host.standard 5 e 0) m).2.store
        (Eval.outcome (evaluate Host.standard 5 e' 0) m).2.store := by
  intro body R e e' m
  have hargs : ∀ v ∈ [operator (.arithmetic .add), int 5],
      v.HostFree ∧ v.Within Store.empty.next :=
    List.forall_mem_cons.2 ⟨⟨rfl, within_of_closures_eq_nil rfl⟩,
      List.forall_mem_singleton.2 ⟨rfl, within_of_closures_eq_nil rfl⟩⟩
  have hframe : Store.Write Store.empty m.store :=
    .frame (by rintro _ ⟨⟩) fun v hv => (hargs v hv).2
  have hempty : Store.empty.All HostFree := fun _ _ _ h => nomatch h
  have hfree : m.store.All HostFree := hempty.push (fun v hv => (hargs v hv).1) none
  have hrewrites : R.Rewrites (.list ([] ++ [R.form, .symbol ⟨"z"⟩]))
    (.list ([] ++ [R.renamed, .symbol ⟨"z"⟩])) := .item .here
  obtain ⟨-, -, hstores⟩ := evaluate_renaming R
    (hframe.grounded Store.grounded_empty) hfree rfl hrewrites (f := 0) (by decide) 5
  exact ⟨rfl, rfl, hstores⟩

end Lisplet
