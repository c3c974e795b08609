/-
# Trees that are written and read back

Legible trees are made of lists, of numbers that are not nans, and of symbols that
could be read: words that are no number literals.  The sources of such trees,
spaces between them, are always read as a row of as many trees (`readAll_source`),
since the tokens of a source are those of its parts (`tokenize_intercalate`,
`tokenize_parentheses`) and every atom is one word.  What is read equals what was
written just if every number in it is a finite double; and if all its numbers are
doubles, finite or not, it is written the same again.

Whole numbers are taken to be written whatever their size.
-/

import Lisplet.Proofs.Grammar
import Lisplet.Proofs.Numbers

namespace Lisplet

open Reader

namespace Value

/-- A tree whose source can be read. -/
inductive Legible : Value → Prop where
  /-- Numbers that are not nans. -/
  | number : n ≠ .float .nan → Legible (.number n)
  /-- Symbols whose names are words and no number literals. -/
  | symbol : IsWord x.name.toList → Literal.read? x.name.toList = none → Legible (.symbol x)
  /-- Lists of such trees. -/
  | list : (∀ v ∈ items, Legible v) → Legible (.list items)

mutual

/-- The numbers in a tree, from left to right. -/
def numbers : Value → List Number
  | .number n => [n]
  | .list items => rowNumbers items
  | _ => []

/-- The numbers in a row of trees. -/
def rowNumbers : List Value → List Number
  | [] => []
  | v :: rest => numbers v ++ rowNumbers rest

end

/-- The numbers in a row of trees are those in its trees. -/
theorem forall_mem_rowNumbers {P : Number → Prop} {vs : List Value} :
    (∀ n ∈ rowNumbers vs, P n) ↔ ∀ v ∈ vs, ∀ n ∈ v.numbers, P n := by
  induction vs with
  | nil => simp [rowNumbers]
  | cons v vs ih => rw [rowNumbers, List.forall_mem_append, ih, List.forall_mem_cons]

end Value

/-- What is read from the source of a tree. -/
structure ReadsBack (v u : Value) : Prop where
  /-- The source is that of one expression. -/
  reads : Reads (tokenize v.source) u
  /-- Reading back keeps the tree just if it keeps every number. -/
  equal_iff : u.equal v = true ↔ ∀ n ∈ v.numbers, n.IsDouble
  /-- A tree of doubles is written the same again. -/
  source_eq : (∀ n ∈ v.numbers, ∃ x, n = .float x) → u.source = v.source

/-- What is read from the sources of a row of trees. -/
structure ReadsBackAll (vs us : List Value) : Prop where
  /-- The sources are those of a row of expressions. -/
  reads : ReadsAll (tokenize (String.intercalate " " (vs.map Value.source))) us
  /-- There are as many. -/
  length_eq : us.length = vs.length
  /-- Reading back keeps the trees just if it keeps every number. -/
  equal_iff : Value.equalAll us vs = true ↔ ∀ n ∈ Value.rowNumbers vs, n.IsDouble
  /-- Trees of doubles are written the same again. -/
  source_eq : (∀ n ∈ Value.rowNumbers vs, ∃ x, n = .float x) →
    us.map Value.source = vs.map Value.source

theorem ReadsBack.number {n : Number} (hn : n ≠ .float .nan) :
    ReadsBack (.number n) (atom n.source) where
  reads := by
    have hword := isWord_source n
    obtain ⟨ho, hc⟩ := ne_parenthesis_of_isWord hword
    have htokens : tokenize (Value.source (.number n)) = [n.source] := tokenize_word hword
    rw [htokens]
    exact .atom ho hc
  equal_iff := by
    rw [equal_atom_source_iff hn, Value.numbers, List.forall_mem_singleton]
  source_eq hfloat := by
    obtain ⟨x, rfl⟩ := hfloat n (List.mem_singleton_self n)
    exact source_atom_source fun hx => hn (congrArg Number.float hx)

theorem ReadsBack.symbol {x : Symbol} (hword : IsWord x.name.toList)
    (hread : Literal.read? x.name.toList = none) : ReadsBack (.symbol x) (.symbol x) where
  reads := by
    obtain ⟨ho, hc⟩ := ne_parenthesis_of_isWord hword
    have htokens : tokenize (Value.source (.symbol x)) = [x.name] := tokenize_word hword
    have hatom : atom x.name = .symbol x := by rw [atom, hread]
    rw [htokens, ← hatom]
    exact .atom ho hc
  equal_iff := by simp [Value.equal, Value.numbers]
  source_eq _ := rfl

theorem ReadsBackAll.nil : ReadsBackAll [] [] where
  reads := .nil
  length_eq := rfl
  equal_iff := by simp [Value.equalAll, Value.rowNumbers]
  source_eq _ := rfl

theorem ReadsBackAll.cons {v u : Value} {vs us : List Value} (h : ReadsBack v u)
    (hs : ReadsBackAll vs us) : ReadsBackAll (v :: vs) (u :: us) where
  reads := by
    have hreads := hs.reads
    rw [tokenize_intercalate] at hreads ⊢
    exact .cons h.reads hreads
  length_eq := congrArg (· + 1) hs.length_eq
  equal_iff := by
    rw [Value.equalAll, Bool.and_eq_true, h.equal_iff, hs.equal_iff, Value.rowNumbers,
      List.forall_mem_append]
  source_eq hfloat := by
    rw [Value.rowNumbers, List.forall_mem_append] at hfloat
    rw [List.map_cons, List.map_cons, h.source_eq hfloat.1, hs.source_eq hfloat.2]

theorem source_list (items : List Value) : Value.source (.list items) =
    "(" ++ String.intercalate " " (items.map Value.source) ++ ")" := by
  rw [Value.source, Value.render, Value.renderAll_eq_map]
  rfl

theorem ReadsBackAll.list {vs us : List Value} (h : ReadsBackAll vs us) :
    ReadsBack (.list vs) (.list us) where
  reads := by
    rw [source_list, tokenize_parentheses]
    exact .list h.reads
  equal_iff := by
    rw [Value.equal, Value.numbers]
    exact h.equal_iff
  source_eq hfloat := by
    rw [source_list, source_list, h.source_eq hfloat]

/-- Trees that read back one by one read back in a row. -/
theorem exists_readsBackAll {vs : List Value} (h : ∀ v ∈ vs, ∃ u, ReadsBack v u) :
    ∃ us, ReadsBackAll vs us := by
  induction vs with
  | nil => exact ⟨[], .nil⟩
  | cons v vs ih =>
    obtain ⟨⟨u, hu⟩, hvs⟩ := List.forall_mem_cons.1 h
    obtain ⟨us, hus⟩ := ih hvs
    exact ⟨u :: us, .cons hu hus⟩

/-- Every legible tree reads back. -/
theorem Value.Legible.exists_readsBack {v : Value} (h : v.Legible) : ∃ u, ReadsBack v u := by
  induction h with
  | number hn => exact ⟨_, .number hn⟩
  | symbol hword hread => exact ⟨_, .symbol hword hread⟩
  | list _ ih =>
    obtain ⟨us, hus⟩ := exists_readsBackAll ih
    exact ⟨.list us, hus.list⟩

/-- **Printing and reading are inverse on legible trees, up to rounding.**  The sources of
legible trees are read as as many trees.  These equal the trees that were written just
if every number in them is a finite double, and are written the same again if every
number is a double. -/
theorem readAll_source {vs : List Value} (h : ∀ v ∈ vs, v.Legible) :
    ∃ us, (readAll (tokenize (String.intercalate " " (vs.map Value.source)))).1 = .ok us ∧
      us.length = vs.length ∧
      (Value.equalAll us vs = true ↔ ∀ v ∈ vs, ∀ n ∈ v.numbers, n.IsDouble) ∧
      ((∀ v ∈ vs, ∀ n ∈ v.numbers, ∃ x, n = .float x) →
        us.map Value.source = vs.map Value.source) := by
  obtain ⟨us, hus⟩ := exists_readsBackAll fun v hv => (h v hv).exists_readsBack
  refine ⟨us, by rw [hus.reads.readAll], hus.length_eq, ?_, fun hfloat => ?_⟩
  · exact hus.equal_iff.trans Value.forall_mem_rowNumbers
  · exact hus.source_eq (Value.forall_mem_rowNumbers.2 hfloat)

/-- `(x 0) 9007199254740993`, the zero being the negative one: two trees are read, and
they differ from these, since 2⁵³ + 1 is not a double. -/
theorem readAll_source_inexact :
    let vs : List Value := [.list [.symbol ⟨"x"⟩, .float (.zero true)], .int 9007199254740993]
    ∃ us, (readAll (tokenize (String.intercalate " " (vs.map Value.source)))).1 = .ok us ∧
      us.length = 2 ∧ Value.equalAll us vs = false := by
  intro vs
  have hlegible : ∀ v ∈ vs, v.Legible := by
    refine List.forall_mem_cons.2 ⟨.list ?_, List.forall_mem_singleton.2 (.number nofun)⟩
    exact List.forall_mem_cons.2
      ⟨.symbol (by decide) rfl, List.forall_mem_singleton.2 (.number nofun)⟩
  obtain ⟨us, hread, hlength, hequal, -⟩ := readAll_source hlegible
  refine ⟨us, hread, hlength, Bool.eq_false_iff.2 fun h => ?_⟩
  have hdouble : Number.IsDouble (.int 9007199254740993) :=
    hequal.1 h (.int 9007199254740993) (by simp [vs]) _ (List.mem_singleton_self _)
  exact absurd ((Number.isDouble_int_iff _).1 hdouble) (by decide +kernel)

end Lisplet
