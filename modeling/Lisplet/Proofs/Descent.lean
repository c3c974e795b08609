/-
# Recursive descent

An expression can be read by descent: a token is taken, and if it opens a list, items
are read, by the same rule, until a closing parenthesis is next, which is taken too
(`Cursor.Descends`, `Cursor.DescendsItems`).  Repeating this until no token is left
reads all expressions (`Cursor.DescendsAll`).  A derivation of these relations is a run
that ends, with all its steps, whether it ends in a value or in an error.

The reader has no recursion of that kind, it makes one pass over the tokens and keeps
the open lists.  The pass and the descent come to the same, on all tokens and from every
position: each run ends where the pass ends (`Cursor.Descends.readExprIn`), and there is
a run from every position, since a run that reads an item has taken a token
(`Cursor.exists_descends`, `Cursor.exists_descendsAll`).  `Cursor.descends_iff` sums this
up for one expression, `Cursor.DescendsAll.expressions` says where the runs over all end.
-/

import Lisplet.Proofs.Grammar

namespace Lisplet
namespace Reader

variable {tokens rest : List String}

/-! ### The pass for one expression -/

/-- Goes on in the open lists with what an expression inside of them came to. -/
def resume : List (List Value) → Except Error Value → List String →
    Except Error Value × List String
  | _, .error err, rest => (.error err, rest)
  | [], .ok tree, rest => (.ok tree, rest)
  | items :: lists, .ok tree, rest => readExprIn ((tree :: items) :: lists) rest

@[simp] theorem resume_nil (outcome : Except Error Value) (rest : List String) :
    resume [] outcome rest = (outcome, rest) := by
  cases outcome <;> rfl

@[simp] theorem resume_error (lists : List (List Value)) (err : Error) (rest : List String) :
    resume lists (.error err) rest = (.error err, rest) := by
  cases lists <;> rfl

theorem resume_cons_ok (items : List Value) (lists : List (List Value)) (tree : Value)
    (rest : List String) :
    resume (items :: lists) (.ok tree) rest = readExprIn ((tree :: items) :: lists) rest := rfl

theorem readExprIn_nil (lists : List (List Value)) :
    readExprIn lists [] = (.error .unexpectedEnd, []) := by
  rw [readExprIn]

theorem readExprIn_opening (lists : List (List Value)) (tokens : List String) :
    readExprIn lists (opening :: tokens) = readExprIn ([] :: lists) tokens := by
  rcases lists with _ | ⟨items, _ | ⟨outer, lists⟩⟩ <;> rw [readExprIn, if_pos rfl]

theorem readExprIn_closing_nil (tokens : List String) :
    readExprIn [] (closing :: tokens) = (.error .unexpectedClose, tokens) := by
  rw [readExprIn, if_neg opening_ne_closing.symm, if_pos rfl]

theorem readExprIn_closing (items : List Value) (lists : List (List Value))
    (tokens : List String) : readExprIn (items :: lists) (closing :: tokens) =
      resume lists (.ok (.list items.reverse)) tokens := by
  cases lists <;> rw [readExprIn, if_neg opening_ne_closing.symm, if_pos rfl] <;> rfl

theorem readExprIn_atom {token : String} (ho : token ≠ opening) (hc : token ≠ closing)
    (lists : List (List Value)) (tokens : List String) :
    readExprIn lists (token :: tokens) = resume lists (.ok (atom token)) tokens := by
  rcases lists with _ | ⟨items, _ | ⟨outer, lists⟩⟩ <;>
    rw [readExprIn, if_neg ho, if_neg hc] <;> rfl

/-- The pass for all expressions makes the pass for one of them when that stands in a
list, and goes on behind it. -/
theorem readAllIn_append_singleton (items base : List Value) (lists : List (List Value))
    (tokens : List String) : readAllIn items (lists ++ [base]) tokens =
      match readExprIn (items :: lists) tokens with
      | (.ok tree, rest) => readAllIn (tree :: base) [] rest
      | (.error err, rest) => (.error err, rest) := by
  induction tokens generalizing items lists with
  | nil =>
    rw [readExprIn_nil]
    cases lists <;> rfl
  | cons token tokens ih =>
    rcases token_cases token with rfl | rfl | ⟨ho, hc⟩
    · rw [readAllIn_opening, readExprIn_opening]
      exact ih [] (items :: lists)
    · cases lists with
      | nil => rw [List.nil_append, readAllIn_closing, readExprIn_closing, resume_nil]
      | cons up lists =>
        rw [List.cons_append, readAllIn_closing, readExprIn_closing, resume_cons_ok]
        exact ih _ lists
    · rw [readAllIn_atom ho hc, readExprIn_atom ho hc, resume_cons_ok]
      exact ih _ lists

/-- The pass for all expressions is one for the first and then one for the others. -/
theorem readAllIn_of_ne_nil (hne : tokens ≠ []) (items : List Value) :
    readAllIn items [] tokens =
      match readExpr tokens with
      | (.ok tree, rest) => readAllIn (tree :: items) [] rest
      | (.error err, rest) => (.error err, rest) := by
  obtain ⟨token, tokens, rfl⟩ := List.exists_cons_of_ne_nil hne
  rw [readExpr]
  rcases token_cases token with rfl | rfl | ⟨ho, hc⟩
  · rw [readAllIn_opening, readExprIn_opening]
    exact readAllIn_append_singleton [] items [] tokens
  · rw [readAllIn_closing_nil, readExprIn_closing_nil]
  · rw [readAllIn_atom ho hc, readExprIn_atom ho hc, resume_nil]

namespace Cursor

/-! ### Cursors that move -/

/-- How many tokens are still to be taken. -/
def left (c : Cursor) : Nat := c.tokens.length - c.position

/-- The cursor moved forward over its tokens, and not beyond their end. -/
structure Passes (c c' : Cursor) : Prop where
  tokens_eq : c'.tokens = c.tokens
  le : c.position ≤ c'.position
  left_eq : c.left = c'.left + (c'.position - c.position)

theorem Passes.refl (c : Cursor) : Passes c c := ⟨rfl, Nat.le_refl _, by simp⟩

theorem Passes.trans {c c' c'' : Cursor} (h : Passes c c') (h' : Passes c' c'') :
    Passes c c'' where
  tokens_eq := h'.tokens_eq.trans h.tokens_eq
  le := h.le.trans h'.le
  left_eq := by
    have := h.le
    have := h'.le
    have := h.left_eq
    have := h'.left_eq
    omega

theorem length_remaining (c : Cursor) : c.remaining.length = c.left := List.length_drop

/-- The tokens that remain tell where a cursor is. -/
theorem Passes.leaving {c c' : Cursor} (h : Passes c c') : c.leaving c'.remaining = c' := by
  obtain ⟨tokens, position⟩ := c'
  obtain ⟨rfl, hle, hleft⟩ := h
  rw [Cursor.leaving, length_remaining, length_remaining, hleft]
  congr
  simp only at hle ⊢
  omega

/-- Taking a token that is there. -/
theorem of_advance_some {c c' : Cursor} {token : String} (h : c.advance = (some token, c')) :
    c.peek = some token ∧ c.remaining = token :: c'.remaining ∧ Passes c c' ∧
      c.position < c'.position := by
  rw [advance] at h
  split at h
  · next found hpeek =>
    obtain ⟨rfl, rfl⟩ : found = token ∧ { c with position := c.position + 1 } = c' := by
      simpa using h
    obtain ⟨hlt, htoken⟩ := List.getElem?_eq_some_iff.1 hpeek
    refine ⟨hpeek, ?_, ⟨rfl, Nat.le_succ _, ?_⟩, Nat.lt_succ_self _⟩
    · rw [remaining, List.drop_eq_getElem_cons hlt, htoken]
      rfl
    · simp only [left]
      omega
  · cases h

/-- Taking a token where none is left. -/
theorem of_advance_none {c c' : Cursor} (h : c.advance = (none, c')) :
    c.peek = none ∧ c.remaining = [] ∧ c' = c := by
  rw [advance] at h
  split at h
  · cases h
  · next hpeek =>
    refine ⟨hpeek, ?_, (Prod.mk.inj h).2.symm⟩
    exact List.drop_eq_nil_iff.2 (List.getElem?_eq_none_iff.1 hpeek)

/-! ### Descent -/

mutual

/-- A run of the descent for one expression: what it comes to, and where it ends. -/
inductive Descends : Cursor → Except Error Value → Cursor → Prop where
  /-- There is no token. -/
  | atEnd : c.advance = (none, c') → Descends c (.error .unexpectedEnd) c'
  /-- The token closes a list, but none was opened. -/
  | unopened : c.advance = (some closing, c') → Descends c (.error .unexpectedClose) c'
  /-- The token is no parenthesis. -/
  | atom : c.advance = (some token, c') → token ≠ opening → token ≠ closing →
    Descends c (.ok (atom token)) c'
  /-- The token opens a list. -/
  | list : c.advance = (some opening, c') → DescendsItems c' items c'' →
    Descends c (items.map .list) c''

/-- A run of the descent for the items of a list, up to and with the parenthesis that
closes it. -/
inductive DescendsItems : Cursor → Except Error (List Value) → Cursor → Prop where
  /-- The list is closed. -/
  | closed : c.advance = (some closing, c') → DescendsItems c (.ok []) c'
  /-- An item is read, and then the others are. -/
  | item : c.peek ≠ some closing → Descends c (.ok tree) c' →
    DescendsItems c' items c'' → DescendsItems c (items.map (tree :: ·)) c''
  /-- An item cannot be read. -/
  | failing : c.peek ≠ some closing → Descends c (.error err) c' →
    DescendsItems c (.error err) c'

end

/-- A run of the descent for all expressions: those that were read, the error that stopped
it, if there was one, and where it ended. -/
inductive DescendsAll : Cursor → List Value → Option Error → Cursor → Prop where
  /-- There is nothing left to read. -/
  | atEnd : c.atEnd = true → DescendsAll c [] none c
  /-- An expression is read, and then the others are. -/
  | cons : c.atEnd = false → Descends c (.ok tree) c' → DescendsAll c' trees stop c'' →
    DescendsAll c (tree :: trees) stop c''
  /-- An expression cannot be read. -/
  | failing : c.atEnd = false → Descends c (.error err) c' → DescendsAll c [] (some err) c'

mutual

/-- A run moves the cursor forward. -/
theorem Descends.passes : Descends c outcome c' → Passes c c'
  | .atEnd h => by
    obtain ⟨-, -, rfl⟩ := of_advance_none h
    exact .refl _
  | .unopened h | .atom h _ _ => (of_advance_some h).2.2.1
  | .list h hitems => (of_advance_some h).2.2.1.trans hitems.passes

theorem DescendsItems.passes : DescendsItems c items c' → Passes c c'
  | .closed h => (of_advance_some h).2.2.1
  | .item _ h hitems => h.passes.trans hitems.passes
  | .failing _ h => h.passes

end

/-- A run that finds a token takes it. -/
theorem Descends.lt (h : Descends c outcome c') (hpeek : c.peek ≠ none) :
    c.position < c'.position := by
  cases h with
  | atEnd h => exact absurd (of_advance_none h).1 hpeek
  | unopened h | atom h => exact (of_advance_some h).2.2.2
  | list h hitems => exact (of_advance_some h).2.2.2.trans_le hitems.passes.le

/-- A run that finds no token reads nothing. -/
theorem Descends.peek_ne_none (h : Descends c (.ok tree) c') : c.peek ≠ none := by
  have hsome : ∀ {token d}, c.advance = (some token, d) → c.peek ≠ none := by
    intro token d hadvance
    rw [(of_advance_some hadvance).1]
    exact Option.some_ne_none _
  generalize hok : (Except.ok tree : Except Error Value) = outcome at h
  cases h with
  | atEnd => cases hok
  | unopened => cases hok
  | atom hadvance => exact hsome hadvance
  | list hadvance => exact hsome hadvance

/-! ### The pass comes to the same -/

mutual

/-- The pass goes on where a run ends, with what the run came to. -/
theorem Descends.readExprIn : Descends c outcome c' → ∀ lists,
    (lists = [] ∨ c.peek ≠ some closing) →
      Reader.readExprIn lists c.remaining = resume lists outcome c'.remaining
  | .atEnd h, lists, _ => by
    obtain ⟨-, hrest, rfl⟩ := of_advance_none h
    rw [hrest, readExprIn_nil, resume_error]
  | .unopened h, lists, hlists => by
    obtain ⟨hpeek, hrest, -⟩ := of_advance_some h
    obtain rfl := hlists.resolve_right fun hne => hne hpeek
    rw [hrest, readExprIn_closing_nil, resume_nil]
  | .atom h ho hc, lists, _ => by
    rw [(of_advance_some h).2.1, readExprIn_atom ho hc]
  | .list h hitems, lists, _ => by
    rw [(of_advance_some h).2.1, readExprIn_opening, hitems.readExprIn [] lists]
    simp [Except.map]

/-- Inside of a list, the pass goes on behind the list. -/
theorem DescendsItems.readExprIn : DescendsItems c items c' → ∀ before lists,
    Reader.readExprIn (before :: lists) c.remaining =
      resume lists (items.map fun trees => .list (before.reverse ++ trees)) c'.remaining
  | .closed h, before, lists => by
    rw [(of_advance_some h).2.1, readExprIn_closing]
    simp [Except.map]
  | @DescendsItems.item _ tree _ items _ hpeek h hitems, before, lists => by
    rw [h.readExprIn (before :: lists) (.inr hpeek), resume_cons_ok,
      hitems.readExprIn (tree :: before) lists]
    cases items <;> simp [Except.map]
  | .failing hpeek h, before, lists => by
    rw [h.readExprIn (before :: lists) (.inr hpeek), resume_error, Except.map, resume_error]

end

theorem Descends.readExpr (h : Descends c outcome c') :
    Reader.readExpr c.remaining = (outcome, c'.remaining) := by
  rw [Reader.readExpr, h.readExprIn [] (.inl rfl), resume_nil]

/-- **A run ends where reading an expression ends, and with the same outcome.** -/
theorem Descends.expression (h : Descends c outcome c') : c.expression = (outcome, c') := by
  simp only [Cursor.expression, h.readExpr, h.passes.leaving]

/-! ### There is a run from every cursor -/

/-- There is a run for an expression, if there are runs for items from all cursors with
less tokens left. -/
theorem exists_descends_of_items (c : Cursor)
    (h : ∀ c' : Cursor, c'.left < c.left → ∃ items c'', DescendsItems c' items c'') :
    ∃ outcome c', Descends c outcome c' := by
  rcases hadvance : c.advance with ⟨_ | token, c'⟩
  · exact ⟨_, c', .atEnd hadvance⟩
  · obtain ⟨-, -, hpasses, hlt⟩ := of_advance_some hadvance
    rcases token_cases token with rfl | rfl | ⟨ho, hc⟩
    · have hleft := hpasses.left_eq
      obtain ⟨items, c'', hitems⟩ := h c' (by omega)
      exact ⟨_, c'', .list hadvance hitems⟩
    · exact ⟨_, c', .unopened hadvance⟩
    · exact ⟨_, c', .atom hadvance ho hc⟩

/-- Every run for items ends, since every item takes a token. -/
theorem exists_descendsItems (c : Cursor) : ∃ items c', DescendsItems c items c' := by
  induction hn : c.left using Nat.strong_induction_on generalizing c with
  | _ n ih =>
    subst hn
    rcases hadvance : c.advance with ⟨next, c'⟩
    by_cases hclose : next = some closing
    · exact ⟨_, c', .closed (hclose ▸ hadvance)⟩
    have hpeek : c.peek ≠ some closing := by
      cases next with
      | none =>
        rw [(of_advance_none hadvance).1]
        exact nofun
      | some token => rwa [(of_advance_some hadvance).1]
    obtain ⟨outcome, c₁, h⟩ := exists_descends_of_items c fun d hd => ih _ hd d rfl
    cases outcome with
    | error err => exact ⟨_, c₁, .failing hpeek h⟩
    | ok tree =>
      have hlt := h.lt h.peek_ne_none
      have hleft := h.passes.left_eq
      obtain ⟨items, c₂, hitems⟩ := ih _ (by omega) c₁ rfl
      exact ⟨_, c₂, .item hpeek h hitems⟩

theorem exists_descends (c : Cursor) : ∃ outcome c', Descends c outcome c' :=
  exists_descends_of_items c fun c' _ => exists_descendsItems c'

/-- **Reading an expression is the descent**: there is one run, and it ends so. -/
theorem descends_iff : Descends c outcome c' ↔ c.expression = (outcome, c') := by
  refine ⟨Descends.expression, fun h => ?_⟩
  obtain ⟨outcome', d, hd⟩ := exists_descends c
  obtain ⟨rfl, rfl⟩ := Prod.mk.inj (hd.expression.symm.trans h)
  exact hd

/-! ### All expressions -/

theorem atEnd_iff {c : Cursor} : c.atEnd = true ↔ c.remaining = [] := by
  rw [atEnd, decide_eq_true_iff, remaining, List.drop_eq_nil_iff]

theorem remaining_ne_nil {c : Cursor} (h : c.atEnd = false) : c.remaining ≠ [] := by
  intro hnil
  simp [atEnd_iff.2 hnil] at h

theorem atEnd_iff_peek {c : Cursor} : c.atEnd = true ↔ c.peek = none := by
  rw [atEnd, decide_eq_true_iff, peek, List.getElem?_eq_none_iff]

theorem DescendsAll.passes (h : DescendsAll c trees stop c') : Passes c c' := by
  induction h with
  | atEnd => exact .refl _
  | cons _ h _ ih => exact h.passes.trans ih
  | failing _ h => exact h.passes

/-- The pass for all expressions ends where a run ends, and for the same reason. -/
theorem DescendsAll.readAllIn (h : DescendsAll c trees stop c') (before : List Value) :
    Reader.readAllIn before [] c.remaining =
      (stop.elim (.ok (before.reverse ++ trees)) .error, c'.remaining) := by
  induction h generalizing before with
  | atEnd hend =>
    rw [atEnd_iff.1 hend, Reader.readAllIn, List.append_nil]
    rfl
  | @cons c tree c' trees stop c'' hend h _ ih =>
    rw [readAllIn_of_ne_nil (remaining_ne_nil hend), h.readExpr]
    simp only
    rw [ih (tree :: before), List.reverse_cons, List.append_assoc]
    rfl
  | @failing c err c' hend h =>
    rw [readAllIn_of_ne_nil (remaining_ne_nil hend), h.readExpr]
    rfl

/-- **A run for all expressions ends where reading them ends, and with the same outcome.** -/
theorem DescendsAll.expressions (h : DescendsAll c trees stop c') :
    c.expressions = (stop.elim (.ok trees) .error, c') := by
  have hread := h.readAllIn []
  rw [List.reverse_nil, List.nil_append] at hread
  simp only [Cursor.expressions, readAll, hread, h.passes.leaving]

theorem exists_descendsAll (c : Cursor) : ∃ trees stop c', DescendsAll c trees stop c' := by
  induction hn : c.left using Nat.strong_induction_on generalizing c with
  | _ n ih =>
    subst hn
    cases hend : c.atEnd with
    | true => exact ⟨[], none, c, .atEnd hend⟩
    | false =>
      obtain ⟨outcome, c', h⟩ := exists_descends c
      cases outcome with
      | error err => exact ⟨[], some err, c', .failing hend h⟩
      | ok tree =>
        have hlt := h.lt h.peek_ne_none
        have hleft := h.passes.left_eq
        obtain ⟨trees, stop, c'', hall⟩ := ih _ (by omega) c' rfl
        exact ⟨tree :: trees, stop, c'', .cons hend h hall⟩

end Cursor
end Reader
end Lisplet
