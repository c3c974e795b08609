/-
# Cursors in use

A cursor may be asked to look, to take a token or to read, any number of times and in
any order, also after reading has failed (`Cursor.afterAll`).  Whatever is asked, the
tokens stay what they are and the cursor goes forward over them, never beyond their end
(`Cursor.Passes`, kept by one operation in `Cursor.Operation.passes` and so by all of
them in `Cursor.passes_afterAll`).  Reading an expression where there is a token takes
one at least, so reading always ends: `Cursor.afterAll_invariant`.
-/

import Lisplet.Proofs.Descent

namespace Lisplet
namespace Reader
namespace Cursor

/-- What a cursor can be asked for. -/
inductive Operation where
  | peek
  | advance
  | atEnd
  | remaining
  | expression
  | expressions

/-- The cursor behind an operation, also if that has failed. -/
def Operation.after : Operation → Cursor → Cursor
  | .peek, c | .atEnd, c | .remaining, c => c
  | .advance, c => c.advance.2
  | .expression, c => c.expression.2
  | .expressions, c => c.expressions.2

/-- The cursor behind operations one after another. -/
def afterAll (c : Cursor) (operations : List Operation) : Cursor :=
  operations.foldl (fun c operation => operation.after c) c

/-- Every operation moves the cursor forward, if it moves it. -/
theorem Operation.passes (operation : Operation) (c : Cursor) : Passes c (operation.after c) := by
  cases operation with
  | peek | atEnd | remaining => exact .refl c
  | advance =>
    rcases hadvance : c.advance with ⟨_ | token, c'⟩
    · obtain ⟨-, -, rfl⟩ := of_advance_none hadvance
      rw [Operation.after, hadvance]
      exact .refl c'
    · rw [Operation.after, hadvance]
      exact (of_advance_some hadvance).2.2.1
  | expression =>
    obtain ⟨outcome, c', h⟩ := exists_descends c
    rw [Operation.after, h.expression]
    exact h.passes
  | expressions =>
    obtain ⟨trees, stop, c', h⟩ := exists_descendsAll c
    rw [Operation.after, h.expressions]
    exact h.passes

theorem passes_afterAll (operations : List Operation) (c : Cursor) :
    Passes c (c.afterAll operations) := by
  induction operations generalizing c with
  | nil => exact .refl c
  | cons operation operations ih => exact (operation.passes c).trans (ih (operation.after c))

/-- A cursor that came from the first token is not beyond the end. -/
theorem Passes.position_le {tokens : List String} {c : Cursor} (h : Passes (start tokens) c) :
    c.position ≤ tokens.length := by
  have hleft := h.left_eq
  have htokens := h.tokens_eq
  simp only [left, start] at hleft htokens
  rw [htokens] at hleft
  omega

/-- Reading an expression takes a token, if there is one, even if it fails. -/
theorem position_lt_expression {c : Cursor} (h : c.atEnd = false) :
    c.position < c.expression.2.position := by
  obtain ⟨outcome, c', hrun⟩ := exists_descends c
  rw [hrun.expression]
  exact hrun.lt fun hpeek => by simp [atEnd_iff_peek.2 hpeek] at h

/-- **A cursor in use stays on its tokens, goes forward only, and always answers.**  After
any operations, some of which may have failed: the tokens are those of the start and the
position is one of them or the end; no further operations bring it back; what remains are
the tokens from there on, and there is a next one unless it is at the end.  Looking moves
nothing, and reading an expression moves it, unless it is at the end.  Reading one
expression is a run of the descent, which ends so and in no other way, and so is reading
all of them. -/
theorem afterAll_invariant (tokens : List String) (operations : List Operation) :
    let c := (start tokens).afterAll operations
    c.tokens = tokens ∧
    c.position ≤ tokens.length ∧
    (∀ further, c.position ≤ (c.afterAll further).position) ∧
    c.remaining = tokens.drop c.position ∧
    c.peek = tokens[c.position]? ∧
    (c.atEnd = true ↔ c.peek = none) ∧
    (Operation.peek.after c = c ∧ Operation.atEnd.after c = c ∧ Operation.remaining.after c = c) ∧
    (c.atEnd = false → c.position < c.expression.2.position) ∧
    (∀ outcome c', Descends c outcome c' ↔ c.expression = (outcome, c')) ∧
    (∃ trees stop c', DescendsAll c trees stop c') ∧
    ∀ trees stop c', DescendsAll c trees stop c' →
      c.expressions = (stop.elim (.ok trees) .error, c') := by
  intro c
  have hpasses : Passes (start tokens) c := passes_afterAll operations (start tokens)
  have htokens : c.tokens = tokens := hpasses.tokens_eq
  refine ⟨htokens, hpasses.position_le, fun further => (passes_afterAll further c).le, ?_, ?_,
    atEnd_iff_peek, ⟨rfl, rfl, rfl⟩, position_lt_expression, fun _ _ => descends_iff,
    exists_descendsAll c, fun _ _ _ hrun => hrun.expressions⟩
  · rw [remaining, htokens]
  · rw [peek, htokens]

/-- Behind a parenthesis too many, a list that does not end is read, and that is a step
forward as well. -/
theorem afterAll_invariant_failing :
    let c := (start [closing, opening, "a"]).afterAll [.expression, .peek]
    c.atEnd = false ∧ c.position < c.expression.2.position := by
  intro c
  have hend : c.atEnd = false := by decide +kernel
  obtain ⟨-, -, -, -, -, -, -, hlt, -⟩ :=
    afterAll_invariant [closing, opening, "a"] [.expression, .peek]
  exact ⟨hend, hlt hend⟩

end Cursor
end Reader
end Lisplet
