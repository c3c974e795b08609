/-
# Cursors

A row of tokens with a position in it, for reading piece by piece.  Reading
moves the position behind the tokens it took, also when it fails; looking moves
nothing; the tokens stay what they are.
-/

import Lisplet.Reader.Tree

namespace Lisplet
namespace Reader

/-- Tokens and how many of them are behind the cursor. -/
structure Cursor where
  /-- All tokens. -/
  tokens : List String
  /-- How many tokens were taken. -/
  position : Nat
  deriving Repr

namespace Cursor

/-- The cursor before the first of some tokens. -/
def start (tokens : List String) : Cursor := ⟨tokens, 0⟩

/-- The next token, if there is one. -/
def peek (c : Cursor) : Option String := c.tokens[c.position]?

/-- Whether there is no next token. -/
def atEnd (c : Cursor) : Bool := decide (c.tokens.length ≤ c.position)

/-- The tokens that were not taken. -/
def remaining (c : Cursor) : List String := c.tokens.drop c.position

/-- The cursor moved forward so that `rest` tokens remain. -/
def leaving (c : Cursor) (rest : List String) : Cursor :=
  { c with position := c.position + (c.remaining.length - rest.length) }

/-- Takes the next token, if there is one. -/
def advance (c : Cursor) : Option String × Cursor :=
  match c.peek with
  | some token => (some token, { c with position := c.position + 1 })
  | none => (none, c)

/-- Reads the next expression. -/
def expression (c : Cursor) : Except Error Value × Cursor :=
  let (outcome, rest) := readExpr c.remaining
  (outcome, c.leaving rest)

/-- Reads all expressions up to the end. -/
def expressions (c : Cursor) : Except Error (List Value) × Cursor :=
  let (outcome, rest) := readAll c.remaining
  (outcome, c.leaving rest)

end Cursor
end Reader
end Lisplet
