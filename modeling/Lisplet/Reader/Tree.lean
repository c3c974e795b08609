/-
# Reading trees

Tokens are read in one pass that keeps the lists which are open.  `readExpr`
stops behind the first expression, `readAll` takes all tokens; both give what
they read, or the reason why they cannot go on, together with the tokens that
they did not take.  The token at fault is taken.
-/

import Lisplet.Error
import Lisplet.Number.Literal
import Lisplet.Reader.Token

namespace Lisplet
namespace Reader

/-- The tree of a token that is not a parenthesis: the double that a number
literal denotes, and otherwise the symbol of that name. -/
def atom (token : String) : Value :=
  match Literal.read? token.toList with
  | some d => .float (Double.ofDecimal d)
  | none => .symbol ⟨token⟩

/-- Reads on inside lists that are open, the innermost first, each with its
items so far, the latest first; ends behind the expression that leaves no list
open. -/
def readExprIn : List (List Value) → List String → Except Error Value × List String
  | _, [] => (.error .unexpectedEnd, [])
  | lists, token :: rest =>
    if token = opening then readExprIn ([] :: lists) rest
    else if token = closing then
      match lists with
      | [] => (.error .unexpectedClose, rest)
      | [items] => (.ok (.list items.reverse), rest)
      | items :: outer :: lists => readExprIn ((.list items.reverse :: outer) :: lists) rest
    else
      match lists with
      | [] => (.ok (atom token), rest)
      | items :: lists => readExprIn ((atom token :: items) :: lists) rest

/-- Reads the first expression. -/
def readExpr (tokens : List String) : Except Error Value × List String := readExprIn [] tokens

/-- Reads on to the end, given the items so far of the innermost open list and
of those around it, the latest item first; the outermost of them is the row of
expressions itself. -/
def readAllIn : List Value → List (List Value) → List String →
    Except Error (List Value) × List String
  | items, [], [] => (.ok items.reverse, [])
  | _, _ :: _, [] => (.error .unexpectedEnd, [])
  | items, outer, token :: rest =>
    if token = opening then readAllIn [] (items :: outer) rest
    else if token = closing then
      match outer with
      | [] => (.error .unexpectedClose, rest)
      | up :: outer => readAllIn (.list items.reverse :: up) outer rest
    else readAllIn (atom token :: items) outer rest

/-- Reads a row of expressions. -/
def readAll (tokens : List String) : Except Error (List Value) × List String :=
  readAllIn [] [] tokens

end Reader
end Lisplet
