/-
# Tokens

Source text is a row of tokens: the parentheses, each a token of its own, and
the words between parentheses and blanks.  There are no texts, comments or
quotes.
-/

import Lisplet.Text.Blank

namespace Lisplet
namespace Reader

/-- The token that opens a list. -/
def opening : String := "("

/-- The token that closes a list. -/
def closing : String := ")"

/-- Whether a character is a parenthesis. -/
def isParenthesis (c : Char) : Bool := c == '(' || c == ')'

/-- A text with a blank on either side of every character `p`. -/
def setApart (p : Char) (cs : List Char) : List Char :=
  cs.flatMap fun c => if c == p then [' ', c, ' '] else [c]

/-- A text with its parentheses set apart: the opening ones first, and then the closing
ones in what this makes. -/
def spaced (cs : List Char) : List Char := setApart ')' (setApart '(' cs)

/-- Both kinds of parentheses are set apart as in one pass over the text. -/
theorem spaced_eq_flatMap (cs : List Char) :
    spaced cs = cs.flatMap fun c => if isParenthesis c then [' ', c, ' '] else [c] := by
  rw [spaced, setApart, setApart, List.flatMap_assoc]
  congr 1
  funext c
  by_cases hopen : c = '('
  · subst hopen
    rfl
  · by_cases hclose : c = ')'
    · subst hclose
      rfl
    · simp [isParenthesis, hopen, hclose]

example : spaced ['(', 'a', ')'] = [' ', '(', ' ', 'a', ' ', ')', ' '] := by decide

/-- The tokens of a source text: its words, every parenthesis being set apart. -/
def tokenize (source : String) : List String :=
  (Text.words (spaced source.toList)).map String.ofList

end Reader
end Lisplet
