/-
# Blank characters and words

Source text is cut at blank characters.  A character is blank when Unicode
gives it the property White_Space, and so are the four information separators
U+001C to U+001F; no other control or format character is, so U+0000, U+200B
(zero width space) and U+FEFF belong to words.

`words` lists the maximal runs of characters that are not blank.
-/

namespace Lisplet
namespace Text

/-- The blank characters, as first and last code points of runs. -/
def blankRanges : List (Nat × Nat) :=
  [(0x09, 0x0D), (0x1C, 0x20), (0x85, 0x85), (0xA0, 0xA0), (0x1680, 0x1680), (0x2000, 0x200A),
   (0x2028, 0x2029), (0x202F, 0x202F), (0x205F, 0x205F), (0x3000, 0x3000)]

/-- A character is blank when its code point lies in one of the blank runs. -/
def isBlank (c : Char) : Bool :=
  blankRanges.any fun range => decide (range.1 ≤ c.toNat) && decide (c.toNat ≤ range.2)

example : isBlank '\x1f' = true ∧ isBlank '\u2003' = true ∧ isBlank '\u200b' = false ∧
    isBlank '\x00' = false := by decide

/-- The pieces of a text between its blank characters, the empty ones included:
one more piece than there are blanks. -/
def pieces : List Char → List (List Char)
  | [] => [[]]
  | c :: cs =>
    if isBlank c then [] :: pieces cs
    else match pieces cs with
      | [] => [[c]]
      | piece :: rest => (c :: piece) :: rest

/-- The words of a text: its maximal runs of characters that are not blank. -/
def words (cs : List Char) : List (List Char) :=
  (pieces cs).filter fun piece => !piece.isEmpty

example : words ['a', ' ', ' ', 'b', 'c', '\n'] = [['a'], ['b', 'c']] := by decide

/-- The text without the blank characters at its two ends. -/
def trimBlank (text : String) : String :=
  String.ofList
    (((text.toList.dropWhile isBlank).reverse.dropWhile isBlank).reverse)

end Text
end Lisplet
