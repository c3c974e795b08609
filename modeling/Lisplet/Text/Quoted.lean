/-
# Quoted text

A text is shown between single quotes, or between double quotes when it holds a
single quote and no double one.  Inside, a backslash and the chosen quote get a
backslash in front, tab, line feed and carriage return are `\t`, `\n` and `\r`,
and any other character that is not printable is written by its code point in
hexadecimal: two digits after `\x`, four after `\u` or eight after `\U`, the
shortest of the three that holds it.
-/

import Lisplet.Text.Printable

namespace Lisplet
namespace Text

/-- The last `count` hexadecimal digits of a number, in lower case. -/
def hexDigits (count : Nat) (number : Nat) : List Char :=
  ((List.range count).map fun place => Nat.digitChar (number >>> (4 * place) % 16)).reverse

/-- The quote around a text. -/
def quoteOf (cs : List Char) : Char :=
  if cs.contains '\'' && !cs.contains '"' then '"' else '\''

/-- A character as it stands between two `quote`s. -/
def escape (quote : Char) (c : Char) : List Char :=
  if c = quote ∨ c = '\\' then ['\\', c]
  else if c = '\t' then ['\\', 't']
  else if c = '\n' then ['\\', 'n']
  else if c = '\r' then ['\\', 'r']
  else if isPrintable c then [c]
  else if c.toNat ≤ 0xFF then '\\' :: 'x' :: hexDigits 2 c.toNat
  else if c.toNat ≤ 0xFFFF then '\\' :: 'u' :: hexDigits 4 c.toNat
  else '\\' :: 'U' :: hexDigits 8 c.toNat

/-- A text between quotes. -/
def quoted (text : String) : String :=
  let cs := text.toList
  let quote := quoteOf cs
  String.ofList (quote :: cs.flatMap (escape quote) ++ [quote])

example : hexDigits 4 0x200B = ['2', '0', '0', 'b'] := by decide

example : quoteOf ['i', 't', '\'', 's'] = '"' ∧ escape '\'' '\x7f' = ['\\', 'x', '7', 'f'] := by
  decide

end Text
end Lisplet
