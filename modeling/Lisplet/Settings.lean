/-
# Settings

Starting a session takes two settings from texts that the surroundings may
provide: the level of its log, by name, and a recursion limit.  A missing or
blank text asks for nothing.  The level is set before the limit is read, so it
stays set if the limit is refused; the limit is only ever raised.
-/

import Lisplet.Text.Blank
import Lisplet.Text.Quoted
import Lisplet.Number.Numeral

namespace Lisplet

/-- The settings that outlive a session. -/
structure Settings where
  /-- The level of the log; zero if it was never set. -/
  level : Nat
  /-- The recursion limit. -/
  limit : Nat
  deriving DecidableEq, Repr

namespace Settings

/-- Why a setting is refused. -/
inductive Refusal where
  /-- The text is not the name of a level. -/
  | unknownLevel (text : String)
  /-- The text is not the numeral of a whole number. -/
  | notWhole (text : String)
  /-- The limit is zero or less. -/
  | notPositive (limit : Int)
  /-- The limit does not fit into 31 bits. -/
  | tooLarge (limit : Nat)
  deriving DecidableEq, Repr

/-- The name of the text that sets the level. -/
def levelName : String := "JISP_LOG_LEVEL"

/-- The name of the text that sets the limit. -/
def limitName : String := "JISP_RECURSION_LIMIT"

/-- The text of a refusal. -/
def Refusal.message : Refusal → String
  | .unknownLevel text => levelName ++ "=" ++ Text.quoted text ++ " is not a logging level"
  | .notWhole text => limitName ++ "=" ++ Text.quoted text ++ " is not an integer"
  | .notPositive limit => limitName ++ " must be positive, got " ++ toString limit
  | .tooLarge limit => limitName ++ " is too large: " ++ toString limit

/-- The levels of a log. -/
def levels : List (String × Nat) :=
  [("CRITICAL", 50), ("FATAL", 50), ("ERROR", 40), ("WARNING", 30), ("WARN", 30), ("INFO", 20),
   ("DEBUG", 10), ("NOTSET", 0)]

/-- The capital of a letter of the Latin alphabet.  Two letters outside ASCII
have capitals inside it, the dotless `ı` and the long `ſ`; other characters are
left alone. -/
def capital (c : Char) : Char :=
  if c = '\u0131' then 'I' else if c = '\u017f' then 'S' else c.toUpper

/-- The level that a text names, in letters of either case. -/
def level? (text : String) : Option Nat :=
  levels.lookup (String.ofList (text.toList.map capital))

/-- A text without the blanks around it, if anything is left of it. -/
def content? (text : Option String) : Option String :=
  match Text.trimBlank (text.getD "") with
  | "" => none
  | t => some t

/-- The level that a text asks for, if it asks for one. -/
def readLevel (text : Option String) : Except Refusal (Option Nat) :=
  match content? text with
  | none => .ok none
  | some t =>
    match level? t with
    | some level => .ok (some level)
    | none => .error (.unknownLevel t)

/-- The recursion limit that a text asks for, if it asks for one. -/
def readLimit (text : Option String) : Except Refusal (Option Nat) :=
  match content? text with
  | none => .ok none
  | some t =>
    match Numeral.read? t with
    | none => .error (.notWhole t)
    | some limit => if limit ≤ 0 then .error (.notPositive limit) else .ok (some limit.toNat)

/-- The settings with a level, if one is asked for. -/
def withLevel (s : Settings) : Option Nat → Settings
  | some level => { s with level }
  | none => s

/-- The settings with a limit, if one is asked for that is above the present
one. -/
def withLimit (s : Settings) : Option Nat → Except Refusal Settings
  | none => .ok s
  | some limit =>
    if limit ≤ s.limit then .ok s
    else if limit < 1 <<< 31 then .ok { s with limit }
    else .error (.tooLarge limit)

/-- What starting a session makes of the settings, and why it is refused, if it
is. -/
def start (levelText limitText : Option String) (s : Settings) : Settings × Option Refusal :=
  match readLevel levelText with
  | .error refusal => (s, some refusal)
  | .ok level =>
    let s := s.withLevel level
    match (readLimit limitText).bind s.withLimit with
    | .error refusal => (s, some refusal)
    | .ok s => (s, none)

end Settings
end Lisplet
