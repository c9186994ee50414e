/-
JSON values and how they are written.

An object keeps its fields in the order they were given.  A value is written on one line
or with an indent; either way the text is pure ASCII, since `Json.escape` writes every
other character by the UTF-16 units of its code point.  The two halves of a surrogate pair
would be written by the same units as the character that they make, so it matters here that
a text is one of characters.
-/
import GnLang.Text.Hex

namespace GnLang

/-- The JSON values that trees are written as. -/
inductive Json where
  | null
  | int (value : Int)
  | str (value : String)
  | arr (items : List Json)
  | obj (fields : List (String × Json))
  deriving Repr, Inhabited

namespace Json

mutual

/-- How many arrays and objects are open at once, where most are, while a value is written. -/
def height : Json → Nat
  | arr items => 1 + heightItems items
  | obj fields => 1 + heightFields fields
  | _ => 0
  termination_by structural v => v

/-- The same for the items of an array. -/
def heightItems : List Json → Nat
  | [] => 0
  | item :: items => max (height item) (heightItems items)
  termination_by structural items => items

/-- The same for the fields of an object. -/
def heightFields : List (String × Json) → Nat
  | [] => 0
  | (_, value) :: fields => max (height value) (heightFields fields)
  termination_by structural fields => fields

end

/-- One UTF-16 unit. -/
def unit (n : Nat) : List Char := '\\' :: 'u' :: Text.hex 4 n

/-- One character of a string. -/
def escape (c : Char) : List Char :=
  if c = '"' ∨ c = '\\' then ['\\', c]
  else if c = '\n' then ['\\', 'n']
  else if c = '\r' then ['\\', 'r']
  else if c = '\t' then ['\\', 't']
  else if c = '\x08' then ['\\', 'b']
  else if c = '\x0c' then ['\\', 'f']
  else if 32 ≤ c.toNat ∧ c.toNat < 127 then [c]
  else if c.toNat < 0x10000 then unit c.toNat
  else
    let above := c.toNat - 0x10000
    unit (0xd800 + above / 0x400) ++ unit (0xdc00 + above % 0x400)

/-- A string between its quotes. -/
def quoted (s : String) : String :=
  "\"" ++ String.ofList (s.toList.flatMap escape) ++ "\""

/-- The text that goes between two items at nesting `level`: a comma, and then a blank
or a new line. -/
def lineBreak (indent : Option Nat) (level : Nat) : String :=
  match indent with
  | none => ""
  | some width => "\n" ++ "".pushn ' ' (width * level)

/-- What separates two items at nesting `level`. -/
def separator (indent : Option Nat) (level : Nat) : String :=
  match indent with
  | none => ", "
  | some _ => "," ++ lineBreak indent level

mutual

/-- The text of a value at nesting `level`.  With an indent every item has a line of its
own, and without one everything is on one line; nothing is put into an empty array or
object. -/
def write (indent : Option Nat) (level : Nat) : Json → String
  | null => "null"
  | int value => toString value
  | str value => quoted value
  | arr items =>
    if items.isEmpty then "[]"
    else
      "[" ++ lineBreak indent (level + 1)
        ++ (separator indent (level + 1)).intercalate (writeItems indent (level + 1) items)
        ++ lineBreak indent level ++ "]"
  | obj fields =>
    if fields.isEmpty then "\x7b\x7d"
    else
      "\x7b" ++ lineBreak indent (level + 1)
        ++ (separator indent (level + 1)).intercalate
          (writeFields indent (level + 1) fields)
        ++ lineBreak indent level ++ "\x7d"
  termination_by structural v => v

/-- The texts of the items of an array. -/
def writeItems (indent : Option Nat) (level : Nat) : List Json → List String
  | [] => []
  | item :: items => write indent level item :: writeItems indent level items
  termination_by structural items => items

/-- The texts of the fields of an object. -/
def writeFields (indent : Option Nat) (level : Nat) : List (String × Json) → List String
  | [] => []
  | (key, value) :: fields =>
    (quoted key ++ ": " ++ write indent level value) :: writeFields indent level fields
  termination_by structural fields => fields

end

end Json

end GnLang
