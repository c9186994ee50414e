/-
Integers as people type them.

`readInt?` reads an integer that may stand between spaces, may carry a sign, may use the
decimal digits of any script, and may have single underscores between its digits.
-/
import GnLang.Text.Digit
import GnLang.Text.Space

namespace GnLang.Text

/-- A numeral may have at most this many digits. -/
def maxDigits : Nat := 4300

/-- The values of the digits of an unsigned numeral: at least one digit, and at most one
underscore between two digits. -/
def digitValues? : List Char → Option (List Nat)
  | [] => none
  | [c] => (digitValue? c).map ([·])
  | c :: '_' :: cs => do return (← digitValue? c) :: (← digitValues? cs)
  | c :: cs => do return (← digitValue? c) :: (← digitValues? cs)

/-- The number that digits stand for, the most significant first. -/
def ofDigits (ds : List Nat) : Nat := ds.foldl (fun n d => n * 10 + d) 0

/-- The number an unsigned numeral stands for. -/
def readNat? (cs : List Char) : Option Nat := do
  let ds ← digitValues? cs
  if ds.length ≤ maxDigits then some (ofDigits ds) else none

/-- What may stand around a numeral: white space other than the separator controls. -/
def isMargin (c : Char) : Bool := isSpace c && !(0x1c ≤ c.toNat && c.toNat ≤ 0x1f)

/-- The integer that a text stands for. -/
def readInt? (s : String) : Option Int :=
  match trimBy isMargin s.toList with
  | '-' :: cs => (readNat? cs).map (-·)
  | '+' :: cs => (readNat? cs).map (·)
  | cs => (readNat? cs).map (·)

end GnLang.Text
