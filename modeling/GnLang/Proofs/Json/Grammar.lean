/-
The grammar of JSON texts.

`Spells φ cs` says that the characters `cs` spell the form `φ`: a value, a field of an object,
or what stands between the brackets of an array or an object.  `IsText v cs` says that `cs` is
a whole text for the value `v`.

The rules are those of JSON for the values that `Json` has: integers, but no fractions, and no
truth values.  Blanks may stand between any two tokens, a character may be escaped or not,
and an escaped character may be written by one UTF-16 unit or by two that belong together.
Nothing in the rules refers to how a text is written.
-/
import GnLang.Json

namespace GnLang.Json

/-! ### Strings -/

/-- The value of a hexadecimal digit. -/
def hexValue? (c : Char) : Option Nat :=
  if '0' ≤ c ∧ c ≤ '9' then some (c.toNat - '0'.toNat)
  else if 'a' ≤ c ∧ c ≤ 'f' then some (c.toNat - 'a'.toNat + 10)
  else if 'A' ≤ c ∧ c ≤ 'F' then some (c.toNat - 'A'.toNat + 10)
  else none

/-- Four hexadecimal digits, and the number they make. -/
inductive IsUnit : List Char → Nat → Prop where
  | digits {a b c d : Char} {i j k l : Nat} :
      hexValue? a = some i → hexValue? b = some j → hexValue? c = some k →
      hexValue? d = some l → IsUnit [a, b, c, d] (((i * 16 + j) * 16 + k) * 16 + l)

/-- The character that a backslash and one other character stand for. -/
def shortEscape? : Char → Option Char
  | '"' => some '"'
  | '\\' => some '\\'
  | '/' => some '/'
  | 'b' => some '\x08'
  | 'f' => some '\x0c'
  | 'n' => some '\n'
  | 'r' => some '\r'
  | 't' => some '\t'
  | _ => none

/-- A unit that is a character of its own. -/
def IsScalar (n : Nat) : Prop := n < 0xd800 ∨ 0xdfff < n

/-- The first of two units that belong together. -/
def IsHigh (n : Nat) : Prop := 0xd800 ≤ n ∧ n < 0xdc00

/-- The second of two units that belong together. -/
def IsLow (n : Nat) : Prop := 0xdc00 ≤ n ∧ n < 0xe000

instance (n : Nat) : Decidable (IsScalar n) := inferInstanceAs (Decidable (_ ∨ _))

instance (n : Nat) : Decidable (IsHigh n) := inferInstanceAs (Decidable (_ ∧ _))

instance (n : Nat) : Decidable (IsLow n) := inferInstanceAs (Decidable (_ ∧ _))

/-- The character of two units that belong together. -/
def ofPair (high low : Nat) : Char :=
  .ofNat (0x10000 + (high - 0xd800) * 0x400 + (low - 0xdc00))

/-- One character of a string, as it is spelled. -/
inductive SpellsChar : List Char → Char → Prop where
  | plain {c : Char} : c ≠ '"' → c ≠ '\\' → 0x20 ≤ c.toNat → SpellsChar [c] c
  | short {e c : Char} : shortEscape? e = some c → SpellsChar ['\\', e] c
  | unit {cs : List Char} {n : Nat} :
      IsUnit cs n → IsScalar n → SpellsChar ('\\' :: 'u' :: cs) (.ofNat n)
  | pair {cs ds : List Char} {m n : Nat} :
      IsUnit cs m → IsHigh m → IsUnit ds n → IsLow n →
      SpellsChar ('\\' :: 'u' :: (cs ++ '\\' :: 'u' :: ds)) (ofPair m n)

/-- What stands between the quotes of a string, and the characters of the string. -/
inductive SpellsChars : List Char → List Char → Prop where
  | nil : SpellsChars [] []
  | cons {cs ds s : List Char} {c : Char} :
      SpellsChar cs c → SpellsChars ds s → SpellsChars (cs ++ ds) (c :: s)

/-! ### Integers -/

/-- Decimal digits, the first of which is zero only if it is the only one. -/
structure SpellsNat (cs : List Char) (n : Nat) : Prop where
  ne_nil : cs ≠ []
  isDigit : ∀ c ∈ cs, c.isDigit
  leading : cs.head? = some '0' → cs = ['0']
  value : Nat.ofDigitChars 10 cs 0 = n

/-! ### Values -/

/-- Whether the character may stand between tokens. -/
def isBlank (c : Char) : Bool := c = ' ' || c = '\t' || c = '\n' || c = '\r'

/-- Characters that may stand between tokens. -/
def IsBlanks (g : List Char) : Prop := ∀ c ∈ g, isBlank c

instance (g : List Char) : Decidable (IsBlanks g) := List.decidableBAll (fun c => isBlank c) g

theorem isBlanks_nil : IsBlanks [] := by decide

/-- What characters of a JSON text may spell. -/
inductive Form where
  | value (v : Json)
  /-- A key and a value. -/
  | field (key : String) (v : Json)
  /-- What stands between the brackets of an array, which is not empty. -/
  | items (vs : List Json)
  /-- What stands between the braces of an object, which is not empty. -/
  | fields (fs : List (String × Json))

/-- The characters spell the form. -/
inductive Spells : Form → List Char → Prop where
  | null : Spells (.value .null) ['n', 'u', 'l', 'l']
  | nonneg {cs : List Char} {n : Nat} : SpellsNat cs n → Spells (.value (.int n)) cs
  | negative {cs : List Char} {n : Nat} :
      SpellsNat cs n → Spells (.value (.int (-n))) ('-' :: cs)
  | str {cs : List Char} {s : String} :
      SpellsChars cs s.toList → Spells (.value (.str s)) ('"' :: (cs ++ ['"']))
  | emptyArr {g : List Char} : IsBlanks g → Spells (.value (.arr [])) ('[' :: (g ++ [']']))
  | arr {vs : List Json} {cs : List Char} :
      Spells (.items vs) cs → Spells (.value (.arr vs)) ('[' :: (cs ++ [']']))
  | emptyObj {g : List Char} :
      IsBlanks g → Spells (.value (.obj [])) ('\x7b' :: (g ++ ['\x7d']))
  | obj {fs : List (String × Json)} {cs : List Char} :
      Spells (.fields fs) cs → Spells (.value (.obj fs)) ('\x7b' :: (cs ++ ['\x7d']))
  | field {key : String} {v : Json} {cs ds g g' : List Char} :
      SpellsChars cs key.toList → IsBlanks g → IsBlanks g' → Spells (.value v) ds →
      Spells (.field key v) ('"' :: (cs ++ '"' :: (g ++ ':' :: (g' ++ ds))))
  | lastItem {v : Json} {cs g g' : List Char} :
      IsBlanks g → Spells (.value v) cs → IsBlanks g' → Spells (.items [v]) (g ++ (cs ++ g'))
  | item {v : Json} {vs : List Json} {cs ds g g' : List Char} :
      IsBlanks g → Spells (.value v) cs → IsBlanks g' → Spells (.items vs) ds →
      Spells (.items (v :: vs)) (g ++ (cs ++ (g' ++ ',' :: ds)))
  | lastField {key : String} {v : Json} {cs g g' : List Char} :
      IsBlanks g → Spells (.field key v) cs → IsBlanks g' →
      Spells (.fields [(key, v)]) (g ++ (cs ++ g'))
  | fields {key : String} {v : Json} {fs : List (String × Json)} {cs ds g g' : List Char} :
      IsBlanks g → Spells (.field key v) cs → IsBlanks g' → Spells (.fields fs) ds →
      Spells (.fields ((key, v) :: fs)) (g ++ (cs ++ (g' ++ ',' :: ds)))

/-- The characters are a whole JSON text for the value. -/
def IsText (v : Json) (cs : List Char) : Prop :=
  ∃ g ds g', IsBlanks g ∧ Spells (.value v) ds ∧ IsBlanks g' ∧ cs = g ++ (ds ++ g')

end GnLang.Json
