/-
White space around a text.
-/
import GnLang.Text.CharSet

namespace GnLang.Text

/-- Everything Unicode counts as white space, and the four separator controls. -/
def spaces : CharSet :=
  [(0x9, 0xd), (0x1c, 0x20), (0x85, 0x85), (0xa0, 0xa0), (0x1680, 0x1680),
    (0x2000, 0x200a), (0x2028, 0x2029), (0x202f, 0x202f), (0x205f, 0x205f),
    (0x3000, 0x3000)]

/-- Whether `c` is white space. -/
def isSpace (c : Char) : Bool := spaces.contains c

/-- Drops the characters at both ends for which `p` holds. -/
def trimBy (p : Char → Bool) (cs : List Char) : List Char :=
  ((cs.dropWhile p).reverse.dropWhile p).reverse

/-- The text without the white space at its ends. -/
def trim (s : String) : String := String.ofList (trimBy isSpace s.toList)

end GnLang.Text
