/-
Hexadecimal numerals of fixed width.
-/

namespace GnLang.Text

/-- The last `width` hexadecimal digits of `n`, in lower case. -/
def hex : (width : Nat) → (n : Nat) → List Char
  | 0, _ => []
  | width + 1, n => hex width (n / 16) ++ [Nat.digitChar (n % 16)]

end GnLang.Text
