/-
Sets of characters given by ranges.

The classes of characters that Unicode defines are long lists of code points; here they
are kept as ranges, and `CharSet.contains` looks a character up.
-/

namespace GnLang.Text

/-- A set of characters: ranges of code points, the first and the last of each. -/
abbrev CharSet := List (Nat × Nat)

/-- Whether `c` is in one of the ranges. -/
def CharSet.contains (s : CharSet) (c : Char) : Bool :=
  s.any fun r => r.1 ≤ c.toNat && c.toNat ≤ r.2

end GnLang.Text
