/-
Positions in a list counted from either end.
-/

namespace GnLang

/-- The item at index `i`; a negative index counts from the end, -1 being the last. -/
def pick? {α : Type} (xs : List α) (i : Int) : Option α :=
  if 0 ≤ i then xs[i.toNat]?
  else if 0 ≤ xs.length + i then xs[(xs.length + i).toNat]?
  else none

theorem pick?_natCast {α : Type} (xs : List α) (n : Nat) : pick? xs n = xs[n]? := by
  simp [pick?]

end GnLang
