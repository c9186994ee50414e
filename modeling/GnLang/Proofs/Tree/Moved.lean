/-
Trees at other places.

`Node.moved f` is a tree with `f` applied to the place of each of its nodes.  Nothing but
places changes: `Node.placeless_moved`.

`Pos.below n` is the way down over `n` lines.  Characters lead on from there just as they
did (`Pos.below_next`), and the line after a text is as far down as the text has newlines,
and one more (`Pos.next_after_start`).
-/
import GnLang.Proofs.Lossless
import GnLang.Proofs.Tree.Placeless

namespace GnLang

/-! ### Places -/

/-- The place `n` lines down, in the same column. -/
def Pos.below (n : Nat) (p : Pos) : Pos := ⟨p.line + n, p.col⟩

theorem Pos.below_next (n : Nat) (p : Pos) (c : Char) :
    (p.below n).next c = (p.next c).below n := by
  rw [next, next, below]
  split
  · rw [below, Int.add_right_comm]
  · rfl

/-- The line after a text is below it, and begins in the first column. -/
theorem Pos.next_after_start (cs : List Char) :
    (start.after cs).next '\n' = start.below (cs.count '\n' + 1) := by
  rw [start_after, following, next, if_pos rfl, below, start, Int.natCast_add, Int.add_assoc]
  rfl

namespace Node

/-! ### Trees -/

mutual

/-- The tree with the place of each node moved. -/
def moved (f : Pos → Pos) : Node → Node
  | identifier n p => identifier n (f p)
  | string v p => string v (f p)
  | integer v p => integer v (f p)
  | list xs p => list (movedAll f xs) (f p)
  | call n a none p => call n (moved f a) none (f p)
  | call n a (some b) p => call n (moved f a) (some (moved f b)) (f p)
  | arrayAccess n i p => arrayAccess n (moved f i) (f p)
  | scopeAccess s n p => scopeAccess s n (f p)
  | unary o x p => unary o (moved f x) (f p)
  | binary l o r p => binary (moved f l) o (moved f r) (f p)
  | assignment t o v p => assignment (moved f t) o (moved f v) (f p)
  | foreign (.object k p) => foreign (.object k (f p))
  | foreign g => foreign g
  termination_by structural x => x

/-- The trees with the place of each node moved. -/
def movedAll (f : Pos → Pos) : List Node → List Node
  | [] => []
  | x :: xs => moved f x :: movedAll f xs
  termination_by structural xs => xs

end

theorem movedAll_eq_map (f : Pos → Pos) (xs : List Node) : movedAll f xs = xs.map (moved f) := by
  induction xs with
  | nil => rfl
  | cons x xs ih => rw [movedAll, ih, List.map_cons]

mutual

/-- Nothing but places changes. -/
theorem placeless_moved (f : Pos → Pos) (x : Node) : (x.moved f).placeless = x.placeless := by
  cases x with
  | list xs p => rw [moved, placeless, placeless, placelessAll_movedAll]
  | call n a b p =>
    cases b with
    | none => rw [moved, placeless, placeless, placeless_moved]
    | some b => rw [moved, placeless, placeless, placeless_moved, placeless_moved]
  | arrayAccess n i p => rw [moved, placeless, placeless, placeless_moved]
  | unary o x p => rw [moved, placeless, placeless, placeless_moved]
  | binary l o r p => rw [moved, placeless, placeless, placeless_moved, placeless_moved]
  | assignment t o v p => rw [moved, placeless, placeless, placeless_moved, placeless_moved]
  | foreign g => cases g <;> rfl
  | _ => rfl
  termination_by structural x

theorem placelessAll_movedAll (f : Pos → Pos) (xs : List Node) :
    placelessAll (movedAll f xs) = placelessAll xs := by
  cases xs with
  | nil => rfl
  | cons x xs =>
    rw [movedAll, placelessAll, placelessAll, placeless_moved, placelessAll_movedAll]
  termination_by structural xs

end

theorem isTarget_moved (f : Pos → Pos) (x : Node) : (x.moved f).isTarget = x.isTarget := by
  rw [← isTarget_placeless, placeless_moved, isTarget_placeless]

theorem typeName_moved (f : Pos → Pos) (x : Node) : (x.moved f).typeName = x.typeName := by
  rw [← typeName_placeless, placeless_moved, typeName_placeless]

end Node

end GnLang
