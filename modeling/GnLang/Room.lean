/-
Room for calls.

A tree is written by functions that call themselves for the parts of the tree, so the taller
a tree is, the more calls are open at once, and a stack has room for so many and no more.  A
`Room` is how many more calls can be opened.  What opens calls leaves less room to what it
calls, and cannot go on where there is not room enough.

Counted are the calls of the program's own functions, and those that write out a value.  The
stack also holds the calls that led to the first of these; there are few of them, and the
theorems are about every room.
-/

namespace GnLang

/-- How many more calls can be open at once. -/
inductive Room where
  | unlimited
  | calls (n : Nat)
  deriving DecidableEq, Repr

namespace Room

/-- The room that there is when a run begins. -/
def usual : Room := calls 1000

/-- Whether there is room for `n` calls. -/
def Holds : Room → Nat → Prop
  | unlimited, _ => True
  | calls m, n => n ≤ m

instance : (room : Room) → (n : Nat) → Decidable (room.Holds n)
  | unlimited, _ => .isTrue trivial
  | calls m, n => inferInstanceAs (Decidable (n ≤ m))

/-- The room that `n` calls leave. -/
def less : Room → Nat → Room
  | unlimited, _ => unlimited
  | calls m, n => calls (m - n)

variable {room : Room} {m n : Nat}

theorem holds_zero : room.Holds 0 := by
  cases room with
  | unlimited => trivial
  | calls k => exact Nat.zero_le k

theorem Holds.mono (h : room.Holds n) (hm : m ≤ n) : room.Holds m := by
  cases room with
  | unlimited => trivial
  | calls k => exact Nat.le_trans hm h

theorem holds_add : room.Holds (m + n) ↔ room.Holds m ∧ (room.less m).Holds n := by
  cases room with
  | unlimited => exact iff_of_true trivial ⟨trivial, trivial⟩
  | calls k =>
    change m + n ≤ k ↔ m ≤ k ∧ n ≤ k - m
    omega

theorem holds_max : room.Holds (max m n) ↔ room.Holds m ∧ room.Holds n := by
  cases room with
  | unlimited => exact iff_of_true trivial ⟨trivial, trivial⟩
  | calls k => exact Nat.max_le

end Room

end GnLang
