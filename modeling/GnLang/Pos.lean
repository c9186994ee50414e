/-
Places in a source text.

A place is a line and a column, both counted from one.  Only a newline starts a new
line; every other character, a carriage return included, is one column wide.

* `Pos.next` — the place after one character;
* `Pos.after` — the place after a run of characters, and `Pos.after_append`, which
  lets a run be cut anywhere.
-/

namespace GnLang

/-- A line and a column.  Both may be any integer, since a caller may start a text
wherever it likes; line 0 stands for "no place known". -/
structure Pos where
  line : Int
  col : Int
  deriving DecidableEq, Repr, Inhabited

namespace Pos

/-- Where a text begins. -/
def start : Pos := ⟨1, 1⟩

/-- The place of something that was not read from a text. -/
def unknown : Pos := ⟨0, 0⟩

/-- The place after the character `c` at `p`. -/
def next (p : Pos) (c : Char) : Pos :=
  if c = '\n' then ⟨p.line + 1, 1⟩ else ⟨p.line, p.col + 1⟩

/-- The place after the characters `cs`, the first of which is at `p`. -/
def after (p : Pos) (cs : List Char) : Pos := cs.foldl next p

@[simp] theorem after_nil (p : Pos) : p.after [] = p := rfl

@[simp] theorem after_cons (p : Pos) (c : Char) (cs : List Char) :
    p.after (c :: cs) = (p.next c).after cs := rfl

theorem after_append (p : Pos) (cs ds : List Char) :
    p.after (cs ++ ds) = (p.after cs).after ds :=
  List.foldl_append

end Pos

end GnLang
