/-
What strings hold does not matter to the grammar.

`kindred` is the likeness that forgets, besides places, what stands in strings: two trees
are alike if they are of one kind, since nothing else of a tree decides whether a text is a
program.  So tokens that differ in their strings and places are a program, or not, together:
`exists_program_of_kindred`.
-/
import GnLang.Proofs.Grammar.Likeness
import GnLang.Proofs.Scan.Genuine

namespace GnLang

/-- Two tokens are of one kind, and have the same text if they are no strings. -/
def Token.Kindred : Token → Token → Prop := Token.Alike (fun _ _ => True) fun _ _ => True

theorem Token.SameLexeme.kindred {t u : Token} (h : t.SameLexeme u) : t.Kindred u :=
  ⟨h.1, fun _ => trivial, fun _ => h.2, trivial⟩

theorem Token.kindred_quoted (value value' : String) (p q : Pos) :
    (quoted value p).Kindred (quoted value' q) :=
  ⟨rfl, fun _ => trivial, fun h => absurd rfl h, trivial⟩

/-- Trees are alike if they are of one kind, and any failures are. -/
def kindred : Likeness where
  place _ _ := True
  value _ _ := True
  node x y := x.typeName = y.typeName ∧ x.isTarget = y.isTarget
  failure _ _ := True
  cuts _ := False
  place_node _ := trivial
  isTarget h := h.2
  typeName h := h.1
  identifier _ := ⟨rfl, rfl⟩
  string _ _ := ⟨rfl, rfl⟩
  integer _ := ⟨rfl, rfl⟩
  list _ _ := ⟨rfl, rfl⟩
  call _ _ := ⟨rfl, rfl⟩
  bodyCall _ _ _ := ⟨rfl, rfl⟩
  arrayAccess _ _ := ⟨rfl, rfl⟩
  scopeAccess _ := ⟨rfl, rfl⟩
  unary _ _ := ⟨rfl, rfl⟩
  binary _ _ _ := ⟨rfl, rfl⟩
  assignment _ _ _ := ⟨rfl, rfl⟩
  unplaced _ := trivial
  outOfRange _ := trivial
  tooDeep _ := trivial
  found _ := trivial
  leftOver _ := trivial

namespace Grammar

variable {s s' : Setting} {d : Nat} {ts us rest : List Token} {x : Node}

/-- If one of two lists of kindred tokens is a program, so is the other. -/
theorem exists_program_of_kindred (hlimit : s.limit = s'.limit)
    (h : List.Forall₂ Token.Kindred ts us) (hx : program s d ts = (.ok x, rest)) :
    ∃ y rest, program s' d us = (.ok y, rest) := by
  have hs : kindred.OnSettings s s' := trivial
  obtain ⟨y, rest, hy, -⟩ := (alike_program hs (.same (d := d) hlimit)).exists_ok h hx
  exact ⟨y, rest, hy⟩

end Grammar

end GnLang
