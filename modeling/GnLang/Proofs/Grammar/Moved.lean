/-
Tokens at other places.

`shifted f` is the likeness of two runs, the second of which has each token where `f` puts
it.  Places are handed on and never looked at, so the second run makes the same trees, moved
by `f`: `program_moved`.
-/
import GnLang.Proofs.Grammar.Places
import GnLang.Proofs.Tree.Moved

namespace GnLang

theorem Node.forall₂_moved {f : Pos → Pos} {xs ys : List Node}
    (h : List.Forall₂ (fun x y => x.moved f = y ∧ f x.pos = y.pos) xs ys) :
    movedAll f xs = ys := by
  induction h with
  | nil => rfl
  | cons hxy _ ih => rw [movedAll, hxy.1, ih]

/-- Trees are alike if the second is the first, moved by `f`. -/
def shifted (f : Pos → Pos) : Likeness where
  place p q := f p = q
  value := Eq
  node x y := x.moved f = y ∧ f x.pos = y.pos
  failure _ _ := True
  cuts _ := False
  place_node h := h.2
  isTarget {x y} h := by rw [← h.1, x.isTarget_moved]
  typeName {x y} h := by rw [← h.1, x.typeName_moved]
  identifier h := ⟨by rw [Node.moved, h], h⟩
  string hv h := ⟨by rw [Node.moved, h, hv], h⟩
  integer h := ⟨by rw [Node.moved, h], h⟩
  list hxs h := ⟨by rw [Node.moved, h, Node.forall₂_moved hxs], h⟩
  call ha h := ⟨by rw [Node.moved, h, ha.1], h⟩
  bodyCall ha hx h := ⟨by rw [Node.moved, h, ha.1, hx.1], h⟩
  arrayAccess hi h := ⟨by rw [Node.moved, h, hi.1], h⟩
  scopeAccess h := ⟨by rw [Node.moved, h], h⟩
  unary hx h := ⟨by rw [Node.moved, h, hx.1], h⟩
  binary hl hr h := ⟨by rw [Node.moved, h, hl.1, hr.1], h⟩
  assignment ht hv h := ⟨by rw [Node.moved, h, ht.1, hv.1], h⟩
  unplaced _ := trivial
  outOfRange _ := trivial
  tooDeep _ := trivial
  found _ := trivial
  leftOver _ := trivial

namespace Grammar

/-- Where tokens of a program are moved to, they are the moved program. -/
theorem program_moved {f : Pos → Pos} {s s' : Setting} {d : Nat} {ts us rest : List Token}
    {x : Node} (hend : f s.endPos = s'.endPos) (hlimit : s.limit = s'.limit)
    (h : List.Forall₂ (fun t u => t.SameLexeme u ∧ f t.pos = u.pos) ts us)
    (hx : program s d ts = (.ok x, rest)) :
    ∃ rest, program s' d us = (.ok (x.moved f), rest) := by
  have hs : (shifted f).OnSettings s s' := hend
  have htokens : List.Forall₂ (shifted f).OnTokens ts us :=
    h.imp fun _ _ ⟨hsame, hplace⟩ => ⟨hsame.1, fun _ => hsame.2, fun _ => hsame.2, hplace⟩
  obtain ⟨y, rest, hy, rfl, -⟩ :=
    (alike_program hs (.same (d := d) hlimit)).exists_ok htokens hx
  exact ⟨rest, hy⟩

end Grammar

end GnLang
