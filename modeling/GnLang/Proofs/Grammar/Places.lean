/-
The places of tokens do not matter to the grammar.

`forgetful` is the likeness that forgets places: two trees are alike if they are the same
up to places, and so are two failures.  So what the grammar makes of tokens depends, up to
places, on their kinds and texts alone, wherever they stand and wherever the input ends:
`exists_program_of_sameLexemes`, `exists_loneExpression_of_sameLexemes`.
-/
import GnLang.Proofs.Grammar.Likeness
import GnLang.Proofs.Scan.Genuine
import GnLang.Proofs.Tree.Placeless

namespace GnLang

/-- The failure with its place forgotten. -/
def Failure.placeless : Failure → Failure
  | .parse e => .parse ⟨e.reason, .unknown⟩
  | f => f

theorem Token.Alike.sameLexeme {place : Pos → Pos → Prop} {t u : Token}
    (h : Token.Alike place Eq t u) : t.SameLexeme u := by
  refine ⟨h.kind, ?_⟩
  by_cases hk : t.kind = .string
  · exact h.value hk
  · exact h.text hk

theorem Token.SameLexeme.shown {t u : Token} (h : t.SameLexeme u) : t.shown = u.shown := by
  rw [Token.shown, Token.shown, h.1, h.2]

theorem Token.SameLexeme.unexpected {t u : Token} (h : t.SameLexeme u) (expected : String) :
    (ParseError.unexpected expected t).reason = (ParseError.unexpected expected u).reason := by
  rw [ParseError.unexpected, ParseError.unexpected, h.1, h.shown]
  split <;> rfl

/-- Trees and failures are alike if they are the same up to places. -/
def forgetful : Likeness where
  place _ _ := True
  value := Eq
  node x y := x.placeless = y.placeless
  failure e f := e.placeless = f.placeless
  cuts _ := False
  place_node _ := trivial
  isTarget {x y} h := by rw [← x.isTarget_placeless, h, y.isTarget_placeless]
  typeName {x y} h := by rw [← x.typeName_placeless, h, y.typeName_placeless]
  identifier _ := rfl
  string h _ := by rw [h]; rfl
  integer _ := rfl
  list h _ := by rw [Node.placeless, Node.placeless, Node.placelessAll_eq_of_forall₂ h]
  call h _ := by rw [Node.placeless, Node.placeless, h]
  bodyCall ha hx _ := by rw [Node.placeless, Node.placeless, ha, hx]
  arrayAccess h _ := by rw [Node.placeless, Node.placeless, h]
  scopeAccess _ := rfl
  unary h _ := by rw [Node.placeless, Node.placeless, h]
  binary hl hr _ := by rw [Node.placeless, Node.placeless, hl, hr]
  assignment ht hv _ := by rw [Node.placeless, Node.placeless, ht, hv]
  unplaced _ := rfl
  outOfRange _ := rfl
  tooDeep _ := rfl
  found h := by rw [Failure.placeless, Failure.placeless, h.sameLexeme.unexpected]
  leftOver h := by
    rw [Failure.placeless, Failure.placeless, ParseError.leftOver, ParseError.leftOver,
      h.sameLexeme.shown]

theorem forgetful_onTokens {t u : Token} : forgetful.OnTokens t u ↔ t.SameLexeme u :=
  ⟨fun h => h.sameLexeme, fun h => ⟨h.1, fun _ => h.2, fun _ => h.2, trivial⟩⟩

namespace Grammar

variable {s s' : Setting} {d : Nat} {ts us rest : List Token} {x : Node}

theorem forall₂_forgetful (h : List.Forall₂ Token.SameLexeme ts us) :
    List.Forall₂ forgetful.OnTokens ts us :=
  h.imp fun _ _ h => forgetful_onTokens.mpr h

/-- Tokens of the same kinds and texts are a program for the same tree up to places. -/
theorem exists_program_of_sameLexemes (hlimit : s.limit = s'.limit)
    (h : List.Forall₂ Token.SameLexeme ts us) (hx : program s d ts = (.ok x, rest)) :
    ∃ y rest, program s' d us = (.ok y, rest) ∧ x.placeless = y.placeless := by
  have hs : forgetful.OnSettings s s' := trivial
  exact (alike_program hs (.same (d := d) hlimit)).exists_ok (forall₂_forgetful h) hx

/-- Tokens of the same kinds and texts are an expression for the same tree up to places. -/
theorem exists_loneExpression_of_sameLexemes (hlimit : s.limit = s'.limit)
    (h : List.Forall₂ Token.SameLexeme ts us) (hx : loneExpression s d ts = (.ok x, rest)) :
    ∃ y rest, loneExpression s' d us = (.ok y, rest) ∧ x.placeless = y.placeless := by
  have hs : forgetful.OnSettings s s' := trivial
  exact (alike_loneExpression hs (.same (d := d) hlimit)).exists_ok (forall₂_forgetful h) hx

end Grammar

end GnLang
