/-
Runs with fewer nestings.

`curtailed limit` is the likeness of two runs on the same tokens, the first of which has
fewer nestings to open.  Until it lacks one both runs do the same; there it breaks off, and
says that the limit is exceeded.

* `program_curtailed` — with fewer nestings the rule for programs does what it does with
  more, or breaks off.
-/
import GnLang.Proofs.Grammar.Likeness
import GnLang.Proofs.Grammar.Places

namespace GnLang

/-- What a run says that breaks off at the limit. -/
def Failure.IsTooDeep (limit : Int) (f : Failure) : Prop :=
  ∃ p, f = .parse ⟨.tooDeep limit, p⟩

theorem Token.Alike.eq {t u : Token} (h : Token.Alike Eq Eq t u) : t = u := by
  obtain ⟨hkind, htext⟩ := h.sameLexeme
  cases t
  cases u
  cases hkind
  cases htext
  cases h.place
  rfl

/-- Two runs do the same, except that the first may break off at the limit. -/
def curtailed (limit : Int) : Likeness where
  place := Eq
  value := Eq
  node := Eq
  failure := Eq
  cuts := Failure.IsTooDeep limit
  place_node h := congrArg Node.pos h
  isTarget h := congrArg Node.isTarget h
  typeName h := congrArg Node.typeName h
  identifier h := by rw [h]
  string hv hp := by rw [hv, hp]
  integer h := by rw [h]
  list hxs hp := by
    rw [List.forall₂_eq_eq_eq] at hxs
    rw [hxs, hp]
  call ha hp := by rw [ha, hp]
  bodyCall ha hx hp := by rw [ha, hx, hp]
  arrayAccess hi hp := by rw [hi, hp]
  scopeAccess h := by rw [h]
  unary hx hp := by rw [hx, hp]
  binary hl hr hp := by rw [hl, hr, hp]
  assignment ht hv hp := by rw [ht, hv, hp]
  unplaced _ := rfl
  outOfRange h := by rw [h]
  tooDeep h := by rw [h]
  found h := by rw [h.eq]
  leftOver h := by rw [h.eq]

namespace Grammar

/-- With fewer nestings to open, the rule for programs does the same or breaks off. -/
theorem program_curtailed {s s' : Setting} {d d' : Nat} (hend : s.endPos = s'.endPos)
    (hd : d ≤ d') (ts : List Token) :
    (program s d ts).1 = (program s' d' ts).1 ∨
      ∃ f, (program s d ts).1 = .error f ∧ f.IsTooDeep s.limit := by
  have hdepths : (curtailed s.limit).OnDepths s s' d d' := .cut (fun p => ⟨p, rfl⟩) hd
  have hs : (curtailed s.limit).OnSettings s s' := hend
  have htokens : List.Forall₂ (curtailed s.limit).OnTokens ts ts :=
    List.forall₂_same.mpr fun _ _ => ⟨rfl, fun _ => rfl, fun _ => rfl, rfl⟩
  have hanswers := alike_program hs hdepths ts ts htokens
  generalize program s d ts = answer at hanswers ⊢
  generalize program s' d' ts = answer' at hanswers ⊢
  cases hanswers with
  | ok hx _ => exact .inl (congrArg Except.ok hx)
  | error he _ => exact .inl (congrArg Except.error he)
  | cut he => exact .inr ⟨_, rfl, he⟩

end Grammar

end GnLang
