/-
Carriage returns before newlines change nothing.

`restrung f` is the likeness of two runs, the second of which has `f v` in each string where the
first has `v`.  What strings hold is handed on and never looked at; only the message about a
token that was not expected quotes it.

So a text with a carriage return before every newline is read as the text without them: as the
same tree at the same places, with the carriage returns in its strings, or as a failure of the
same class at the same place (`readProgram_withReturns`).
-/
import GnLang.Proofs.Grammar.Likeness
import GnLang.Proofs.Read
import GnLang.Proofs.Scan.Returns
import GnLang.Proofs.Tree.Strings

namespace GnLang

open Grammar

/-- The failure without what was found where something else was expected. -/
def Failure.withoutFound : Failure → Failure
  | .parse ⟨.mismatch expected _, p⟩ => .parse ⟨.mismatch expected "", p⟩
  | .parse ⟨.trailing _, p⟩ => .parse ⟨.trailing "", p⟩
  | f => f

theorem Failure.withoutFound_mismatch (expected found : String) (p : Pos) :
    withoutFound (.parse ⟨.mismatch expected found, p⟩) =
      .parse ⟨.mismatch expected "", p⟩ := rfl

theorem Failure.withoutFound_trailing (text : String) (p : Pos) :
    withoutFound (.parse ⟨.trailing text, p⟩) = .parse ⟨.trailing "", p⟩ := rfl

theorem Node.forall₂_mapStrings {f : String → String} {xs ys : List Node}
    (h : List.Forall₂ (fun x y => x.mapStrings f = y) xs ys) : mapStringsAll f xs = ys := by
  induction h with
  | nil => rfl
  | cons hxy _ ih => rw [mapStringsAll, hxy, ih]

/-- Trees are alike if the second is the first with `f` applied to its strings; failures are
alike if they differ at most in what was found. -/
def restrung (f : String → String) : Likeness where
  place := Eq
  value v w := f v = w
  node x y := x.mapStrings f = y
  failure e g := e.withoutFound = g.withoutFound
  cuts _ := False
  place_node {x y} h := by rw [← h, x.pos_mapStrings]
  isTarget {x y} h := by rw [← h, x.isTarget_mapStrings]
  typeName {x y} h := by rw [← h, x.typeName_mapStrings]
  identifier h := by rw [Node.mapStrings, h]
  string hv h := by rw [Node.mapStrings, hv, h]
  integer h := by rw [Node.mapStrings, h]
  list hxs h := by rw [Node.mapStrings, Node.forall₂_mapStrings hxs, h]
  call ha h := by rw [Node.mapStrings, ha, h]
  bodyCall ha hx h := by rw [Node.mapStrings, ha, hx, h]
  arrayAccess hi h := by rw [Node.mapStrings, hi, h]
  scopeAccess h := by rw [Node.mapStrings, h]
  unary hx h := by rw [Node.mapStrings, hx, h]
  binary hl hr h := by rw [Node.mapStrings, hl, hr, h]
  assignment ht hv h := by rw [Node.mapStrings, ht, hv, h]
  unplaced _ := rfl
  outOfRange h := by rw [h]
  tooDeep h := by rw [h]
  found h := by
    rw [ParseError.unexpected, ParseError.unexpected, h.kind, h.place]
    split
    · rfl
    · rw [Failure.withoutFound_mismatch, Failure.withoutFound_mismatch]
  leftOver h := by
    rw [ParseError.leftOver, ParseError.leftOver, Failure.withoutFound_trailing,
      Failure.withoutFound_trailing, h.place]

theorem Token.alike_withReturns (t : Token) :
    (restrung Text.withReturns).OnTokens t t.withReturns := by
  refine ⟨rfl, fun hk => ?_, fun hk => ?_, rfl⟩
  · rw [withReturns, if_pos hk]
    rfl
  · rw [withReturns_of_ne_string hk]

theorem settingOf_withReturns (ts : List Token) (limit : Int) :
    settingOf (ts.map Token.withReturns) limit = settingOf ts limit := by
  rw [settingOf, settingOf, Parser.setting, Parser.setting, List.getLast?_map]
  cases ts.getLast? <;> rfl

theorem forall₂_withReturns (ts : List Token) :
    List.Forall₂ (restrung Text.withReturns).OnTokens ts (ts.map Token.withReturns) := by
  rw [List.forall₂_map_right_iff, List.forall₂_same]
  exact fun t _ => t.alike_withReturns

/-- With a carriage return before every newline, a text is the same program by the same limits,
at the same places, with the carriage returns in its strings; or it is refused as before, in
the same class and at the same place. -/
theorem readProgram_withReturns (source : String) (limit : Int) :
    (∃ x, readProgram source limit = .ok x ∧
        readProgram (Text.withReturns source) limit = .ok (x.mapStrings Text.withReturns)) ∨
      ∃ f g, readProgram source limit = .error f ∧
        readProgram (Text.withReturns source) limit = .error g ∧
        f.withoutFound = g.withoutFound := by
  have hscan := scanTokens_withReturns source
  cases hts : scanTokens source with
  | error e =>
    rw [hts] at hscan
    exact .inr ⟨_, _, readProgram_of_scanTokens_eq_error hts limit,
      readProgram_of_scanTokens_eq_error hscan limit, rfl⟩
  | ok ts =>
    rw [hts] at hscan
    by_cases hlimit : IsLimit limit
    · rw [readProgram_eq hlimit hts, readProgram_eq hlimit hscan, settingOf_withReturns]
      have hs : (restrung Text.withReturns).OnSettings (settingOf ts limit)
        (settingOf ts limit) := rfl
      rcases (alike_program hs (.same (d := limit.toNat) rfl)).cases (fun _ => id)
        (forall₂_withReturns ts) with ⟨x, _, hx, hy, rfl⟩ | ⟨f, g, hf, hg, hfg⟩
      · exact .inl ⟨x, hx, hy⟩
      · exact .inr ⟨f, g, hf, hg, hfg⟩
    · exact .inr ⟨_, _, readProgram_of_not_isLimit hlimit hts,
        readProgram_of_not_isLimit hlimit hscan, rfl⟩

end GnLang
