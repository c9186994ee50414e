/-
Reading a whole text is running a rule on its tokens.

* `readProgram_eq`, `readExpression_eq` — what is read from a text that has tokens, by a
  limit that can be kept;
* `readProgram_eq_ok`, `readExpression_eq_ok` — a text is read exactly if its tokens are
  derived by the grammar.
-/
import GnLang.Proofs.Except
import GnLang.Proofs.Grammar.Completeness
import GnLang.Proofs.Grammar.Soundness
import GnLang.Proofs.Scan.Tokens

namespace GnLang

open Grammar

/-- What rules need to know when the tokens of a text are parsed by a limit. -/
def settingOf (ts : List Token) (limit : Int) : Setting :=
  (⟨ts, 0, limit.toNat, 0⟩ : Parser).setting

/-- Whether a parser can keep the nesting limit. -/
def IsLimit (limit : Int) : Prop := 1 ≤ limit ∧ limit ≤ greatestLimit

instance (limit : Int) : Decidable (IsLimit limit) :=
  inferInstanceAs (Decidable (1 ≤ limit ∧ limit ≤ greatestLimit))

variable {source : String} {limit : Int} {ts : List Token} {x : Node}

theorem ofSource?_eq (hlimit : IsLimit limit) (hts : scanTokens source = .ok ts) :
    Parser.ofSource? source limit = .ok ⟨ts, 0, limit.toNat, 0⟩ := by
  rw [Parser.ofSource?, hts]
  exact if_pos hlimit

theorem readProgram_eq (hlimit : IsLimit limit) (hts : scanTokens source = .ok ts) :
    readProgram source limit = (program (settingOf ts limit) limit.toNat ts).1 := by
  rw [readProgram, ofSource?_eq hlimit hts]
  rfl

theorem readExpression_eq (hlimit : IsLimit limit) (hts : scanTokens source = .ok ts) :
    readExpression source limit = (loneExpression (settingOf ts limit) limit.toNat ts).1 := by
  rw [readExpression, ofSource?_eq hlimit hts]
  rfl

/-- The fault of a text that has no tokens comes before everything else. -/
theorem readProgram_of_scanTokens_eq_error {e : ParseError} (h : scanTokens source = .error e)
    (limit : Int) : readProgram source limit = .error (.parse e) := by
  rw [readProgram, Parser.ofSource?, h]
  rfl

theorem readProgram_of_not_isLimit (hlimit : ¬ IsLimit limit) (hts : scanTokens source = .ok ts) :
    readProgram source limit = .error (.limit limit) := by
  have hparser : Parser.ofTokens? ts limit = .error (.limit limit) := if_neg hlimit
  rw [readProgram, Parser.ofSource?, hts]
  simp only [hparser]
  rfl

theorem readProgram_eq_ok (hlimit : IsLimit limit) (hts : scanTokens source = .ok ts) :
    readProgram source limit = .ok x ↔ DerivesProgram limit.toNat ts x := by
  rw [readProgram_eq hlimit hts]
  constructor
  · intro h
    obtain ⟨w, p, rfl, hw⟩ := scanTokens_eq_append hts
    exact derives_of_program hw rfl (isGenuine_of_scanTokens hts) (Prod.ext h rfl)
  · intro h
    obtain ⟨rest, hr⟩ := h.reads (settingOf ts limit)
    rw [hr]

theorem readExpression_eq_ok (hlimit : IsLimit limit) (hts : scanTokens source = .ok ts) :
    readExpression source limit = .ok x ↔ DerivesExpression limit.toNat ts x := by
  rw [readExpression_eq hlimit hts]
  constructor
  · intro h
    obtain ⟨w, p, rfl, hw⟩ := scanTokens_eq_append hts
    exact derives_of_loneExpression hw rfl (isGenuine_of_scanTokens hts) (Prod.ext h rfl)
  · intro h
    obtain ⟨rest, hr⟩ := h.reads (settingOf ts limit)
    rw [hr]

/-- A text that there is a parser for has tokens, and its limit can be kept. -/
theorem exists_of_ofSource? {p : Parser} (h : Parser.ofSource? source limit = .ok p) :
    IsLimit limit ∧ ∃ ts, scanTokens source = .ok ts := by
  rw [Parser.ofSource?] at h
  cases hts : scanTokens source with
  | error e =>
    rw [hts] at h
    cases h
  | ok ts =>
    rw [hts] at h
    refine ⟨?_, ts, rfl⟩
    by_contra hlimit
    have hparser : Parser.ofTokens? ts limit = .error (.limit limit) := if_neg hlimit
    cases h.symm.trans hparser

/-- A text that is read has tokens, and its limit can be kept. -/
theorem exists_of_readProgram (h : readProgram source limit = .ok x) :
    IsLimit limit ∧ ∃ ts, scanTokens source = .ok ts := by
  obtain ⟨p, hp, -⟩ := bind_ok_iff.mp h
  exact exists_of_ofSource? hp

theorem exists_of_readExpression (h : readExpression source limit = .ok x) :
    IsLimit limit ∧ ∃ ts, scanTokens source = .ok ts := by
  obtain ⟨p, hp, -⟩ := bind_ok_iff.mp h
  exact exists_of_ofSource? hp

end GnLang
