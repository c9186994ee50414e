/-
What the nesting limit does.

Two runs on one text, under different limits, are the same run until the one with the
smaller limit breaks off (`readProgram_curtailed`).  It breaks off exactly if the program
opens more nestings at once than that limit: `readProgram_limits`.
-/
import GnLang.Proofs.Grammar.Curtailed
import GnLang.Proofs.Grammar.Nesting
import GnLang.Proofs.Read

namespace GnLang

open Grammar

variable {source : String} {d d' : Int}

/-- Under a smaller limit a text is read as under a larger one, or said to exceed it. -/
theorem readProgram_curtailed (hd : IsLimit d) (hd' : IsLimit d') (hle : d ≤ d') :
    readProgram source d = readProgram source d' ∨
      ∃ f, readProgram source d = .error f ∧ f.IsTooDeep d := by
  cases hts : scanTokens source with
  | error e =>
    -- no limit is looked at before the text has tokens
    rw [readProgram_of_scanTokens_eq_error hts, readProgram_of_scanTokens_eq_error hts]
    exact .inl rfl
  | ok ts =>
    rw [readProgram_eq hd hts, readProgram_eq hd' hts]
    have hlimit : ((settingOf ts d).limit : Int) = d :=
      Int.toNat_of_nonneg (Int.le_trans (by decide) hd.1)
    have hend : (settingOf ts d).endPos = (settingOf ts d').endPos := rfl
    rcases program_curtailed hend (Int.toNat_le_toNat hle) ts with heq | ⟨f, hf, hdeep⟩
    · exact .inl heq
    · exact .inr ⟨f, hf, hlimit ▸ hdeep⟩

/-- A larger limit changes nothing unless the smaller one is exceeded.  What is read under
the greatest limit has a number of nestings that are open at once where most are; it is
read under every limit that is no less than this number, and every other limit is said to
be exceeded. -/
theorem readProgram_limits (source : String) :
    (∀ d d' : Int, IsLimit d → IsLimit d' → d ≤ d' →
      (∀ limit p, readProgram source d ≠ .error (.parse ⟨.tooDeep limit, p⟩)) →
      readProgram source d' = readProgram source d) ∧
    ∀ x, readProgram source greatestLimit = .ok x →
      ∃ ts, scanTokens source = .ok ts ∧ (∃ n, NestsProgram n ts x) ∧
        ∀ n, NestsProgram n ts x → ∀ d : Int, IsLimit d →
          if n ≤ d then readProgram source d = .ok x
          else ∃ p, readProgram source d = .error (.parse ⟨.tooDeep d, p⟩) := by
  constructor
  · intro d d' hd hd' hle hdeep
    rcases readProgram_curtailed hd hd' hle with heq | ⟨_, hf, p, rfl⟩
    · exact heq.symm
    · exact absurd hf (hdeep d p)
  · intro x hx
    obtain ⟨hmost, ts, hts⟩ := exists_of_readProgram hx
    refine ⟨ts, hts, ((readProgram_eq_ok hmost hts).mp hx).exists_nests, ?_⟩
    intro n hn d hd
    have hread : readProgram source d = .ok x ↔ n ≤ d := by
      rw [readProgram_eq_ok hd hts, hn.derives_iff, Int.le_toNat (Int.le_trans (by decide) hd.1)]
    split
    · rename_i hle
      exact hread.mpr hle
    · rename_i hlt
      -- not read under this limit, though under the greatest: so this one was exceeded
      rcases readProgram_curtailed hd hmost hd.2 with heq | ⟨_, hf, p, rfl⟩
      · exact absurd (hread.mp (heq.trans hx)) hlt
      · exact ⟨p, hf⟩

/-- Nestings that are open one after the other do not add up: with two lists inside a third,
only two nestings are open at once. -/
theorem readProgram_limits_lists :
    (∃ x, readProgram "x = [[], []]" 2 = .ok x ∧ readProgram "x = [[], []]" 3 = .ok x) ∧
      ∃ p, readProgram "x = [[], []]" 1 = .error (.parse ⟨.tooDeep 1, p⟩) := by
  have hts : scanTokens "x = [[], []]" = .ok
      ([.word "x" ⟨1, 1⟩, .mark .assign ⟨1, 3⟩, .mark .lbrack ⟨1, 5⟩, .mark .lbrack ⟨1, 6⟩,
        .mark .rbrack ⟨1, 7⟩, .mark .comma ⟨1, 8⟩, .mark .lbrack ⟨1, 10⟩,
        .mark .rbrack ⟨1, 11⟩, .mark .rbrack ⟨1, 12⟩] ++ [.endAt ⟨1, 13⟩]) := by
    rw [scanTokens_eq_ok]
    repeat' first
      | exact .last rfl rfl
      | refine .more rfl (by decide) ?_
  have hempty : ∀ p q k, k.isBinary = false →
      Nests 1 (.expression (.list [] p)) [.mark .lbrack p, .mark .rbrack q] k :=
    fun p q k hk => .expression (.ofPrimary (.list .noElements)) (.noOperator hk)
  have hlists := Nests.elementComma (p := ⟨1, 8⟩) (hempty ⟨1, 6⟩ ⟨1, 7⟩ _ rfl)
    (.element (hempty ⟨1, 10⟩ ⟨1, 11⟩ (.symbol .rbrack) rfl) .noElements)
  have hvalue := Nests.expression
    (.ofPrimary (.list (p := ⟨1, 5⟩) (q := ⟨1, 12⟩) (k := .endOfInput) hlists)) (.noOperator rfl)
  have htarget : Nests 0 (.target (.identifier "x" ⟨1, 1⟩)) [.word "x" ⟨1, 1⟩]
      (.symbol AssignOp.set.symbol) := .identifier (by decide) (by decide) (by decide)
  have hprogram : NestsProgram 2 _ _ := .intro (e := .endAt ⟨1, 13⟩) rfl
    (.statement (.assignment (p := ⟨1, 3⟩) htarget hvalue) .noStatements)
  have hmost : IsLimit greatestLimit := by decide
  have hread := (readProgram_eq_ok hmost hts).mpr (hprogram.derives_iff.mpr (by decide))
  obtain ⟨hsame, hnested⟩ := readProgram_limits "x = [[], []]"
  obtain ⟨ts, hts', -, hall⟩ := hnested _ hread
  cases hts.symm.trans hts'
  have htwo := hall 2 hprogram 2 (by decide)
  rw [if_pos (by decide)] at htwo
  have hone := hall 2 hprogram 1 (by decide)
  rw [if_neg (by decide)] at hone
  have hthree := hsame 2 3 (by decide) (by decide) (by decide) (by rw [htwo]; nofun)
  exact ⟨⟨_, htwo, hthree.trans htwo⟩, hone⟩

end GnLang
