/-
The parser reads exactly the language of the grammar.

`readProgram_exact` brings the two halves together: what is read from a text is derived by
the grammar from its tokens within the nesting limit, what is derived is read, and no
tokens are derived in two ways, not even when more nestings are allowed.
-/
import GnLang.Proofs.Read

namespace GnLang

open Grammar

/-- A text that has tokens is read as the tree `x` exactly if the grammar derives `x` from
its tokens with no more nestings open at once than the limit allows; and the grammar
derives at most one tree from them.  The places in the tree are those of the tokens. -/
theorem readProgram_exact {source : String} {limit : Int} {ts : List Token}
    (hlimit : IsLimit limit) (hts : scanTokens source = .ok ts) :
    (∀ x, readProgram source limit = .ok x ↔ DerivesProgram limit.toNat ts x) ∧
      ∀ d d' x y, DerivesProgram d ts x → DerivesProgram d' ts y → x = y := by
  constructor
  · intro x
    exact readProgram_eq_ok hlimit hts
  · intro d d' x y hx hy
    exact hx.unique hy

/-- An index binds to the word before it, blank or no blank: the list has one item. -/
theorem readProgram_exact_index :
    IsLimit 2 ∧ (∃ ts, scanTokens "x = [a [1]]" = .ok ts) ∧
      readProgram "x = [a [1]]" 2 = .ok (.list [.assignment (.identifier "x" ⟨1, 1⟩) .set
        (.list [.arrayAccess "a" (.integer 1 ⟨1, 9⟩) ⟨1, 6⟩] ⟨1, 5⟩) ⟨1, 1⟩] ⟨1, 1⟩) := by
  have hlimit : IsLimit 2 := by decide
  have hts : scanTokens "x = [a [1]]" = .ok
      [.word "x" ⟨1, 1⟩, .mark .assign ⟨1, 3⟩, .mark .lbrack ⟨1, 5⟩, .word "a" ⟨1, 6⟩,
        .mark .lbrack ⟨1, 8⟩, .digits "1" ⟨1, 9⟩, .mark .rbrack ⟨1, 10⟩,
        .mark .rbrack ⟨1, 11⟩, .endAt ⟨1, 12⟩] := by
    rw [scanTokens_eq_ok]
    repeat' first
      | exact .last rfl rfl
      | refine .more rfl (by decide) ?_
  have hone : Derives 0 (.expression (.integer 1 ⟨1, 9⟩)) [.digits "1" ⟨1, 9⟩]
      (.symbol .rbrack) :=
    .expression (.ofPrimary (.number (Text.numeral_toString 1) rfl)) (.noOperator rfl)
  have hitem : Derives 1 (.expression (.arrayAccess "a" (.integer 1 ⟨1, 9⟩) ⟨1, 6⟩))
      [.word "a" ⟨1, 6⟩, .mark .lbrack ⟨1, 8⟩, .digits "1" ⟨1, 9⟩, .mark .rbrack ⟨1, 10⟩]
      (.symbol .rbrack) :=
    .expression (.ofPrimary (.ofTarget (.arrayAccess hone))) (.noOperator rfl)
  have hlist := Derives.list (p := ⟨1, 5⟩) (q := ⟨1, 11⟩) (k := .endOfInput)
    (.element hitem .noElements)
  have hvalue := Derives.expression (.ofPrimary hlist) (.noOperator rfl)
  have htarget : Derives 2 (.target (.identifier "x" ⟨1, 1⟩)) [.word "x" ⟨1, 1⟩]
      (.symbol AssignOp.set.symbol) := .identifier (by decide) (by decide) (by decide)
  have hstatement := Derives.assignment (p := ⟨1, 3⟩) htarget hvalue
  have hprogram := DerivesProgram.intro (e := .endAt ⟨1, 12⟩) rfl
    (.statement hstatement .noStatements)
  exact ⟨hlimit, ⟨_, hts⟩, ((readProgram_exact hlimit hts).1 _).mpr hprogram⟩

end GnLang
