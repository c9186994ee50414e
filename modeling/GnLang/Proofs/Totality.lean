/-
Reading always ends, in one of the ways it should.

A text is read as a tree, or refused for one of four reasons that callers tell apart
(`Failure.IsSyntactic`); no node is ever refused by its own checks, and nothing is read that
is not there.  A repetition of the grammar is the iteration of a round that consumes a
token whenever it goes on (`Rule.Iterates`).

* `endsWell_program`, `endsWell_loneExpression` — the rules for whole texts;
* `loopsConsume` — the four repetitions;
* `read_total` — reading from text to tree.
-/
import GnLang.Proofs.Grammar.Decisions
import GnLang.Proofs.Read
import GnLang.Proofs.Scan.Reading

namespace GnLang

/-! ### Failures -/

/-- The failures of texts: something else was expected, the input stopped too early, it went
on too long, or the nesting is too deep. -/
inductive Failure.IsSyntactic : Failure → Prop where
  | mismatch {expected found : String} {p : Pos} :
      IsSyntactic (.parse ⟨.mismatch expected found, p⟩)
  | incomplete {text : String} {p : Pos} : IsSyntactic (.parse ⟨.incomplete text, p⟩)
  | trailing {text : String} {p : Pos} : IsSyntactic (.parse ⟨.trailing text, p⟩)
  | tooDeep {limit : Int} {p : Pos} : IsSyntactic (.parse ⟨.tooDeep limit, p⟩)

/-- There is an answer, or a failure as texts have them. -/
def EndsWell {α : Type} (answer : Except Failure α) : Prop :=
  (∃ x, answer = .ok x) ∨ ∃ f, answer = .error f ∧ f.IsSyntactic

theorem isSyntactic_unexpected (expected : String) (t : Token) :
    (Failure.parse (.unexpected expected t)).IsSyntactic := by
  rw [ParseError.unexpected]
  split
  · exact .incomplete
  · exact .mismatch

/-- All that keeps a text from having tokens is that it stops too early. -/
theorem isSyntactic_of_scanTokens {source : String} {e : ParseError}
    (h : scanTokens source = .error e) : (Failure.parse e).IsSyntactic := by
  have htoken : ∀ {s r : Scan}, s.token = (.error e, r) → (Failure.parse e).IsSyntactic := by
    intro s r ht
    rw [Scan.token, Scan.tokenHere] at ht
    split at ht
    · cases ht
    · split at ht <;> cases ht <;> exact .incomplete
  rw [scanTokens] at h
  generalize [] = done at h
  generalize Scan.ofString source = s at h
  fun_induction Scan.tokensOnto done s with
  | case1 done s e r ht =>
    cases h
    exact htoken ht
  | case2 done s t r ht hk => cases h
  | case3 done s t r ht hk ih => exact ih h

/-- A text has tokens, the last of them the end of the input, or stops too early. -/
theorem scanTokens_cases (source : String) :
    (∃ e, scanTokens source = .error e ∧ (Failure.parse e).IsSyntactic) ∨
      ∃ w p, scanTokens source = .ok (w ++ [.endAt p]) ∧ Grammar.Proper w := by
  cases hts : scanTokens source with
  | error e => exact .inl ⟨e, rfl, isSyntactic_of_scanTokens hts⟩
  | ok ts =>
    obtain ⟨w, p, rfl, -⟩ := scanTokens_eq_append hts
    exact .inr ⟨w, p, rfl, Grammar.proper_of_scanTokens hts⟩

namespace Grammar

open Rule

variable {s : Setting} {P : TokenKind → Prop}

theorem Refusal.isSyntactic {f : Failure} {q : List Token} (h : Refusal f q) :
    f.IsSyntactic := by
  cases h with
  | unexpected _ => exact isSyntactic_unexpected _ _
  | leftOver _ => exact .trailing
  | tooDeep => exact .tooDeep
  | outOfRange => exact .mismatch

/-! ### Whole texts -/

/-- A rule that foresees what it makes of tokens ends well where the input ends. -/
theorem Foresees.endsWell {α : Type} {r : Rule α} (h : Foresees s P r) {u : List Token}
    (hu : Proper u) {e : Token} (he : e.kind = .endOfInput) : EndsWell (r (u ++ [e])).1 := by
  cases h u hu with
  | @settles x q _ hr => exact .inl ⟨x, by rw [hr]⟩
  | refuses hr =>
    obtain ⟨f, q, hf, hrefusal⟩ := hr [e]
    exact .inr ⟨f, by rw [hf], hrefusal.isSyntactic⟩
  | waits hr =>
    rcases hr.atEnd e he with ⟨x, hx⟩ | ⟨expected, hf⟩
    · exact .inl ⟨x, by rw [hx]⟩
    · exact .inr ⟨_, by rw [hf], isSyntactic_unexpected expected e⟩

theorem endsWell_program {u : List Token} (hu : Proper u) {e : Token}
    (he : e.kind = .endOfInput) (d : Nat) : EndsWell (program s d (u ++ [e])).1 := by
  rw [program_apply, bind_apply]
  have hitems := (foresees_items (s := s) d).endsWell hu he
  rcases hr : items s d (u ++ [e]) with ⟨_ | xs, rest⟩ <;> rw [hr] at hitems
  · exact hitems.imp (fun ⟨_, hx⟩ => nomatch hx) fun ⟨f, hf, hsyntactic⟩ =>
      ⟨f, by cases hf; rfl, hsyntactic⟩
  · exact .inl ⟨_, rfl⟩

theorem endsWell_loneExpression {u : List Token} (hu : Proper u) {e : Token}
    (he : e.kind = .endOfInput) (d : Nat) : EndsWell (loneExpression s d (u ++ [e])).1 :=
  (foresees_loneExpression d).endsWell hu he

/-! ### Looking ahead -/

theorem secondKind_drop (ts : List Token) (n : Nat) :
    secondKind (ts.drop n) = (ts[n + 1]?.map Token.kind).getD .endOfInput := by
  rw [← List.getElem?_drop]
  match ts.drop n with
  | [] | [_] | _ :: _ :: _ => rfl

/-- A parser looks no further than the token behind the one at its position, and there it
finds one, or the end of the input. -/
theorem exists_ahead (p : Parser) : ∃ t, p.ahead 1 = .ok t ∧ t.kind = secondKind p.rest := by
  have hindex : (p.position : Int) + 1 = (p.position + 1 : Nat) := by omega
  rw [Parser.ahead, Parser.rest, secondKind_drop, hindex, pick?_natCast]
  by_cases hend : p.tokens.length ≤ p.position + 1
  · rw [if_pos (by omega), List.getElem?_eq_none hend]
    exact ⟨_, rfl, rfl⟩
  · rw [if_neg (by omega), List.getElem?_eq_getElem (by omega)]
    exact ⟨_, rfl, rfl⟩

end Grammar

/-! ### Repetitions -/

/-- `loop` is the iteration of `round`, which consumes a token whenever it goes on. -/
structure Rule.Iterates {ρ σ : Type} (loop : σ → Rule ρ) (round : σ → Rule (ρ ⊕ σ)) : Prop where
  unfolds : ∀ a, loop a = round a >>= Sum.elim pure loop
  consumes : Consuming round

namespace Grammar

open Rule

/-- The repetitions of the grammar, where `d` nestings may be opened: the items of a list,
the arguments of a call, the operators after an operand, and the statements of a block. -/
structure LoopsConsume (s : Setting) (d : Nat) : Prop where
  elements : Iterates
    (fun done => do elements s (expression s (insideOf s d)) (← remaining) done)
    (elementRound s (expression s (insideOf s d)))
  arguments : Iterates
    (fun done => do arguments s (expression s (insideOf s d)) (← remaining) done)
    (argumentRound s (expression s (insideOf s d)))
  chain : Iterates
    (fun left => do chain s (unary s (insideOf s d)) (← remaining) left)
    (chainRound s (unary s (insideOf s d)))
  statements : Iterates
    (fun done => do repeated s (statement s (insideOf s d)) (← remaining) done)
    (statementRound s (statement s (insideOf s d)))

theorem iterates_repeats {ρ σ : Type} {round : σ → Rule (ρ ⊕ σ)} (close : σ → ρ)
    (h : Consuming round) : Iterates (repeats round close) round :=
  ⟨repeats_eq h, h⟩

theorem loopsConsume (s : Setting) (d : Nat) : LoopsConsume s d := by
  have hexpression := progresses_expression s fun _ => progresses_insideOf s d
  have hunary := progresses_unary s fun _ => progresses_insideOf s d
  have hstatement := (begins_statement s fun _ => progresses_insideOf s d).progresses
  constructor
  · simp only [elements_remaining]
    exact iterates_repeats _ (consuming_elementRound s hexpression)
  · simp only [arguments_remaining]
    exact iterates_repeats _ (consuming_argumentRound s hexpression)
  · simp only [chain_remaining]
    exact iterates_repeats _ (consuming_chainRound s hunary)
  · simp only [repeated_remaining]
    exact iterates_repeats _ (consuming_statementRound s hstatement)

end Grammar

/-! ### From text to tree -/

open Grammar

/-- What keeps a text from being read, by a limit that can be kept, is a failure of texts. -/
theorem isSyntactic_of_readProgram {source : String} {limit : Int} {f : Failure}
    (hlimit : IsLimit limit) (h : readProgram source limit = .error f) : f.IsSyntactic := by
  rcases scanTokens_cases source with ⟨e, he, hsyntactic⟩ | ⟨w, p, hts, hw⟩
  · cases h.symm.trans (readProgram_of_scanTokens_eq_error he limit)
    exact hsyntactic
  · rw [readProgram_eq hlimit hts] at h
    have hends := endsWell_program (s := settingOf (w ++ [.endAt p]) limit) hw
      (e := .endAt p) rfl limit.toNat
    rw [h] at hends
    rcases hends with ⟨x, hx⟩ | ⟨g, hg, hsyntactic⟩
    · cases hx
    · cases hg
      exact hsyntactic

/-- By a limit that can be kept, every text is read as a tree or refused as texts are, as a
program and as an expression.  Its tokens are found by reading one character after the
other, and no read goes past the end; nor does a look ahead among the tokens.  And however
deep a repetition stands, each of its rounds consumes a token. -/
theorem read_total {limit : Int} (hlimit : IsLimit limit) (source : String) :
    EndsWell (readProgram source limit) ∧ EndsWell (readExpression source limit) ∧
      (∀ r, Cursor.ReadsTokens (.ofString source) r ↔
        r = (scanTokens source).mapError .lexical) ∧
      (∀ p : Parser, ∃ t, p.ahead 1 = .ok t ∧ t.kind = secondKind p.rest) ∧
      ∀ s d, LoopsConsume s d := by
  refine ⟨?_, ?_, fun r => Cursor.readsTokens_iff, exists_ahead, loopsConsume⟩
  · rcases scanTokens_cases source with ⟨e, he, hsyntactic⟩ | ⟨w, p, hts, hw⟩
    · rw [readProgram, Parser.ofSource?, he]
      exact .inr ⟨_, rfl, hsyntactic⟩
    · rw [readProgram_eq hlimit hts]
      exact endsWell_program hw rfl _
  · rcases scanTokens_cases source with ⟨e, he, hsyntactic⟩ | ⟨w, p, hts, hw⟩
    · rw [readExpression, Parser.ofSource?, he]
      exact .inr ⟨_, rfl, hsyntactic⟩
    · rw [readExpression_eq hlimit hts]
      exact endsWell_loneExpression hw rfl _

/-- The greatest limit can be kept; by it, a number that is too large is refused as a
mismatch, and the checks of its node are not reached. -/
theorem read_total_number :
    IsLimit 100 ∧ EndsWell (readProgram "x = 9223372036854775808 - 1" 100) ∧
      EndsWell (readExpression "9223372036854775808 - 1" 100) := by
  have hlimit : IsLimit 100 := by decide
  exact ⟨hlimit, (read_total hlimit _).1, (read_total hlimit _).2.1⟩

end GnLang
