/-
Where the nodes of a program stand.

Places take no part when trees are compared, so a wrong one would be noticed nowhere.  They
are those of tokens: every node that a token of its own begins stands at that token, one
node for one such token and in the same order (`readProgram_places`).  The others stand
where their left part does.  So a visit of the program comes to later and later places,
and never goes back.
-/
import GnLang.Proofs.Calls
import GnLang.Proofs.Grammar.Openings
import GnLang.Proofs.Grammar.Order
import GnLang.Proofs.Lossless

namespace GnLang

open Grammar

variable {source : String} {limit : Int} {x : Node}

/-- The tokens `t`, `ts` of a text tell where the nodes `x`, `ns` that a visit of its program
sees stand.  The program stands at the first token, the end of the input if there is no
statement.  The tokens that begin a node begin, one for one, all others but operations
between two operands and assignments.  Those stand where their left part does.  The places
never go back, and within a list they go on from element to element. -/
theorem readProgram_places (h : readProgram source limit = .ok x) :
    ∃ t ts xs ns, Covers [] source.toList (t :: ts) ∧ x = .list xs t.pos ∧
      (xs = [] → t.kind = .endOfInput) ∧ x.visit = ⟨x :: ns, none⟩ ∧
      (Node.openedAll xs).map Prod.snd = ns.filter Node.isOpened ∧
      List.Forall₂ OpenedBy (Node.openedAll xs) (openings .fresh (t :: ts)) ∧
      (∀ y ∈ x :: ns, y.IsPlaced) ∧ (x :: ns).Pairwise (·.pos ≤ ·.pos) := by
  obtain ⟨hnodes, -⟩ := properCalls_of_readProgram h
  obtain ⟨hlimit, ts, hts⟩ := exists_of_readProgram h
  have hcovers := scanTokens_eq_ok_iff_covers.mp hts
  have hsorted := sorted_of_scanTokens hts
  have hvisit := Node.visit_of_foreign?_eq_none hnodes
  obtain ⟨he, hxs⟩ := (readProgram_eq_ok hlimit hts).mp h
  rename_i xs w e
  have hopens := hxs.opens_program he
  obtain ⟨-, hpositions, hplaced⟩ := hxs.stands_program hsorted
  have hopened := Node.map_snd_openedAll xs
  cases w with
  | nil =>
    exact ⟨e, [], xs, _, hcovers, rfl, fun _ => he, hvisit, hopened, hopens, hplaced, hpositions⟩
  | cons t w =>
    refine ⟨t, w ++ [e], xs, _, hcovers, rfl, ?_, hvisit, hopened, hopens, hplaced, hpositions⟩
    intro hnil
    cases hxs.statements_eq_nil.mp hnil

/-- The parentheses leave no node behind: the difference stands where the word inside them
does, and the integer at its sign. -/
theorem readProgram_places_parentheses :
    ∃ x ns, readProgram "x = [(a) - -1 (b)]" 2 = .ok x ∧ x.visit = ⟨x :: ns, none⟩ ∧
      (x :: ns).map (·.pos) = [⟨1, 1⟩, ⟨1, 1⟩, ⟨1, 1⟩, ⟨1, 5⟩, ⟨1, 7⟩, ⟨1, 7⟩, ⟨1, 12⟩, ⟨1, 16⟩] ∧
      (x :: ns).Pairwise (·.pos ≤ ·.pos) := by
  have hlimit : IsLimit 2 := by decide
  have hts : scanTokens "x = [(a) - -1 (b)]" = .ok
      ([.word "x" ⟨1, 1⟩, .mark .assign ⟨1, 3⟩, .mark .lbrack ⟨1, 5⟩, .mark .lparen ⟨1, 6⟩,
        .word "a" ⟨1, 7⟩, .mark .rparen ⟨1, 8⟩, .mark .sub ⟨1, 10⟩, .mark .sub ⟨1, 12⟩,
        .digits "1" ⟨1, 13⟩, .mark .lparen ⟨1, 15⟩, .word "b" ⟨1, 16⟩, .mark .rparen ⟨1, 17⟩,
        .mark .rbrack ⟨1, 18⟩] ++ [.endAt ⟨1, 19⟩]) := by
    rw [scanTokens_eq_ok]
    repeat' first
      | exact .last rfl rfl
      | refine .more rfl (by decide) ?_
  have hword : ∀ n p, Derives 0 (.expression (.identifier n p)) [.word n p] (.symbol .rparen) :=
    fun _ _ => .expression
      (.ofPrimary (.ofTarget (.identifier (by decide) (by decide) (by decide)))) (.noOperator rfl)
  have hgrouped : ∀ n p q r k, Derives 1 (.unary (.identifier n q))
      [.mark .lparen p, .word n q, .mark .rparen r] k :=
    fun _ _ _ _ _ => .ofPrimary (.parenthesized (hword _ _))
  have hone : Derives 1 (.unary (.integer (-1) ⟨1, 12⟩))
      [.mark .sub ⟨1, 12⟩, .digits "1" ⟨1, 13⟩] (.symbol .lparen) :=
    .ofPrimary (.negative (n := 1) (Text.numeral_toString 1) (by decide))
  have hdifference := Derives.expression (hgrouped "a" ⟨1, 6⟩ ⟨1, 7⟩ ⟨1, 8⟩ _)
    (.operator (o := .sub) (p := ⟨1, 10⟩) hone (.noOperator rfl))
  have hlist := Derives.list (p := ⟨1, 5⟩) (q := ⟨1, 18⟩) (k := .endOfInput)
    (.element hdifference (.element
      (.expression (hgrouped "b" ⟨1, 15⟩ ⟨1, 16⟩ ⟨1, 17⟩ _) (.noOperator rfl)) .noElements))
  have htarget : Derives 2 (.target (.identifier "x" ⟨1, 1⟩)) [.word "x" ⟨1, 1⟩]
      (.symbol AssignOp.set.symbol) := .identifier (by decide) (by decide) (by decide)
  have hprogram := DerivesProgram.intro (e := .endAt ⟨1, 19⟩) rfl
    (.statement (.assignment (p := ⟨1, 3⟩) htarget
      (.expression (.ofPrimary hlist) (.noOperator rfl))) .noStatements)
  have hread := (readProgram_eq_ok hlimit hts).mpr hprogram
  obtain ⟨t, ts, xs, ns, -, -, -, hvisit, -, -, -, hplaces⟩ := readProgram_places hread
  have hpreorder := Node.visit_of_foreign?_eq_none (properCalls_of_readProgram hread).1
  cases hpreorder.symm.trans hvisit
  exact ⟨_, _, hread, hvisit, rfl, hplaces⟩

end GnLang
