/-
Trees that are read, and the nestings of their canonical texts.

`need` counts on the tree what its canonical text opens.  Its tokens say the same:
`nests_formatted` and `nests_layout`.  What is read from a text can be written, and its
canonical text opens no more nestings than the text was allowed: `read_fits`.
-/
import GnLang.Proofs.Format.Written
import GnLang.Proofs.Grammar.Nesting

namespace GnLang

mutual

/-- How many nestings the canonical text of a tree opens depends on no places. -/
theorem need_placeless (x : Node) : need x.placeless = need x := by
  cases x with
  | list xs p => rw [Node.placeless, need, need, needs_placelessAll]
  | call n a b p =>
    cases b with
    | none => rw [Node.placeless, need, need, need_placeless]
    | some b => rw [Node.placeless, need, need, need_placeless, need_placeless]
  | arrayAccess n i p => rw [Node.placeless, need, need, need_placeless]
  | unary o x p =>
    rw [Node.placeless, need, need, need_placeless, parentheses, parentheses,
      Format.isBinary_placeless]
  | binary l o r p =>
    rw [Node.placeless, need, need, need_placeless, need_placeless, parentheses, parentheses,
      Format.isBinary_placeless]
  | assignment t o v p => rw [Node.placeless, need, need, need_placeless, need_placeless]
  | foreign f => cases f <;> rfl
  | _ => rfl
  termination_by structural x

theorem needs_placelessAll (xs : List Node) : needs (Node.placelessAll xs) = needs xs := by
  cases xs with
  | nil => rfl
  | cons x xs => rw [Node.placelessAll, needs, needs, need_placeless, needs_placelessAll]
  termination_by structural xs

end

namespace Format

open Grammar

variable {x : Node} {xs : List Node}

/-- The canonical text of a program opens `needs` nestings at once where it opens most. -/
theorem nests_formatted (hxs : ∀ x ∈ xs, WellFormed .statement x) (p : Pos) :
    ∃ text ts y, formatted (.list xs p) = .ok text ∧ scanTokens text = .ok ts ∧
      NestsProgram (needs xs) ts y ∧ y.same (.list xs p) = true := by
  obtain ⟨texts, htexts, hlaid⟩ := exists_lines hxs
  obtain ⟨ts, y, hts, hy, hyx⟩ := exists_of_laidOut (p := p) hlaid (Nat.le_refl _)
  obtain ⟨n, hn⟩ := hy.exists_nests
  -- the tree that is read back needs what it opens, and it is the tree that was written
  obtain ⟨ys, q, rfl, hys, hneed⟩ :=
    (hn.derives_iff.mpr (Nat.le_refl n)).fits (isGenuine_of_scanTokens hts)
  obtain ⟨hplaceless, -⟩ := Node.list.inj hyx
  have hneeds : needs ys = needs xs := by
    rw [← needs_placelessAll, hplaceless, needs_placelessAll]
  obtain rfl : n = needs xs := Nat.le_antisymm (hn.derives_iff.mp hy) (hneeds ▸ hneed)
  refine ⟨_, ts, _, formatted_eq hxs htexts, hts, hn, ?_⟩
  exact Node.same_of_placeless_eq (foreignIn?_eq_none fun y hy => (hys y hy).foreign?_eq_none) hyx

/-- The canonical text of an expression opens `need` nestings at once where it opens most. -/
theorem nests_layout (hx : WellFormed .expression x) (indent : Int) :
    ∃ text ts y, layout indent x = .ok text ∧ scanTokens text = .ok ts ∧
      NestsExpression (need x) ts y ∧ y.same x = true := by
  obtain ⟨text, htext, hlaid⟩ := exists_layout hx indent
  obtain ⟨ts, y, hts, hy, hyx⟩ := exists_of_laid (hlaid _ (Nat.le_refl _))
  obtain ⟨n, hle, hn⟩ := hy.exists_nests
  obtain ⟨hwell, hneed⟩ := hn.derives.fits (isGenuine_of_scanTokens hts)
  have hsame : need y = need x := by rw [← need_placeless, hyx, need_placeless]
  obtain rfl : n = need x := Nat.le_antisymm hle (hsame ▸ hneed)
  exact ⟨text, ts, y, htext, hts, hn, Node.same_of_placeless_eq hwell.foreign?_eq_none hyx⟩

/-- A program that is read is a list of statements that can be written, and an expression that
is read can be written.  Their canonical texts open no more nestings at once than the limit. -/
theorem read_fits (source : String) (limit : Int) :
    (∀ x, readProgram source limit = .ok x →
      ∃ xs p, x = .list xs p ∧ (∀ x ∈ xs, WellFormed .statement x) ∧ needs xs ≤ limit ∧
        ∃ text ts y, formatted x = .ok text ∧ scanTokens text = .ok ts ∧
          NestsProgram (needs xs) ts y ∧ y.same x = true) ∧
    (∀ x, readExpression source limit = .ok x →
      WellFormed .expression x ∧ need x ≤ limit ∧ ∀ indent : Int,
        ∃ text ts y, layout indent x = .ok text ∧ scanTokens text = .ok ts ∧
          NestsExpression (need x) ts y ∧ y.same x = true) := by
  constructor
  · intro x hx
    obtain ⟨-, xs, p, rfl, hxs, hneed⟩ := exists_fits hx
    exact ⟨xs, p, rfl, hxs, hneed, nests_formatted hxs p⟩
  · intro x hx
    obtain ⟨hlimit, ts, hts⟩ := exists_of_readExpression hx
    obtain ⟨hwell, hneed⟩ :=
      ((readExpression_eq_ok hlimit hts).mp hx).fits (isGenuine_of_scanTokens hts)
    have := hlimit.1
    exact ⟨hwell, by omega, nests_layout hwell⟩

/-- Four nestings are open in the source, but the parentheses round a single word are not
written. -/
theorem read_fits_parentheses :
    ∃ x, readProgram "x=[!(a+(b))]" 4 = .ok x ∧ ∃ text ts y, formatted x = .ok text ∧
      scanTokens text = .ok ts ∧ NestsProgram 3 ts y ∧ y.same x = true := by
  have hlimit : IsLimit 4 := by decide
  have hts : scanTokens "x=[!(a+(b))]" = .ok
      ([.word "x" ⟨1, 1⟩, .mark .assign ⟨1, 2⟩, .mark .lbrack ⟨1, 3⟩, .mark .not ⟨1, 4⟩,
        .mark .lparen ⟨1, 5⟩, .word "a" ⟨1, 6⟩, .mark .plus ⟨1, 7⟩, .mark .lparen ⟨1, 8⟩,
        .word "b" ⟨1, 9⟩, .mark .rparen ⟨1, 10⟩, .mark .rparen ⟨1, 11⟩, .mark .rbrack ⟨1, 12⟩] ++
          [.endAt ⟨1, 13⟩]) := by
    rw [scanTokens_eq_ok]
    repeat' first
      | exact .last rfl rfl
      | refine .more rfl (by decide) ?_
  have hb : Derives 0 (.expression (.identifier "b" ⟨1, 9⟩)) [.word "b" ⟨1, 9⟩]
      (.symbol .rparen) :=
    .expression (.ofPrimary (.ofTarget (.identifier (by decide) (by decide) (by decide))))
      (.noOperator rfl)
  have ha : Derives 1 (.unary (.identifier "a" ⟨1, 6⟩)) [.word "a" ⟨1, 6⟩] (.symbol .plus) :=
    .ofPrimary (.ofTarget (.identifier (by decide) (by decide) (by decide)))
  have hsum := Derives.expression ha (.operator (o := .add) (p := ⟨1, 7⟩) (k := .symbol .rparen)
    (.ofPrimary (.parenthesized (p := ⟨1, 8⟩) (q := ⟨1, 10⟩) hb)) (.noOperator rfl))
  have hnot := Derives.unary (o := .not) (p := ⟨1, 4⟩)
    (.ofPrimary (.parenthesized (p := ⟨1, 5⟩) (q := ⟨1, 11⟩) (k := .symbol .rbrack) hsum))
  have hlist := Derives.list (p := ⟨1, 3⟩) (q := ⟨1, 12⟩) (k := .endOfInput)
    (.element (.expression hnot (.noOperator rfl)) .noElements)
  have htarget : Derives 4 (.target (.identifier "x" ⟨1, 1⟩)) [.word "x" ⟨1, 1⟩]
      (.symbol AssignOp.set.symbol) := .identifier (by decide) (by decide) (by decide)
  have hprogram := DerivesProgram.intro (e := .endAt ⟨1, 13⟩) rfl
    (.statement (.assignment (p := ⟨1, 2⟩) htarget
      (.expression (.ofPrimary hlist) (.noOperator rfl))) .noStatements)
  have hread := (readProgram_eq_ok hlimit hts).mpr hprogram
  obtain ⟨xs, p, hx, -, -, hwritten⟩ := (read_fits "x=[!(a+(b))]" 4).1 _ hread
  cases hx
  exact ⟨_, hread, hwritten⟩

end Format

end GnLang
