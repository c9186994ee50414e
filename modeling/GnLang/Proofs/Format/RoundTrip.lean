/-
Reading what was written, and writing what was read.

Both are about texts that are written, and there is room for the calls or there is not.

* `read_written` — the canonical text of a well-formed program or expression is read as
  that program or expression, by every limit that the text keeps, and no two trees have
  the same text;
* `write_read` — a program that was read has a canonical text; the text is read as the same
  program by the same limit, and is the canonical text of what is read from it.

A chain of operators that is long enough has a text for which there is no room:
`read_written_chain`, `write_read_chain`.
-/
import GnLang.Proofs.Format.Chains

namespace GnLang.Format

open Grammar Token

variable {x y : Node} {xs : List Node} {text : String} {limit : Int}

/-! ### Reading back -/

theorem readExpression_layout (hlimit : IsLimit limit) (hx : WellFormed .expression x)
    (hneed : need x ≤ limit) (depth : Int) :
    ∃ text y, layout depth x = .ok text ∧ readExpression text limit = .ok y ∧
      y.same x = true := by
  obtain ⟨text, htext, hlaid⟩ := exists_layout hx depth
  have hx : Laid limit.toNat x text.toList := hlaid _ (by omega)
  obtain ⟨y, hread, hsame⟩ := exists_readExpression_of_writes hlimit hx.expression
  exact ⟨text, y, htext, hread, hsame⟩

theorem readProgram_formatted (hlimit : IsLimit limit)
    (hxs : ∀ x ∈ xs, WellFormed .statement x) (hneed : needs xs ≤ limit) (p : Pos) :
    ∃ text ys q, (∀ room, formattedIn room (.list xs p) =
        if room.Holds (heightIn "gn" (.list xs p)) then .ok text else .error .stackExhausted) ∧
      readProgram text limit = .ok (.list ys q) ∧ (∀ y ∈ ys, WellFormed .statement y) ∧
      (Node.list ys q).same (.list xs p) = true := by
  obtain ⟨texts, htexts, hlaid⟩ := exists_lines hxs
  obtain ⟨ts, y, hts, hy, hyx⟩ := exists_of_laidOut (p := p) hlaid
    (show needs xs ≤ limit.toNat by omega)
  obtain ⟨ys, q, rfl, hys, -⟩ := hy.fits (isGenuine_of_scanTokens hts)
  refine ⟨_, ys, q, formattedIn_eq hxs htexts, (readProgram_eq_ok hlimit hts).mpr hy, hys, ?_⟩
  exact Node.same_of_placeless_eq (foreignIn?_eq_none fun y hy => (hys y hy).foreign?_eq_none) hyx

/-! ### No two trees have the same text -/

theorem placeless_eq_of_expressions {i j : Int} (hx : WellFormed .expression x)
    (hy : WellFormed .expression y) (htx : layout i x = .ok text)
    (hty : layout j y = .ok text) : x.placeless = y.placeless := by
  have hlaid : LaidOut .expression x text := laidOut_of_layout hx htx
  have hlaid' : LaidOut .expression y text := laidOut_of_layout hy hty
  obtain ⟨ts, x', hts, hx', hxx'⟩ := exists_of_laid (hlaid _ (Nat.le_refl _))
  obtain ⟨ts', y', hts', hy', hyy'⟩ := exists_of_laid (hlaid' _ (Nat.le_refl _))
  -- one text has one list of tokens, and tokens are an expression in one way only
  cases hts.symm.trans hts'
  rw [← hxx', ← hyy', hx'.unique hy']

/-- Tokens that are an assignment are no expression: reading one stops at the operator. -/
theorem not_derivesExpression_of_assignment {d d' : Nat} {t v z : Node} {o : AssignOp}
    {p : Pos} {w : List Token} {e : Token}
    (h : Derives d (.statement (.assignment t o v p)) w .endOfInput) :
    ¬ DerivesExpression d' (w ++ [e]) z := by
  intro hz
  cases h with
  | callStatement h => cases h
  | @assignment _ _ _ _ w u q _ ht _ =>
    have htarget : Derives d (.expression t) (w ++ []) (.symbol o.symbol) :=
      .expression (.ofPrimary (.ofTarget ht)) (.noOperator (by cases o <;> rfl))
    rw [List.append_nil] at htarget
    -- the target alone is read as an expression, which leaves the operator unread
    let s : Setting := ⟨.unknown, 0⟩
    obtain ⟨rest, hread⟩ := (hz.mono (Nat.le_max_right d d')).reads s
    obtain ⟨hread, hend⟩ := loneExpression_eq_ok.mp hread
    have hread' := (htarget.mono (Nat.le_max_left d d')).reads (s := s)
      (mark o.symbol q :: (u ++ [e])) trivial rfl
    have hrest := (Prod.mk.inj (hread'.symm.trans ((congrArg _ (by simp)).trans hread))).2
    rw [← hrest] at hend
    cases hend

theorem placeless_eq_of_statements {i j : Int} (hx : WellFormed .statement x)
    (hy : WellFormed .statement y) (htx : layout i x = .ok text)
    (hty : layout j y = .ok text) : x.placeless = y.placeless := by
  have hlaid : LaidOut .statement x text := laidOut_of_layout hx htx
  have hlaid' : LaidOut .statement y text := laidOut_of_layout hy hty
  obtain ⟨w, e, x', hts, he, hx', hxx'⟩ := exists_of_statement (hlaid _ (Nat.le_refl _))
  obtain ⟨v, e', y', hts', he', hy', hyy'⟩ := exists_of_statement (hlaid' _ (Nat.le_refl _))
  have hpx := DerivesProgram.intro he hx'.statements_singleton
  have hpy := DerivesProgram.intro he' hy'.statements_singleton
  rw [Except.ok.inj (hts'.symm.trans hts)] at hpy
  obtain ⟨hxs, -⟩ := Node.list.inj (hpx.unique hpy)
  rw [← hxx', ← hyy', (List.cons.inj hxs).1]

theorem placeless_eq_of_statement_of_expression {i j : Int} (hx : WellFormed .statement x)
    (hy : WellFormed .expression y) (htx : layout i x = .ok text)
    (hty : layout j y = .ok text) : x.placeless = y.placeless := by
  cases hx with
  | callStatement hx => exact placeless_eq_of_expressions hx hy htx hty
  | @assignment t v o p ht htarget hv =>
    have hlaid : LaidOut .statement (.assignment t o v p) text :=
      laidOut_of_layout (.assignment ht htarget hv) htx
    have hlaid' : LaidOut .expression y text := laidOut_of_layout hy hty
    obtain ⟨w, e, x', hts, he, hx', hxx'⟩ := exists_of_statement (hlaid _ (Nat.le_refl _))
    obtain ⟨ts, y', hts', hy', -⟩ := exists_of_laid (hlaid' _ (Nat.le_refl _))
    cases hts.symm.trans hts'
    generalize need (.assignment t o v p) = d at hx'
    cases hx' with
    | callStatement h =>
      -- a call is not an assignment, whatever their places
      cases h <;> cases hxx'
    | assignment ht' hv' =>
      exact absurd hy' (not_derivesExpression_of_assignment (.assignment ht' hv'))

/-- The text of a tree determines the tree, whatever it is used as. -/
theorem placeless_eq_of_layout {r r' : Role} {i j : Int} (hx : WellFormed r x)
    (hy : WellFormed r' y) (htx : layout i x = .ok text) (hty : layout j y = .ok text) :
    x.placeless = y.placeless := by
  cases r with
  | expression =>
    cases r' with
    | expression => exact placeless_eq_of_expressions hx hy htx hty
    | statement => exact (placeless_eq_of_statement_of_expression hy hx hty htx).symm
  | statement =>
    cases r' with
    | expression => exact placeless_eq_of_statement_of_expression hx hy htx hty
    | statement => exact placeless_eq_of_statements hx hy htx hty

theorem placeless_eq_of_formatted {ys : List Node} {p q : Pos}
    (hxs : ∀ x ∈ xs, WellFormed .statement x) (hys : ∀ y ∈ ys, WellFormed .statement y)
    (htx : formatted (.list xs p) = .ok text) (hty : formatted (.list ys q) = .ok text) :
    (Node.list xs p).placeless = (Node.list ys q).placeless := by
  obtain ⟨texts, htexts, hlaid⟩ := exists_lines hxs
  obtain ⟨texts', htexts', hlaid'⟩ := exists_lines hys
  cases htx.symm.trans (formatted_eq hxs htexts)
  obtain ⟨ts, x', hts, hx', hxx'⟩ := exists_of_laidOut (p := p) hlaid (Nat.le_refl _)
  obtain ⟨ts', y', hts', hy', hyy'⟩ := exists_of_laidOut (p := q) hlaid' (Nat.le_refl _)
  have htext := Except.ok.inj (hty.symm.trans (formatted_eq hys htexts'))
  rw [← htext, hts] at hts'
  rw [← Except.ok.inj hts'] at hy'
  rw [← hxx', ← hyy', hx'.unique hy']

/-! ### Both directions -/

/-- The canonical text of a well-formed program is read as that program by every limit that
is no less than the nestings of the text; so is the canonical text of a well-formed
expression, by an emitter at any indent.  The text is written if there is room for the calls,
and there is none otherwise.  Hence a text is the text of one tree only. -/
theorem read_written (hlimit : IsLimit limit) :
    (∀ xs p, (∀ x ∈ xs, WellFormed .statement x) → needs xs ≤ limit →
      ∃ text y, (∀ room, formattedIn room (.list xs p) =
          if room.Holds (heightIn "gn" (.list xs p)) then .ok text
          else .error .stackExhausted) ∧
        readProgram text limit = .ok y ∧ y.same (.list xs p) = true) ∧
    (∀ x, WellFormed .expression x → need x ≤ limit → ∀ e : Emitter,
      ∃ text y, (∀ room, (Emitter.emit room x).after e =
          (if room.Holds (Emitter.height x) then .ok text else .error .stackExhausted, e)) ∧
        readExpression text limit = .ok y ∧ y.same x = true) ∧
    (∀ r r' x y room room' e e' e₁ e₂ text, WellFormed r x → WellFormed r' y →
      (Emitter.emit room x).after e = (.ok text, e₁) →
      (Emitter.emit room' y).after e' = (.ok text, e₂) → x.same y = true) ∧
    (∀ xs ys p q room room' text, (∀ x ∈ xs, WellFormed .statement x) →
      (∀ y ∈ ys, WellFormed .statement y) → formattedIn room (.list xs p) = .ok text →
      formattedIn room' (.list ys q) = .ok text →
      (Node.list xs p).same (.list ys q) = true) := by
  refine ⟨?_, ?_, ?_, ?_⟩
  · intro xs p hxs hneed
    obtain ⟨text, ys, q, htext, hread, -, hsame⟩ := readProgram_formatted hlimit hxs hneed p
    exact ⟨text, _, htext, hread, hsame⟩
  · intro x hx hneed e
    obtain ⟨text, y, htext, hread, hsame⟩ := readExpression_layout hlimit hx hneed e.depth
    exact ⟨text, y, Emitter.after_emit htext, hread, hsame⟩
  · intro r r' x y room room' e e' e₁ e₂ text hx hy htx hty
    exact Node.same_of_placeless_eq hx.foreign?_eq_none (placeless_eq_of_layout hx hy
      (Emitter.after_emit_eq_ok htx) (Emitter.after_emit_eq_ok hty))
  · intro xs ys p q room room' text hxs hys htx hty
    have hnode := foreignIn?_eq_none fun x hx => (hxs x hx).foreign?_eq_none
    exact Node.same_of_placeless_eq hnode (placeless_eq_of_formatted hxs hys
      ((formattedIn_eq_ok hxs).mp htx).1 ((formattedIn_eq_ok hys).mp hty).1)

/-- Parentheses keep a right operand together, and a minus sign is no operator. -/
theorem read_written_minus :
    let x : Node := .assignment (.identifier "x" .unknown) .set
      (.binary (.identifier "a" .unknown) .sub
        (.binary (.identifier "b" .unknown) .sub (.integer (-1) .unknown) .unknown) .unknown)
      .unknown
    IsLimit 1 ∧ formattedIn .usual (.list [x] .unknown) = .ok "x = a - (b - -1)\n" ∧
      ∃ y, readProgram "x = a - (b - -1)\n" 1 = .ok y ∧ y.same (.list [x] .unknown) = true := by
  have hlimit : IsLimit 1 := by decide
  have hword : ∀ c : Char, isIdentStart c → WellFormed .expression
      (.identifier (String.ofList [c]) .unknown) := fun c hc =>
    .identifier ⟨c, [], String.toList_ofList, hc, List.forall_mem_nil _⟩
  have hx := WellFormed.assignment (o := .set) (p := .unknown) (hword 'x' (by decide)) rfl
    (.binary (o := .sub) (p := .unknown) (hword 'a' (by decide))
      (.binary (o := .sub) (p := .unknown) (hword 'b' (by decide))
        (.integer (v := -1) (p := .unknown) (by decide))))
  obtain ⟨text, y, htext, hread, hsame⟩ := (read_written hlimit).1 [_] .unknown
    (List.forall_mem_singleton.mpr hx) (by decide)
  have hthere := (htext .usual).trans (if_pos (by decide))
  obtain rfl : text = "x = a - (b - -1)\n" := Except.ok.inj ((htext .unlimited).symm.trans rfl)
  exact ⟨hlimit, hthere, y, hread, hsame⟩

/-- A chain of 600 operators opens no nesting, as an expression and as a statement, but there is
not room enough to write it. -/
theorem read_written_chain :
    (WellFormed .expression (chain 600) ∧ need (chain 600) = 0 ∧
      ∀ e : Emitter, (Emitter.emit .usual (chain 600)).after e = (.error .stackExhausted, e)) ∧
    WellFormed .statement (assignedChain 600) ∧ needs [assignedChain 600] = 0 ∧
      formattedIn .usual (.list [assignedChain 600] .unknown) = .error .stackExhausted := by
  refine ⟨⟨wellFormed_chain 600, need_chain 600, fun e => ?_⟩, wellFormed_assignedChain 600,
    by rw [needs, need_assignedChain]; rfl, ?_⟩
  · rw [Emitter.after_emit (layout_chain 600 e.depth), height_chain]
    rfl
  · obtain ⟨texts, htexts, -⟩ :=
      exists_lines (List.forall_mem_singleton.mpr (wellFormed_assignedChain 600))
    rw [formattedIn_eq (List.forall_mem_singleton.mpr (wellFormed_assignedChain 600)) htexts,
      heightIn_assignedChain]
    exact if_neg (by decide)

/-- The canonical text of a program that was read is read as the same program by the same
limit, and what is read from it has that canonical text again.  The text is written if there is
room for the calls, and so it is then; otherwise neither is. -/
theorem write_read {source : String} (h : readProgram source limit = .ok x) :
    ∃ text y, (∀ room, formattedIn room x =
        if room.Holds (heightIn "gn" x) then .ok text else .error .stackExhausted) ∧
      readProgram text limit = .ok y ∧ y.same x = true ∧
      ∀ room, formattedIn room y = formattedIn room x := by
  -- what the source has kept within the limit, its canonical text keeps
  obtain ⟨hlimit, xs, p, rfl, hxs, hneed⟩ := exists_fits h
  obtain ⟨text, ys, q, htext, hread, hys, hsame⟩ := readProgram_formatted hlimit hxs hneed p
  exact ⟨text, _, htext, hread, hsame,
    formattedIn_eq_of_placeless rfl rfl hys hxs (Node.placeless_eq_of_same hsame)⟩

/-- Parentheses that are not needed are dropped. -/
theorem write_read_parentheses :
    ∃ x y, readProgram "x=(a)" 1 = .ok x ∧ formattedIn .usual x = .ok "x = a\n" ∧
      readProgram "x = a\n" 1 = .ok y ∧ y.same x = true ∧
      formattedIn .usual y = .ok "x = a\n" := by
  have hts : scanTokens "x=(a)" = .ok [.word "x" ⟨1, 1⟩, .mark .assign ⟨1, 2⟩,
      .mark .lparen ⟨1, 3⟩, .word "a" ⟨1, 4⟩, .mark .rparen ⟨1, 5⟩, .endAt ⟨1, 6⟩] := by
    rw [scanTokens_eq_ok]
    repeat' first
      | exact .last rfl rfl
      | refine .more rfl (by decide) ?_
  have ha : Derives 0 (.target (.identifier "a" ⟨1, 4⟩)) [.word "a" ⟨1, 4⟩]
      (.symbol .rparen) := .identifier (by decide) (by decide) (by decide)
  have hgroup := Derives.parenthesized (p := ⟨1, 3⟩) (q := ⟨1, 5⟩) (k := .endOfInput)
    (.expression (.ofPrimary (.ofTarget ha)) (.noOperator rfl))
  have hx : Derives 1 (.target (.identifier "x" ⟨1, 1⟩)) [.word "x" ⟨1, 1⟩]
      (.symbol AssignOp.set.symbol) := .identifier (by decide) (by decide) (by decide)
  have hstatement := Derives.assignment (p := ⟨1, 2⟩) hx
    (.expression (.ofPrimary hgroup) (.noOperator rfl))
  have hprogram := DerivesProgram.intro (e := .endAt ⟨1, 6⟩) rfl
    (.statement hstatement .noStatements)
  have hread : readProgram "x=(a)" 1 = .ok _ :=
    (readProgram_eq_ok (by decide : IsLimit 1) hts).mpr hprogram
  obtain ⟨text, y, htext, hagain, hsame, hrest⟩ := write_read hread
  have hroom := htext .usual
  rw [if_pos (by decide)] at hroom
  obtain rfl : text = "x = a\n" := Except.ok.inj ((htext .unlimited).symm.trans rfl)
  exact ⟨_, y, hread, hroom, hagain, hsame, (hrest .usual).trans hroom⟩

/-- A chain of 600 operators is read, by the least limit, but there is not room enough to write
what is read. -/
theorem write_read_chain :
    ∃ x, readProgram (assignedText 600) 1 = .ok x ∧
      formattedIn .usual x = .error .stackExhausted := by
  obtain ⟨x, hread, -, hstop⟩ :=
    exists_chain_without_room (by decide : IsLimit 1) (by decide : ¬ Room.usual.Holds (2 * 600 + 4))
  exact ⟨x, hread, hstop⟩

end GnLang.Format
