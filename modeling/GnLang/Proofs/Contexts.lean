/-
Expressions and programs in contexts.

An expression that is read on its own is read as itself between parentheses, as the item of a
list, the argument of a call, the index of an array, the value of an assignment, and to the left
of any operator; a program is read as itself in the body of a call.  A newline after it keeps a
comment at its end from going on, and the brackets round it take one nesting.

* `exists_spells_of_scanTokens` — wherever a text stands, it spells the tokens that it has;
* `exists_spells_expression`, `exists_spells_program` — so it writes there what is read from it;
* `reads_in_contexts` — and so does every text that it is a part of.
-/
import GnLang.Proofs.Format.Written
import GnLang.Proofs.Grammar.Places
import GnLang.Proofs.Scan.Extension

namespace GnLang

open Grammar Scan Token Format

variable {source : String} {limit : Int} {x : Node} {ts : List Token}

/-! ### Texts in other places -/

/-- At the place `p` the text spells the tokens: up to the end of the input, and before anything
that stands on a new line. -/
structure SpellsText (source : String) (p : Pos) (w : List Token) : Prop where
  atEnd : Spells (· = []) p source.toList w
  newline : ∀ N, Spells N p (source.toList ++ ['\n']) w

/-- Wherever a text stands, it spells the tokens that it has. -/
theorem exists_spells_of_scanTokens (hts : scanTokens source = .ok ts) (p : Pos) :
    ∃ w q, SpellsText source p w ∧ List.Forall₂ SameLexeme ts (w ++ [.endAt q]) ∧
      (∀ t ∈ w, t.kind ≠ .endOfInput) ∧ ∀ t ∈ w ++ [.endAt q], t.IsGenuine := by
  obtain ⟨us, hus, hall⟩ := (scanTokens_eq_ok.mp hts).exists_move (R := fun _ _ => True)
    (fun _ h => h) (q := p) trivial
  obtain ⟨w, q, rfl, hw⟩ := hus.eq_append
  refine ⟨w, q, ⟨?_, ?_⟩, hall.imp fun _ _ h => h.1, hw, hus.isGenuine⟩
  · rintro _ vs rfl hvs
    have hend : Token.endAt q = .endAt (p.after source.toList) := hus.eq_endAt
    rw [hvs.eq_endAt_of_nil, ← hend, List.append_nil]
    exact hus
  · intro N rest vs _ hvs
    rw [Pos.after_append] at hvs
    rw [List.append_assoc]
    exact (hus.newline rest _).mpr ⟨vs, rfl, hvs⟩

/-- Wherever a text that is an expression stands, it spells that expression. -/
theorem exists_spells_expression (h : readExpression source limit = .ok x) (p : Pos) :
    ∃ y w, SpellsText source p w ∧ y.placeless = x.placeless ∧
      Derives limit.toNat (.expression y) w .endOfInput := by
  obtain ⟨hlimit, ts, hts⟩ := exists_of_readExpression h
  obtain ⟨w, q, hspells, hsame, hw, hgenuine⟩ := exists_spells_of_scanTokens hts p
  rw [readExpression_eq hlimit hts] at h
  have hsetting : (settingOf ts limit).limit = (settingOf ts limit).limit := rfl
  obtain ⟨y, rest, hy, hxy⟩ :=
    exists_loneExpression_of_sameLexemes hsetting hsame (Prod.ext h rfl)
  have hderives := derives_of_loneExpression hw rfl hgenuine hy
  exact ⟨y, w, hspells, hxy.symm, hderives.expression⟩

/-- Wherever a text that is a program stands, it spells the statements of that program. -/
theorem exists_spells_program {xs : List Node} {q : Pos}
    (h : readProgram source limit = .ok (.list xs q)) (p : Pos) :
    ∃ ys w, SpellsText source p w ∧ Node.placelessAll ys = Node.placelessAll xs ∧
      Derives limit.toNat (.statements ys) w .endOfInput := by
  obtain ⟨hlimit, ts, hts⟩ := exists_of_readProgram h
  obtain ⟨w, q', hspells, hsame, hw, hgenuine⟩ := exists_spells_of_scanTokens hts p
  rw [readProgram_eq hlimit hts] at h
  have hsetting : (settingOf ts limit).limit = (settingOf ts limit).limit := rfl
  obtain ⟨y, rest, hy, hxy⟩ := exists_program_of_sameLexemes hsetting hsame (Prod.ext h rfl)
  obtain ⟨ys, hys, rfl⟩ := (derives_of_program hw rfl hgenuine hy).exists_statements
  rw [Node.placeless, Node.placeless, Node.list.injEq] at hxy
  exact ⟨ys, w, hspells, hxy.1.symm, hys⟩

/-! ### What a text writes where it stands -/

theorem toList_append_newline (source : String) :
    (source ++ "\n").toList = source.toList ++ ['\n'] := String.toList_append

/-- A text that is an expression writes it when a newline follows. -/
theorem writes_expression (h : readExpression source limit = .ok x) :
    Writes (Extends limit.toNat) x (source ++ "\n").toList := by
  intro p
  obtain ⟨y, w, hspells, hyx, hy⟩ := exists_spells_expression h p
  rw [toList_append_newline]
  exact ⟨y, w, hspells.newline _, hyx, extends_of_derives hy⟩

/-- A text that is a program writes its statements when a newline follows. -/
theorem writes_program {xs : List Node} {q : Pos} {N : List Char → Prop}
    (h : readProgram source limit = .ok (.list xs q)) :
    WritesAll N (fun ys w => ∀ k, Ends k → Derives limit.toNat (.statements ys) w k) xs
      (source ++ "\n").toList := by
  intro p
  obtain ⟨ys, w, hspells, hyx, hys⟩ := exists_spells_program h p
  rw [toList_append_newline]
  exact ⟨ys, w, hspells.newline _, hyx, fun k hk => hys.follow hk⟩

/-! ### Contexts -/

/-- By the limit the text is read as an expression that is the tree up to places. -/
def ReadsExpression (text : String) (limit : Int) (x : Node) : Prop :=
  ∃ y, readExpression text limit = .ok y ∧ y.same x = true

/-- By the limit the text is read as a program that is the tree up to places. -/
def ReadsProgram (text : String) (limit : Int) (x : Node) : Prop :=
  ∃ y, readProgram text limit = .ok y ∧ y.same x = true

/-- One more nesting can be allowed than the limit allows. -/
def IsRaisable (limit : Int) : Prop := 1 ≤ limit ∧ limit < greatestLimit

theorem IsRaisable.isLimit (h : IsRaisable limit) : IsLimit (limit + 1) :=
  ⟨Int.le_trans h.1 (Int.le_add_one (Int.le_refl _)), h.2⟩

theorem IsRaisable.toNat (h : IsRaisable limit) : (limit + 1).toNat = limit.toNat + 1 := by
  have := h.1
  omega

theorem IsLimit.isRaisable (h : IsLimit limit) (hlt : limit < greatestLimit) :
    IsRaisable limit := ⟨h.1, hlt⟩

section

variable {text : String} (hraisable : IsRaisable limit)

include hraisable

theorem readsExpression_of_writes (h : Writes (Extends (limit.toNat + 1)) x text.toList) :
    ReadsExpression text (limit + 1) x := by
  rw [← hraisable.toNat] at h
  exact exists_readExpression_of_writes hraisable.isLimit h

theorem readsExpression_of_primary
    (h : Writes (Forms (limit.toNat + 1) .primary) x text.toList) :
    ReadsExpression text (limit + 1) x :=
  readsExpression_of_writes hraisable (h.imp fun _ _ hx => hx.unary.extends)

theorem reads_parentheses (h : readExpression source limit = .ok x) :
    ReadsExpression ("(" ++ source ++ "\n)") (limit + 1) x := by
  have hgrouped := writes_grouped (writes_expression h)
  refine readsExpression_of_primary hraisable ?_
  have htext : ("(" ++ source ++ "\n)").toList =
      Symbol.lparen.chars ++ ((source ++ "\n").toList ++ Symbol.rparen.chars) := by
    simp only [String.toList_append, List.append_assoc]
    rfl
  rwa [htext]

theorem reads_item (h : readExpression source limit = .ok x) :
    ReadsExpression ("[" ++ source ++ "\n]") (limit + 1) (.list [x] .unknown) := by
  have hlist := writes_list (p := .unknown) (List.forall_mem_nil _)
    (writes_element (writes_expression h))
  refine readsExpression_of_primary hraisable ?_
  have htext : ("[" ++ source ++ "\n]").toList =
      Symbol.lbrack.chars ++ ([] ++ (source ++ "\n").toList ++ Symbol.rbrack.chars) := by
    simp only [String.toList_append, List.append_assoc]
    rfl
  rwa [htext]

theorem reads_argument {name : String} (hname : Text.IsWord name)
    (h : readExpression source limit = .ok x) :
    ReadsExpression (name ++ "(" ++ source ++ "\n)") (limit + 1)
      (.call name (.list [x] .unknown) none .unknown) := by
  have hone : List.Forall₂ (fun x t => Writes (Extends limit.toNat) x t.toList) [x]
      [source ++ "\n"] := .cons (writes_expression h) .nil
  have hargs := writes_arguments hone
  rw [String.intercalate_singleton] at hargs
  have hcall := writes_call (p := .unknown) (q := .unknown) hname hargs
  refine readsExpression_of_primary hraisable ?_
  have htext : (name ++ "(" ++ source ++ "\n)").toList = name.toList ++
      (Symbol.lparen.chars ++ ((source ++ "\n").toList ++ Symbol.rparen.chars)) := by
    simp only [String.toList_append, List.append_assoc]
    rfl
  rw [htext]
  exact hcall.imp fun _ _ hy k hk => .ofCall (hy k hk)

theorem reads_index {name : String} (hname : Text.IsWord name)
    (h : readExpression source limit = .ok x) :
    ReadsExpression (name ++ "[" ++ source ++ "\n]") (limit + 1)
      (.arrayAccess name x .unknown) := by
  have haccess := writes_arrayAccess (p := .unknown) hname (writes_expression h)
  refine readsExpression_of_primary hraisable ?_
  have htext : (name ++ "[" ++ source ++ "\n]").toList = name.toList ++
      (Symbol.lbrack.chars ++ ((source ++ "\n").toList ++ Symbol.rbrack.chars)) := by
    simp only [String.toList_append, List.append_assoc]
    rfl
  rw [htext]
  exact haccess.imp fun _ _ hy k hk => .ofTarget (hy k hk)

/-- What is read from a text, with more operands than one if it has operators, is the left
operand of an operator on the next line. -/
theorem reads_operand {source' : String} {y : Node} (op : BinaryOp)
    (h : readExpression source limit = .ok x) (h' : readExpression source' limit = .ok y) :
    ReadsExpression (source ++ "\n" ++ op.text ++ "(" ++ source' ++ "\n)") (limit + 1)
      (.binary x op y .unknown) := by
  refine readsExpression_of_writes hraisable fun p => ?_
  -- what is written need not keep '==' from going on with it, but a newline does
  obtain ⟨l, w, hspells, hlx, hl⟩ := exists_spells_expression h p
  obtain ⟨r, v, hv, hry, hr⟩ := writes_grouped (writes_expression h')
    ((p.after (source.toList ++ ['\n'])).after op.symbol.chars)
  have hright := (spells_operator op.symbol).append hv fun rest _ =>
    (clear_grouping (m := .lparen) (by decide) _).notEquals
  have hboth := (hspells.newline fun _ => True).append hright fun _ _ => trivial
  have htext : (source ++ "\n" ++ op.text ++ "(" ++ source' ++ "\n)").toList =
      source.toList ++ ['\n'] ++ (op.symbol.chars ++
        (Symbol.lparen.chars ++ ((source' ++ "\n").toList ++ Symbol.rparen.chars))) := by
    simp only [String.toList_append, BinaryOp.text, Symbol.text, String.toList_ofList,
      List.append_assoc]
    rfl
  rw [htext]
  refine ⟨.binary l op r l.pos, _, hboth, ?_, fun z w' k hz hk => ?_⟩
  · rw [Node.placeless, Node.placeless, hlx, hry]
  · rw [List.append_assoc]
    exact (hl.mono (Nat.le_succ _)).expression_append (.operator (.ofPrimary (hr _ hk)) hz)
      (trails_operator op)

end

/-- A statement on its own is written as a program. -/
theorem writesAll_statement {d : Nat} {cs : List Char} (h : Writes (States d) x cs) :
    WritesAll Clear (fun ys w => Derives d (.statements ys) w .endOfInput) [x] cs := by
  intro p
  obtain ⟨y, w, hw, hy, hC⟩ := h p
  refine ⟨[y], w, hw, ?_, (hC _ ends_endOfInput).statements_singleton⟩
  rw [Node.placelessAll, Node.placelessAll, hy]
  rfl

/-- The value of an assignment goes on to the end of the text, so that no nesting is needed. -/
theorem reads_value {name : String} (hname : Text.IsWord name)
    (h : readExpression source limit = .ok x) :
    ReadsProgram (name ++ " = " ++ source) limit
      (.list [.assignment (.identifier name .unknown) .set x .unknown] .unknown) := by
  obtain ⟨hlimit, -⟩ := exists_of_readExpression h
  -- no newline follows the value, so it is spelled up to the end of the input only
  refine exists_readProgram_of_writesAll (N := (· = [])) hlimit (fun p => ?_) rfl _
  obtain ⟨v, w, hspells, hvx, hv⟩ := exists_spells_expression h
    (((p.after (name.toList ++ [' '])).after Symbol.assign.chars).after [' '])
  have hw := (spells_word hname).around_operator hspells.atEnd
  have htext : (name ++ " = " ++ source).toList =
      name.toList ++ [' '] ++ (Symbol.assign.chars ++ ([' '] ++ source.toList)) := by
    simp only [String.toList_append, List.append_assoc]
    rfl
  rw [htext]
  refine ⟨[.assignment (.identifier name p) .set v p], _, hw, ?_, ?_⟩
  · rw [Node.placelessAll, Node.placeless, hvx]
    rfl
  · have htarget : Derives limit.toNat (.target (.identifier name p)) [word name p]
        (.symbol AssignOp.set.symbol) := .identifier (by decide) (by decide) (by decide)
    exact (Derives.assignment htarget hv).statements_singleton

/-- A program in the body of a call, which is an expression as well as a program. -/
theorem reads_body {name : String} (hraisable : IsRaisable limit) (hname : Text.IsWord name)
    (h : readProgram source limit = .ok x) :
    ReadsExpression (name ++ "() \x7b" ++ source ++ "\n\x7d") (limit + 1)
        (.call name (.list [] .unknown) (some x) .unknown) ∧
      ReadsProgram (name ++ "() \x7b" ++ source ++ "\n\x7d") (limit + 1)
        (.list [.call name (.list [] .unknown) (some x) .unknown] .unknown) := by
  obtain ⟨xs, q, rfl, -⟩ := exists_wellFormed h
  have hargs := writes_arguments (d := limit.toNat) .nil
  have hcall := writes_bodyCall (p := .unknown) (q := .unknown) (b := q) hname
    (List.forall_mem_nil _) (List.forall_mem_nil _) hargs (writes_program h)
  have htext : (name ++ "() \x7b" ++ source ++ "\n\x7d").toList = name.toList ++
      (Symbol.lparen.chars ++ ((", ".intercalate []).toList ++ Symbol.rparen.chars ++ ([' '] ++
        (Symbol.lbrace.chars ++ ([] ++ ((source ++ "\n").toList ++
          ([] ++ Symbol.rbrace.chars))))))) := by
    simp only [String.toList_append, List.append_assoc]
    rfl
  constructor
  · refine readsExpression_of_primary hraisable ?_
    rw [htext]
    exact hcall.imp fun _ _ hy k hk => .ofCall (hy k hk)
  · refine exists_readProgram_of_writesAll (N := Clear) hraisable.isLimit ?_ nofun _
    rw [htext, hraisable.toNat]
    exact writesAll_statement (hcall.imp fun _ _ hy k hk => .callStatement (hy k hk.1))

/-- What a text is read as on its own it is read as in every context: between parentheses, as an
item, an argument or an index, as the value of an assignment, and to the left of an operator; and
a program is read as the body of a call.  Each context takes one nesting, the value of an
assignment none. -/
theorem reads_in_contexts {d : Int} (hd : d < greatestLimit) :
    (∀ source x, readExpression source d = .ok x →
      ReadsExpression ("(" ++ source ++ "\n)") (d + 1) x ∧
      ReadsExpression ("[" ++ source ++ "\n]") (d + 1) (.list [x] .unknown) ∧
      (∀ name, Text.IsWord name →
        ReadsExpression (name ++ "(" ++ source ++ "\n)") (d + 1)
          (.call name (.list [x] .unknown) none .unknown) ∧
        ReadsExpression (name ++ "[" ++ source ++ "\n]") (d + 1)
          (.arrayAccess name x .unknown) ∧
        ReadsProgram (name ++ " = " ++ source) d
          (.list [.assignment (.identifier name .unknown) .set x .unknown] .unknown)) ∧
      ∀ source' y, readExpression source' d = .ok y → ∀ op : BinaryOp,
        ReadsExpression (source ++ "\n" ++ op.text ++ "(" ++ source' ++ "\n)") (d + 1)
          (.binary x op y .unknown)) ∧
    ∀ source x, readProgram source d = .ok x → ∀ name, Text.IsWord name →
      ReadsExpression (name ++ "() \x7b" ++ source ++ "\n\x7d") (d + 1)
          (.call name (.list [] .unknown) (some x) .unknown) ∧
        ReadsProgram (name ++ "() \x7b" ++ source ++ "\n\x7d") (d + 1)
          (.list [.call name (.list [] .unknown) (some x) .unknown] .unknown) := by
  constructor
  · intro source x h
    have hraisable := (exists_of_readExpression h).1.isRaisable hd
    refine ⟨reads_parentheses hraisable h, reads_item hraisable h, fun name hname => ?_, ?_⟩
    · exact ⟨reads_argument hraisable hname h, reads_index hraisable hname h, reads_value hname h⟩
    · exact fun source' y h' op => reads_operand hraisable op h h'
  · intro source x h name hname
    exact reads_body ((exists_of_readProgram h).1.isRaisable hd) hname h

/-- The comment ends with its line, the operator applies to the whole of what goes before it, and
the statement in the body may be a call with a comment of its own. -/
theorem reads_in_contexts_comment :
    (1 : Int) < greatestLimit ∧ (∃ x y z,
      readExpression "a - b # (" 1 = .ok x ∧ readExpression "[]" 1 = .ok y ∧
      readProgram "g()#\x7d" 1 = .ok z ∧
      ReadsExpression "a - b # (\n==([]\n)" 2 (.binary x .eq y .unknown) ∧
      ReadsProgram "f() \x7bg()#\x7d\n\x7d" 2
        (.list [.call "f" (.list [] .unknown) (some z) .unknown] .unknown)) := by
  have hminus : scanTokens "a - b # (" = .ok [.word "a" ⟨1, 1⟩, .mark .sub ⟨1, 3⟩,
      .word "b" ⟨1, 5⟩, .endAt ⟨1, 10⟩] := scanTokens_eq_ok.mpr (by decide)
  have hlist : scanTokens "[]" = .ok [.mark .lbrack ⟨1, 1⟩, .mark .rbrack ⟨1, 2⟩,
      .endAt ⟨1, 3⟩] := scanTokens_eq_ok.mpr (by decide)
  have hcall : scanTokens "g()#\x7d" = .ok [.word "g" ⟨1, 1⟩, .mark .lparen ⟨1, 2⟩,
      .mark .rparen ⟨1, 3⟩, .endAt ⟨1, 6⟩] := scanTokens_eq_ok.mpr (by decide)
  have hlimit : IsLimit 1 := by decide
  have hx : readExpression "a - b # (" 1 = .ok (.binary (.identifier "a" ⟨1, 1⟩) .sub
      (.identifier "b" ⟨1, 5⟩) ⟨1, 1⟩) := (readExpression_eq hlimit hminus).trans rfl
  have hy : readExpression "[]" 1 = .ok (.list [] ⟨1, 1⟩) :=
    (readExpression_eq hlimit hlist).trans rfl
  have hz : readProgram "g()#\x7d" 1 = .ok (.list
      [.call "g" (.list [] ⟨1, 2⟩) none ⟨1, 1⟩] ⟨1, 1⟩) := (readProgram_eq hlimit hcall).trans rfl
  have hd : (1 : Int) < greatestLimit := by decide
  have hname : Text.IsWord "f" := ⟨'f', [], rfl, by decide, List.forall_mem_nil _⟩
  obtain ⟨hexpression, hprogram⟩ := reads_in_contexts hd
  obtain ⟨-, -, -, hoperand⟩ := hexpression _ _ hx
  exact ⟨hd, _, _, _, hx, hy, hz, hoperand _ _ hy .eq, (hprogram _ _ hz "f" hname).2⟩

end GnLang
