/-
Texts that write a tree.

`Writes C x cs` says that the characters `cs`, wherever they stand, spell tokens that the
grammar takes, in the way `C` says, for a tree that is `x` up to places.  The ways are

* `Forms d φ` — the tokens are the phrase `φ`, before anything that an operand may stand
  before;
* `Extends d` — the tokens are an expression, and operators with their operands can be
  put after it: the grammar folds them to the left, and so does the canonical text.

There is one statement for each construct, in the order of the grammar.  Scanning and
parsing are put together here, so that no list of tokens is written down.
-/
import Mathlib.Data.List.Forall2
import GnLang.Node.Same
import GnLang.Proofs.Grammar.Derivation
import GnLang.Proofs.Scan.Spells
import GnLang.Proofs.Tree.WellFormed

namespace GnLang.Format

open Grammar Scan Token

/-- Wherever the characters stand, they spell tokens that the grammar takes in the way `C`
for a tree that is `x` up to places. -/
def Writes (C : Node → List Token → Prop) (x : Node) (cs : List Char) : Prop :=
  ∀ p, ∃ y w, Spells Clear p cs w ∧ y.placeless = x.placeless ∧ C y w

/-- The tokens form the phrase of the tree before anything that may follow an operand. -/
def Forms (d : Nat) (φ : Node → Phrase) (y : Node) (w : List Token) : Prop :=
  ∀ k, Trails k → Derives d (φ y) w k

/-- The tokens are an expression that operators and their operands may be put after. -/
def Extends (d : Nat) (y : Node) (w : List Token) : Prop :=
  ∀ z w' k, Derives d (.chain y z) w' k → Trails (firstKind w' k) →
    Derives d (.expression z) (w ++ w') k

/-- The tokens are a statement before anything that may follow an expression. -/
def States (d : Nat) (y : Node) (w : List Token) : Prop :=
  ∀ k, Ends k → Derives d (.statement y) w k

variable {d : Nat} {C C' : Node → List Token → Prop} {x : Node} {cs : List Char}

theorem Writes.imp (h : Writes C x cs) (himp : ∀ y w, C y w → C' y w) : Writes C' x cs := by
  intro p
  obtain ⟨y, w, hw, hy, hC⟩ := h p
  exact ⟨y, w, hw, hy, himp y w hC⟩

theorem Forms.unary {y : Node} {w : List Token} (h : Forms d .primary y w) :
    Forms d .unary y w := fun k hk => .ofPrimary (h k hk)

theorem Forms.extends {y : Node} {w : List Token} (h : Forms d .unary y w) :
    Extends d y w := fun _ _ _ hz hk => .expression (h _ hk) hz

theorem Extends.expression {y : Node} {w : List Token} {k : TokenKind} (h : Extends d y w)
    (hk : Ends k) : Derives d (.expression y) w k := by
  have := h y [] k (.noOperator hk.2) hk.1
  rwa [List.append_nil] at this

theorem extends_of_derives {y : Node} {w : List Token} {k : TokenKind}
    (h : Derives d (.expression y) w k) : Extends d y w :=
  fun _ _ _ hz hk => h.expression_append hz hk

/-- A statement ends where another begins. -/
theorem ends_firstKind {xs : List Node} {w : List Token} {k : TokenKind}
    (h : Derives d (.statements xs) w k) (hk : Ends k) : Ends (firstKind w k) := by
  cases h with
  | noStatements => exact hk
  | statement hx hxs =>
    obtain ⟨t, u, rfl, ht⟩ := hx.starts
    rw [List.cons_append, firstKind_cons, ht]
    exact ⟨by simp [Trails], rfl⟩

/-! ### What may stand next -/

/-- A text does not begin with '='. -/
def Opens (cs : List Char) : Prop := ∃ c cs', cs = c :: cs' ∧ c ≠ '='

theorem Opens.notEquals (h : Opens cs) (rest : List Char) : NotEquals (cs ++ rest) := by
  obtain ⟨c, cs', rfl, hc⟩ := h
  intro e he
  cases he
  exact hc

theorem Opens.append (h : Opens cs) (ds : List Char) : Opens (cs ++ ds) := by
  obtain ⟨c, cs', rfl, hc⟩ := h
  exact ⟨c, cs' ++ ds, rfl, hc⟩

theorem opens_word {n : String} (h : Text.IsWord n) : Opens n.toList := by
  obtain ⟨c, cs, hn, hc, -⟩ := h
  refine ⟨c, cs, hn, ?_⟩
  rintro rfl
  exact absurd hc (by decide)

theorem opens_digits {text : String} {n : Nat} (h : Text.Numeral text n) :
    Opens text.toList := by
  cases hn : text.toList with
  | nil => exact absurd hn h.ne_nil
  | cons c cs =>
    refine ⟨c, cs, rfl, ?_⟩
    rintro rfl
    exact absurd (h.isDigit '=' (by simp [hn])) (by decide)

theorem opens_integer (v : Int) : Opens (toString v).toList := by
  rw [Int.toString_eq_repr, Int.repr_eq_if]
  split
  · exact opens_digits (Text.numeral_toString _)
  · rw [String.toList_append]
    exact ⟨'-', _, rfl, by decide⟩

/-! ### Words, strings and numbers -/

theorem writes_identifier {n : String} {p : Pos} (h : Text.IsWord n) :
    Writes (Forms d .target) (.identifier n p) n.toList := by
  intro q
  refine ⟨.identifier n q, [word n q], spells_word h, rfl, ?_⟩
  rintro k ⟨h₁, h₂, h₃, -⟩
  exact .identifier h₁ h₂ h₃

theorem writes_scopeAccess {n m : String} {p : Pos} (hn : Text.IsWord n)
    (hm : Text.IsWord m) :
    Writes (Forms d .target) (.scopeAccess n m p) (n.toList ++ (Symbol.dot.chars ++ m.toList)) := by
  intro q
  have hdot := (spells_word hm).after_grouping (m := .dot) (p := q.after n.toList) (by decide)
  exact ⟨.scopeAccess n m q, _, hdot.after_word hn (by decide), rfl, fun k _ => .scopeAccess⟩

theorem writes_string {v : String} {p : Pos} (h : Text.IsQuotable v) :
    Writes (Forms d .primary) (.string v p) ('"' :: (v.toList ++ ['"'])) := by
  intro q
  exact ⟨.string v q, _, spells_quoted h, rfl, fun k _ => .string⟩

theorem writes_integer {v : Int} {p : Pos} (h : Node.fitsInteger v) :
    Writes (Forms d .primary) (.integer v p) (toString v).toList := by
  intro q
  rw [Int.toString_eq_repr, Int.repr_eq_if]
  by_cases hv : 0 ≤ v
  · obtain ⟨n, rfl⟩ := Int.eq_ofNat_of_zero_le hv
    rw [if_pos hv]
    exact ⟨.integer n q, _, spells_digits (Text.numeral_toString n), rfl, fun k _ =>
      .number (Text.numeral_toString n) h⟩
  · -- the sign is a token of its own, and the digits are those of the absolute value
    obtain ⟨n, rfl⟩ : ∃ n : Nat, v = -n := ⟨v.natAbs, by omega⟩
    rw [if_neg hv, Int.neg_neg, String.toList_append]
    have hdigits := spells_digits (p := q.after Symbol.sub.chars) (Text.numeral_toString n)
    have hw := (spells_operator .sub).append hdigits fun rest _ =>
      (opens_digits (Text.numeral_toString n)).notEquals rest
    exact ⟨.integer (-n) q, _, hw, rfl, fun k _ => .negative (Text.numeral_toString n) h⟩

/-! ### Lists of trees -/

/-- Wherever the characters stand, they spell tokens that the grammar takes in the way `C`
for trees that are `xs` up to places. -/
def WritesAll (N : List Char → Prop) (C : List Node → List Token → Prop)
    (xs : List Node) (cs : List Char) : Prop :=
  ∀ p, ∃ ys w, Spells N p cs w ∧ Node.placelessAll ys = Node.placelessAll xs ∧ C ys w

variable {N : List Char → Prop} {margin : List Char} {xs : List Node}
  {texts : List String}

theorem WritesAll.imp {C C' : List Node → List Token → Prop} (h : WritesAll N C xs cs)
    (himp : ∀ ys w, C ys w → C' ys w) : WritesAll N C' xs cs := by
  intro p
  obtain ⟨ys, w, hw, hys, hC⟩ := h p
  exact ⟨ys, w, hw, hys, himp ys w hC⟩

/-- Blanks can stand after texts that may stand before anything. -/
theorem WritesAll.before_blanks {C : List Node → List Token → Prop} {gap : List Char}
    (h : WritesAll (fun _ => True) C xs cs) (hgap : ∀ c ∈ gap, isBlank c) :
    WritesAll N C xs (cs ++ gap) := by
  intro p
  obtain ⟨ys, w, hw, hys, hC⟩ := h p
  have := hw.append (spells_blanks (N := N) hgap) fun _ _ => trivial
  rw [List.append_nil] at this
  exact ⟨ys, w, this, hys, hC⟩

/-- The items of a list literal, each on a line of its own with a comma after it. -/
theorem writes_elements (hmargin : ∀ c ∈ margin, isBlank c)
    (h : List.Forall₂ (fun x t => Writes (Extends d) x t.toList) xs texts) :
    WritesAll N (fun ys w => ∀ k, Derives d (.elements ys) w k) xs
      (texts.flatMap fun t => margin ++ (t.toList ++ Symbol.comma.chars) ++ ['\n']) := by
  induction h with
  | nil => exact fun p => ⟨[], [], spells_nil, rfl, fun k => .noElements⟩
  | @cons x t xs texts hx hxs ih =>
    intro p
    obtain ⟨y, w, hw, hy, hC⟩ := hx (p.after margin)
    have hcomma : Spells Clear p (margin ++ (t.toList ++ Symbol.comma.chars))
        (w ++ [mark .comma ((p.after margin).after t.toList)]) :=
      (hw.before_grouping (by decide)).after_blanks hmargin
    have hline := hcomma.before_blank (c := '\n') (N := fun _ => True) (by decide)
    obtain ⟨ys, v, hv, hys, hD⟩ := ih _
    refine ⟨y :: ys, _, hline.append hv fun _ _ => trivial, ?_, fun k => ?_⟩
    · rw [Node.placelessAll, Node.placelessAll, hy, hys]
    · rw [List.append_assoc]
      exact .elementComma (hC.expression (ends_closing (by simp))) (hD k)

/-- A single item of a list literal needs no comma. -/
theorem writes_element (hx : Writes (Extends d) x cs) :
    WritesAll Clear (fun ys w => Derives d (.elements ys) w (.symbol .rbrack)) [x] cs := by
  intro p
  obtain ⟨y, w, hw, hy, hC⟩ := hx p
  refine ⟨[y], w, hw, by rw [Node.placelessAll, Node.placelessAll, hy]; rfl, ?_⟩
  have hitem : Derives d (.expression y) w (firstKind [] (.symbol .rbrack)) :=
    hC.expression (ends_closing (.inl rfl))
  have hitems := hitem.element .noElements
  rwa [List.append_nil] at hitems

/-- The arguments of a call, with a comma and a blank between each two. -/
theorem writes_arguments
    (h : List.Forall₂ (fun x t => Writes (Extends d) x t.toList) xs texts) :
    WritesAll Clear (fun ys w => Derives d (.arguments ys) w (.symbol .rparen)) xs
      (", ".intercalate texts).toList := by
  induction h with
  | nil => exact fun p => ⟨[], [], spells_nil, rfl, .noArguments⟩
  | @cons x t xs texts hx hxs ih =>
    intro p
    obtain ⟨y, w, hw, hy, hC⟩ := hx p
    -- only the last argument has no comma after it
    cases hxs with
    | nil =>
      refine ⟨[y], w, by rwa [String.intercalate_singleton], ?_, ?_⟩
      · rw [Node.placelessAll, hy]
        rfl
      · exact .lastArgument (hC.expression (ends_closing (by simp)))
    | @cons x' t' xs texts hx' hxs =>
      have hcomma := (hw.before_grouping (m := .comma) (N := Clear) (by decide)).before_blank
        (c := ' ') (N := fun _ => True) (by decide)
      obtain ⟨ys, v, hv, hys, hD⟩ := ih (p.after (t.toList ++ Symbol.comma.chars ++ [' ']))
      have htext : (", ".intercalate (t :: t' :: texts)).toList =
          t.toList ++ Symbol.comma.chars ++ [' '] ++ (", ".intercalate (t' :: texts)).toList := by
        rw [String.intercalate_cons_cons, String.toList_append, String.toList_append,
          List.append_assoc t.toList Symbol.comma.chars]
        rfl
      rw [htext]
      refine ⟨y :: ys, _, hcomma.append hv fun _ _ => trivial, ?_, ?_⟩
      · rw [Node.placelessAll, hy, hys]
        rfl
      · rw [List.append_assoc]
        exact .argument (hC.expression (ends_closing (by simp))) hD

/-- Statements, each on a line of its own. -/
theorem writes_statements (hmargin : ∀ c ∈ margin, isBlank c)
    (h : List.Forall₂ (fun x t => Writes (States d) x t.toList) xs texts) :
    WritesAll N (fun ys w => ∀ k, Ends k → Derives d (.statements ys) w k) xs
      (texts.flatMap fun t => margin ++ t.toList ++ ['\n']) := by
  induction h with
  | nil => exact fun p => ⟨[], [], spells_nil, rfl, fun k _ => .noStatements⟩
  | @cons x t xs texts hx hxs ih =>
    intro p
    obtain ⟨y, w, hw, hy, hC⟩ := hx (p.after margin)
    have hline := (hw.after_blanks hmargin).before_blank (c := '\n') (N := fun _ => True)
      (by decide)
    obtain ⟨ys, v, hv, hys, hD⟩ := ih (p.after (margin ++ t.toList ++ ['\n']))
    refine ⟨y :: ys, _, hline.append hv fun _ _ => trivial, ?_, fun k hk => ?_⟩
    · rw [Node.placelessAll, Node.placelessAll, hy, hys]
    · exact .statement (hC _ (ends_firstKind (hD k hk) hk)) (hD k hk)

/-! ### Nestings -/

theorem writes_arrayAccess {n : String} {i : Node} {p : Pos} (hn : Text.IsWord n)
    (hi : Writes (Extends d) i cs) :
    Writes (Forms (d + 1) .target) (.arrayAccess n i p)
      (n.toList ++ (Symbol.lbrack.chars ++ (cs ++ Symbol.rbrack.chars))) := by
  intro q
  obtain ⟨j, w, hw, hj, hC⟩ := hi ((q.after n.toList).after Symbol.lbrack.chars)
  have hindex := (hw.before_grouping (m := .rbrack) (N := Clear) (by decide)).after_grouping
    (m := .lbrack) (by decide)
  refine ⟨.arrayAccess n j q, _, hindex.after_word hn (by decide), ?_, fun k _ => ?_⟩
  · rw [Node.placeless, Node.placeless, hj]
  · exact .arrayAccess (hC.expression (ends_closing (by simp)))

/-- A list literal whose items, if it has any, stand on lines of their own. -/
theorem writes_list {p : Pos} {gap : List Char} (hgap : ∀ c ∈ gap, isBlank c)
    (h : WritesAll Clear (fun ys w => Derives d (.elements ys) w (.symbol .rbrack)) xs cs) :
    Writes (Forms (d + 1) .primary) (.list xs p)
      (Symbol.lbrack.chars ++ (gap ++ cs ++ Symbol.rbrack.chars)) := by
  intro q
  obtain ⟨ys, w, hw, hys, hC⟩ := h ((q.after Symbol.lbrack.chars).after gap)
  have hlist := ((hw.after_blanks hgap).before_grouping (m := .rbrack) (N := Clear)
    (by decide)).after_grouping (m := .lbrack) (by decide)
  refine ⟨.list ys q, _, hlist, ?_, fun k _ => .list hC⟩
  rw [Node.placeless, Node.placeless, hys]

theorem writes_call {n : String} {p q : Pos} (hn : Text.IsWord n)
    (h : WritesAll Clear (fun ys w => Derives d (.arguments ys) w (.symbol .rparen)) xs cs) :
    Writes (Forms (d + 1) .call) (.call n (.list xs q) none p)
      (n.toList ++ (Symbol.lparen.chars ++ (cs ++ Symbol.rparen.chars))) := by
  intro p₁
  obtain ⟨ys, w, hw, hys, hC⟩ := h ((p₁.after n.toList).after Symbol.lparen.chars)
  have hargs := (hw.before_grouping (m := .rparen) (N := Clear) (by decide)).after_grouping
    (m := .lparen) (by decide)
  refine ⟨.call n (.list ys (p₁.after n.toList)) none p₁, _, hargs.after_word hn (by decide),
    ?_, fun k hk => .plainCall hC hk.2.2.2⟩
  rw [Node.placeless, Node.placeless, Node.placeless, Node.placeless, hys]

/-- A call with a body; `gap` is what stands between the opening brace and the first
statement, and `gap'` what stands before the closing one. -/
theorem writes_bodyCall {n : String} {ys : List Node} {p q b : Pos} {ds gap gap' : List Char}
    (hn : Text.IsWord n) (hgap : ∀ c ∈ gap, isBlank c) (hgap' : ∀ c ∈ gap', isBlank c)
    (hxs : WritesAll Clear (fun ys w => Derives d (.arguments ys) w (.symbol .rparen)) xs cs)
    (hys : WritesAll (fun _ => True)
      (fun ys w => ∀ k, Ends k → Derives d (.statements ys) w k) ys ds) :
    Writes (Forms (d + 1) .call) (.call n (.list xs q) (some (.list ys b)) p)
      (n.toList ++ (Symbol.lparen.chars ++ (cs ++ Symbol.rparen.chars ++
        ([' '] ++ (Symbol.lbrace.chars ++ (gap ++ (ds ++ (gap' ++ Symbol.rbrace.chars)))))))) := by
  intro p₁
  obtain ⟨xs', w, hw, hxs', hC⟩ := hxs ((p₁.after n.toList).after Symbol.lparen.chars)
  have hargs := hw.before_grouping (m := .rparen) (N := fun _ => True) (by decide)
  -- the place of the opening brace
  let p₂ := (((p₁.after n.toList).after Symbol.lparen.chars).after
    (cs ++ Symbol.rparen.chars)).after [' ']
  obtain ⟨ys', v, hv, hys', hD⟩ := hys ((p₂.after Symbol.lbrace.chars).after gap)
  have hclose := (spells_grouping (m := .rbrace) (N := Clear) (by decide)).after_blanks
    (p := ((p₂.after Symbol.lbrace.chars).after gap).after ds) hgap'
  have hbody := ((hv.append hclose fun _ _ => trivial).after_blanks hgap).after_grouping
    (m := .lbrace) (p := p₂) (by decide)
  have hgapped := hbody.after_blanks isBlank_space
    (p := ((p₁.after n.toList).after Symbol.lparen.chars).after (cs ++ Symbol.rparen.chars))
  have hcall := ((hargs.append hgapped fun _ _ => trivial).after_grouping (m := .lparen)
    (by decide)).after_word hn (by decide)
  refine ⟨.call n (.list xs' (p₁.after n.toList)) (some (.list ys' p₂)) p₁, _, hcall, ?_,
    fun k hk => ?_⟩
  · simp only [Node.placeless, hxs', hys']
  · rw [List.append_assoc]
    exact .bodyCall hC (hD _ ⟨by simp [Trails], rfl⟩)

/-! ### Operators -/

/-- The text of an operand, with parentheses if it has an operator between operands. -/
theorem writes_grouped (hx : Writes (Extends d) x cs) :
    Writes (Forms (d + 1) .primary) x (Symbol.lparen.chars ++ (cs ++ Symbol.rparen.chars)) := by
  intro q
  obtain ⟨y, w, hw, hy, hC⟩ := hx (q.after Symbol.lparen.chars)
  have hgroup := (hw.before_grouping (m := .rparen) (N := Clear) (by decide)).after_grouping
    (m := .lparen) (by decide)
  exact ⟨y, _, hgroup, hy, fun k _ => .parenthesized (hC.expression (ends_closing (by simp)))⟩

theorem writes_unary {o : UnaryOp} {p : Pos} (hopens : Opens cs)
    (hx : Writes (Forms d .unary) x cs) :
    Writes (Forms (d + 1) .unary) (.unary o x p) (o.symbol.chars ++ cs) := by
  intro q
  obtain ⟨y, w, hw, hy, hC⟩ := hx (q.after o.symbol.chars)
  refine ⟨.unary o y q, _, (spells_operator o.symbol).append hw fun rest _ =>
    hopens.notEquals rest, ?_, fun k hk => .unary (hC k hk)⟩
  rw [Node.placeless, Node.placeless, hy]

/-- The left operand may itself be a fold of operands, so the operator and its right operand
are put after it before anything else is. -/
theorem writes_binary {l r : Node} {o : BinaryOp} {p : Pos} {ds : List Char}
    (hl : Writes (Extends d) l cs) (hr : Writes (Forms d .unary) r ds) :
    Writes (Extends d) (.binary l o r p)
      (cs ++ [' '] ++ (o.symbol.chars ++ ([' '] ++ ds))) := by
  intro q
  obtain ⟨l', w, hw, hl', hC⟩ := hl q
  obtain ⟨r', v, hv, hr', hD⟩ :=
    hr (((q.after (cs ++ [' '])).after o.symbol.chars).after [' '])
  refine ⟨.binary l' o r' l'.pos, _, hw.around_operator hv, ?_, ?_⟩
  · rw [Node.placeless, Node.placeless, hl', hr']
  · intro z w' k hz hk
    rw [List.append_assoc]
    exact hC z _ k (.operator (hD _ hk) hz) (trails_operator o)

theorem writes_assignment {t v : Node} {o : AssignOp} {p : Pos} {ds : List Char}
    (ht : Writes (Forms d .target) t cs) (hv : Writes (Extends d) v ds) :
    Writes (States d) (.assignment t o v p)
      (cs ++ [' '] ++ (o.symbol.chars ++ ([' '] ++ ds))) := by
  intro q
  obtain ⟨t', w, hw, ht', hC⟩ := ht q
  obtain ⟨v', u, hu, hv', hD⟩ :=
    hv (((q.after (cs ++ [' '])).after o.symbol.chars).after [' '])
  refine ⟨.assignment t' o v' t'.pos, _, hw.around_operator hu, ?_, ?_⟩
  · rw [Node.placeless, Node.placeless, ht', hv']
  · intro k hk
    refine .assignment (hC _ ?_) (hD.expression hk)
    cases o <;> simp [Trails, AssignOp.symbol]

end GnLang.Format
