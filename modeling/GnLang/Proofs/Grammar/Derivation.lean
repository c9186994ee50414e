/-
The grammar as a relation.

`Derives d φ w k` says that the tokens `w`, followed by a token of kind `k`, form the
phrase `φ` with at most `d` nestings open at once.  A phrase names its construct and the
tree it stands for; the places in the tree are those of the tokens.

The rules are those of the grammar, and nothing in them refers to how a text is parsed.
Only what follows a phrase is looked at beyond its own tokens, and only three times: a
word that stands for itself is not followed by '(', '[' or '.', an expression is not
followed by an operator between operands, and a call without a body is not followed
by '{'.

* `Derives.mono` — more nestings may be allowed than are needed;
* `Derives.follow` — anything may follow a phrase that does not go on with it;
* `Derives.statements_append` — so statements may be followed by statements;
* `Derives.expression_append` — and expressions by operators and operands.
-/
import GnLang.Proofs.Scan.Genuine

namespace GnLang

namespace Grammar

open Token

/-- A construct of the grammar, with the tree or the trees it stands for. -/
inductive Phrase where
  | expression (x : Node)
  /-- Operators, each with the operand after it, that make `x` of what precedes them. -/
  | chain (left x : Node)
  | unary (x : Node)
  | primary (x : Node)
  | target (x : Node)
  | call (x : Node)
  | statement (x : Node)
  /-- What stands between the brackets of a list literal. -/
  | elements (xs : List Node)
  /-- What stands between the parentheses of a call. -/
  | arguments (xs : List Node)
  | statements (xs : List Node)

/-- The kind of the first token of `w`, or `k` if `w` is empty. -/
def firstKind (w : List Token) (k : TokenKind) : TokenKind :=
  match w with
  | [] => k
  | t :: _ => t.kind

@[simp] theorem firstKind_nil (k : TokenKind) : firstKind [] k = k := rfl

@[simp] theorem firstKind_cons (t : Token) (w : List Token) (k : TokenKind) :
    firstKind (t :: w) k = t.kind := rfl

theorem firstKind_append (w w' : List Token) (k : TokenKind) :
    firstKind (w ++ w') k = firstKind w (firstKind w' k) := by
  cases w <;> rfl

/-- The tokens, followed by a token of the kind, form the phrase with at most so many
nestings open at once. -/
inductive Derives : Nat → Phrase → List Token → TokenKind → Prop where
  | identifier {d : Nat} {n : String} {p : Pos} {k : TokenKind} :
      k ≠ .symbol .lparen → k ≠ .symbol .lbrack → k ≠ .symbol .dot →
      Derives d (.target (.identifier n p)) [word n p] k
  | arrayAccess {d : Nat} {n : String} {i : Node} {w : List Token} {p q r : Pos}
      {k : TokenKind} :
      Derives d (.expression i) w (.symbol .rbrack) →
      Derives (d + 1) (.target (.arrayAccess n i p))
        (word n p :: mark .lbrack q :: (w ++ [mark .rbrack r])) k
  | scopeAccess {d : Nat} {n m : String} {p q r : Pos} {k : TokenKind} :
      Derives d (.target (.scopeAccess n m p)) [word n p, mark .dot q, word m r] k
  | noElements {d : Nat} {k : TokenKind} : Derives d (.elements []) [] k
  | element {d : Nat} {x : Node} {xs : List Node} {w w' : List Token} {k : TokenKind} :
      Derives d (.expression x) w (firstKind w' k) → Derives d (.elements xs) w' k →
      Derives d (.elements (x :: xs)) (w ++ w') k
  | elementComma {d : Nat} {x : Node} {xs : List Node} {w w' : List Token} {p : Pos}
      {k : TokenKind} :
      Derives d (.expression x) w (.symbol .comma) → Derives d (.elements xs) w' k →
      Derives d (.elements (x :: xs)) (w ++ mark .comma p :: w') k
  | noArguments {d : Nat} {k : TokenKind} : Derives d (.arguments []) [] k
  | lastArgument {d : Nat} {x : Node} {w : List Token} {k : TokenKind} :
      Derives d (.expression x) w k → Derives d (.arguments [x]) w k
  | argument {d : Nat} {x : Node} {xs : List Node} {w w' : List Token} {p : Pos}
      {k : TokenKind} :
      Derives d (.expression x) w (.symbol .comma) → Derives d (.arguments xs) w' k →
      Derives d (.arguments (x :: xs)) (w ++ mark .comma p :: w') k
  | plainCall {d : Nat} {n : String} {xs : List Node} {w : List Token} {p q r : Pos}
      {k : TokenKind} :
      Derives d (.arguments xs) w (.symbol .rparen) → k ≠ .symbol .lbrace →
      Derives (d + 1) (.call (.call n (.list xs q) none p))
        (word n p :: mark .lparen q :: (w ++ [mark .rparen r])) k
  | bodyCall {d : Nat} {n : String} {xs ys : List Node} {w w' : List Token}
      {p q r b c : Pos} {k : TokenKind} :
      Derives d (.arguments xs) w (.symbol .rparen) →
      Derives d (.statements ys) w' (.symbol .rbrace) →
      Derives (d + 1) (.call (.call n (.list xs q) (some (.list ys b)) p))
        (word n p :: mark .lparen q ::
          (w ++ mark .rparen r :: mark .lbrace b :: (w' ++ [mark .rbrace c]))) k
  | list {d : Nat} {xs : List Node} {w : List Token} {p q : Pos} {k : TokenKind} :
      Derives d (.elements xs) w (.symbol .rbrack) →
      Derives (d + 1) (.primary (.list xs p)) (mark .lbrack p :: (w ++ [mark .rbrack q])) k
  | string {d : Nat} {v : String} {p : Pos} {k : TokenKind} :
      Derives d (.primary (.string v p)) [quoted v p] k
  | number {d n : Nat} {text : String} {p : Pos} {k : TokenKind} :
      Text.Numeral text n → Node.fitsInteger n →
      Derives d (.primary (.integer n p)) [digits text p] k
  | negative {d n : Nat} {text : String} {p q : Pos} {k : TokenKind} :
      Text.Numeral text n → Node.fitsInteger (-n) →
      Derives d (.primary (.integer (-n) p)) [mark .sub p, digits text q] k
  | parenthesized {d : Nat} {x : Node} {w : List Token} {p q : Pos} {k : TokenKind} :
      Derives d (.expression x) w (.symbol .rparen) →
      Derives (d + 1) (.primary x) (mark .lparen p :: (w ++ [mark .rparen q])) k
  | ofTarget {d : Nat} {x : Node} {w : List Token} {k : TokenKind} :
      Derives d (.target x) w k → Derives d (.primary x) w k
  | ofCall {d : Nat} {x : Node} {w : List Token} {k : TokenKind} :
      Derives d (.call x) w k → Derives d (.primary x) w k
  | unary {d : Nat} {o : UnaryOp} {x : Node} {w : List Token} {p : Pos} {k : TokenKind} :
      Derives d (.unary x) w k →
      Derives (d + 1) (.unary (.unary o x p)) (mark o.symbol p :: w) k
  | ofPrimary {d : Nat} {x : Node} {w : List Token} {k : TokenKind} :
      Derives d (.primary x) w k → Derives d (.unary x) w k
  | noOperator {d : Nat} {x : Node} {k : TokenKind} :
      k.isBinary = false → Derives d (.chain x x) [] k
  | operator {d : Nat} {l r x : Node} {o : BinaryOp} {w w' : List Token} {p : Pos}
      {k : TokenKind} :
      Derives d (.unary r) w (firstKind w' k) →
      Derives d (.chain (.binary l o r l.pos) x) w' k →
      Derives d (.chain l x) (mark o.symbol p :: (w ++ w')) k
  | expression {d : Nat} {l x : Node} {w w' : List Token} {k : TokenKind} :
      Derives d (.unary l) w (firstKind w' k) → Derives d (.chain l x) w' k →
      Derives d (.expression x) (w ++ w') k
  | callStatement {d : Nat} {x : Node} {w : List Token} {k : TokenKind} :
      Derives d (.call x) w k → Derives d (.statement x) w k
  | assignment {d : Nat} {t v : Node} {o : AssignOp} {w w' : List Token} {p : Pos}
      {k : TokenKind} :
      Derives d (.target t) w (.symbol o.symbol) → Derives d (.expression v) w' k →
      Derives d (.statement (.assignment t o v t.pos)) (w ++ mark o.symbol p :: w') k
  | noStatements {d : Nat} {k : TokenKind} : Derives d (.statements []) [] k
  | statement {d : Nat} {x : Node} {xs : List Node} {w w' : List Token} {k : TokenKind} :
      Derives d (.statement x) w (firstKind w' k) → Derives d (.statements xs) w' k →
      Derives d (.statements (x :: xs)) (w ++ w') k

/-- The tokens of a whole text are a program: statements, and the end of the input. -/
inductive DerivesProgram (d : Nat) : List Token → Node → Prop where
  | intro {xs : List Node} {w : List Token} {e : Token} :
      e.kind = .endOfInput → Derives d (.statements xs) w .endOfInput →
      DerivesProgram d (w ++ [e]) (.list xs (w.headD e).pos)

/-- The tokens of a whole text are a single expression, and the end of the input. -/
inductive DerivesExpression (d : Nat) : List Token → Node → Prop where
  | intro {x : Node} {w : List Token} {e : Token} :
      e.kind = .endOfInput → Derives d (.expression x) w .endOfInput →
      DerivesExpression d (w ++ [e]) x

theorem Derives.mono {d d' : Nat} {φ : Phrase} {w : List Token} {k : TokenKind}
    (h : Derives d φ w k) (hd : d ≤ d') : Derives d' φ w k := by
  induction h generalizing d' with
  | identifier h₁ h₂ h₃ => exact .identifier h₁ h₂ h₃
  | scopeAccess => exact .scopeAccess
  | noElements => exact .noElements
  | element _ _ ihx ihxs => exact .element (ihx hd) (ihxs hd)
  | elementComma _ _ ihx ihxs => exact .elementComma (ihx hd) (ihxs hd)
  | noArguments => exact .noArguments
  | lastArgument _ ih => exact .lastArgument (ih hd)
  | argument _ _ ihx ihxs => exact .argument (ihx hd) (ihxs hd)
  | string => exact .string
  | number h hfits => exact .number h hfits
  | negative h hfits => exact .negative h hfits
  | ofTarget _ ih => exact .ofTarget (ih hd)
  | ofCall _ ih => exact .ofCall (ih hd)
  | ofPrimary _ ih => exact .ofPrimary (ih hd)
  | noOperator hk => exact .noOperator hk
  | operator _ _ ihr ihx => exact .operator (ihr hd) (ihx hd)
  | expression _ _ ihl ihx => exact .expression (ihl hd) (ihx hd)
  | callStatement _ ih => exact .callStatement (ih hd)
  | assignment _ _ iht ihv => exact .assignment (iht hd) (ihv hd)
  | noStatements => exact .noStatements
  | statement _ _ ihx ihxs => exact .statement (ihx hd) (ihxs hd)
  -- a nesting: what it allows inside is one less than what is allowed around it
  | arrayAccess _ ih =>
    obtain ⟨c, rfl⟩ := Nat.exists_eq_add_of_le' hd
    exact .arrayAccess (ih (Nat.le_add_left _ c))
  | plainCall _ hk ih =>
    obtain ⟨c, rfl⟩ := Nat.exists_eq_add_of_le' hd
    exact .plainCall (ih (Nat.le_add_left _ c)) hk
  | bodyCall _ _ ihxs ihys =>
    obtain ⟨c, rfl⟩ := Nat.exists_eq_add_of_le' hd
    exact .bodyCall (ihxs (Nat.le_add_left _ c)) (ihys (Nat.le_add_left _ c))
  | list _ ih =>
    obtain ⟨c, rfl⟩ := Nat.exists_eq_add_of_le' hd
    exact .list (ih (Nat.le_add_left _ c))
  | parenthesized _ ih =>
    obtain ⟨c, rfl⟩ := Nat.exists_eq_add_of_le' hd
    exact .parenthesized (ih (Nat.le_add_left _ c))
  | unary _ ih =>
    obtain ⟨c, rfl⟩ := Nat.exists_eq_add_of_le' hd
    exact .unary (ih (Nat.le_add_left _ c))

/-- Phrases are made of words, numbers, strings and symbols. -/
theorem Derives.forall_kind {P : TokenKind → Prop} (hident : P .ident) (hnumber : P .number)
    (hstring : P .string) (hsymbol : ∀ m, P (.symbol m)) {d : Nat} {φ : Phrase}
    {w : List Token} {k : TokenKind} (h : Derives d φ w k) : ∀ t ∈ w, P t.kind := by
  induction h with
  | element _ _ ihx ihxs | statement _ _ ihx ihxs | expression _ _ ihx ihxs =>
    exact List.forall_mem_append.mpr ⟨ihx, ihxs⟩
  | elementComma _ _ ihx ihxs | argument _ _ ihx ihxs | assignment _ _ ihx ihxs =>
    exact List.forall_mem_append.mpr ⟨ihx, List.forall_mem_cons.mpr ⟨hsymbol _, ihxs⟩⟩
  | operator _ _ ihr ihx =>
    exact List.forall_mem_cons.mpr ⟨hsymbol _, List.forall_mem_append.mpr ⟨ihr, ihx⟩⟩
  | bodyCall _ _ ihxs ihys => simpa [or_imp, forall_and, hident, hsymbol] using ⟨ihxs, ihys⟩
  | lastArgument _ ih | ofTarget _ ih | ofCall _ ih | ofPrimary _ ih | callStatement _ ih =>
    exact ih
  | unary _ ih => exact List.forall_mem_cons.mpr ⟨hsymbol _, ih⟩
  | arrayAccess _ ih | plainCall _ _ ih | list _ ih | parenthesized _ ih =>
    simpa [or_imp, forall_and, hident, hsymbol] using ih
  | _ => simp [hident, hnumber, hstring, hsymbol]

/-- The end of the input is part of no phrase. -/
theorem Derives.ne_endOfInput {d : Nat} {φ : Phrase} {w : List Token} {k : TokenKind}
    (h : Derives d φ w k) : ∀ t ∈ w, t.kind ≠ .endOfInput :=
  h.forall_kind (P := (· ≠ .endOfInput)) nofun nofun nofun fun _ => nofun

/-- No token of a program is a stray character. -/
theorem DerivesProgram.ne_stray {d : Nat} {ts : List Token} {x : Node}
    (h : DerivesProgram d ts x) : ∀ t ∈ ts, t.kind ≠ .stray := by
  cases h with
  | intro he hxs =>
    have hw := hxs.forall_kind (P := (· ≠ .stray)) nofun nofun nofun fun _ => nofun
    refine List.forall_mem_append.mpr ⟨hw, ?_⟩
    rw [List.forall_mem_singleton, he]
    exact nofun

theorem DerivesProgram.mono {d d' : Nat} {ts : List Token} {x : Node}
    (h : DerivesProgram d ts x) (hd : d ≤ d') : DerivesProgram d' ts x := by
  obtain ⟨he, hxs⟩ := h
  exact .intro he (hxs.mono hd)

theorem DerivesExpression.mono {d d' : Nat} {ts : List Token} {x : Node}
    (h : DerivesExpression d ts x) (hd : d ≤ d') : DerivesExpression d' ts x := by
  obtain ⟨he, hx⟩ := h
  exact .intro he (hx.mono hd)

theorem DerivesProgram.exists_statements {d : Nat} {w : List Token} {e : Token} {x : Node}
    (h : DerivesProgram d (w ++ [e]) x) :
    ∃ xs, Derives d (.statements xs) w .endOfInput ∧ x = .list xs (w.headD e).pos := by
  generalize hts : w ++ [e] = ts at h
  obtain ⟨he, hxs⟩ := h
  obtain ⟨rfl, hlast⟩ := List.append_inj' hts rfl
  cases hlast
  exact ⟨_, hxs, rfl⟩

theorem DerivesExpression.expression {d : Nat} {w : List Token} {e : Token} {x : Node}
    (h : DerivesExpression d (w ++ [e]) x) : Derives d (.expression x) w .endOfInput := by
  generalize hts : w ++ [e] = ts at h
  obtain ⟨-, hx⟩ := h
  obtain ⟨rfl, -⟩ := List.append_inj' hts rfl
  exact hx

/-! ### The first token of a phrase -/

/-- Whether an operand can begin with a token of the kind. -/
def startsOperand : TokenKind → Bool
  | .ident | .string | .number => true
  | .symbol .lbrack | .symbol .lparen | .symbol .sub | .symbol .not => true
  | _ => false

theorem ne_of_startsOperand {k k' : TokenKind} (h : startsOperand k)
    (h' : startsOperand k' = false) : k ≠ k' := by
  rintro rfl
  rw [h] at h'
  cases h'

/-- What the tokens of a phrase begin with, if they must begin with anything. -/
def Phrase.Starts : Phrase → List Token → Prop
  | .expression _, w | .unary _, w | .primary _, w =>
    ∃ t w', w = t :: w' ∧ startsOperand t.kind
  | .target _, w | .call _, w | .statement _, w => ∃ t w', w = t :: w' ∧ t.kind = .ident
  | .elements _, w => w = [] ∨ ∃ t w', w = t :: w' ∧ startsOperand t.kind
  | _, _ => True

theorem Derives.starts {d : Nat} {φ : Phrase} {w : List Token} {k : TokenKind}
    (h : Derives d φ w k) : φ.Starts w := by
  induction h with
  | identifier | arrayAccess | scopeAccess | plainCall | bodyCall => exact ⟨_, _, rfl, rfl⟩
  | list | string | number | negative | parenthesized => exact ⟨_, _, rfl, rfl⟩
  | unary => exact ⟨_, _, rfl, rfl⟩
  | ofTarget _ ih | ofCall _ ih =>
    obtain ⟨t, w', rfl, ht⟩ := ih
    exact ⟨t, w', rfl, by rw [ht]; rfl⟩
  | ofPrimary _ ih | callStatement _ ih => exact ih
  | noElements => exact .inl rfl
  | element _ _ ih _ | elementComma _ _ ih _ =>
    obtain ⟨t, w', rfl, ht⟩ := ih
    exact .inr ⟨t, _, rfl, ht⟩
  | expression _ _ ih _ | assignment _ _ ih _ =>
    obtain ⟨t, w', rfl, ht⟩ := ih
    exact ⟨t, _, rfl, ht⟩
  | _ => trivial

/-- Statements are made of tokens. -/
theorem Derives.statements_eq_nil {d : Nat} {xs : List Node} {w : List Token} {k : TokenKind}
    (h : Derives d (.statements xs) w k) : xs = [] ↔ w = [] := by
  cases h with
  | noStatements => exact iff_of_true rfl rfl
  | statement hx _ =>
    obtain ⟨t, w', rfl, -⟩ := hx.starts
    exact iff_of_false nofun nofun

/-- The token that an expression begins with can begin an operand. -/
theorem Derives.starts_front {d : Nat} {x : Node} {w : List Token} {k : TokenKind}
    (h : Derives d (.expression x) w k) (s : Setting) (rest : List Token) :
    startsOperand (front s (w ++ rest)).kind := by
  obtain ⟨t, u, rfl, ht⟩ := h.starts
  exact ht

theorem kind_front_append (s : Setting) (w rest : List Token) :
    (front s (w ++ rest)).kind = firstKind w (front s rest).kind := by
  cases w <;> rfl

/-- An expression is made of tokens. -/
theorem Derives.length_lt {d : Nat} {x : Node} {w : List Token} {k : TokenKind}
    (h : Derives d (.expression x) w k) (rest : List Token) :
    rest.length < (w ++ rest).length := by
  obtain ⟨t, u, rfl, -⟩ := h.starts
  rw [List.cons_append, List.length_cons, List.length_append]
  omega

/-! ### What may follow a phrase -/

/-- The kinds of tokens that may follow an operand: none of them would go on with it. -/
def Trails (k : TokenKind) : Prop :=
  k ≠ .symbol .lparen ∧ k ≠ .symbol .lbrack ∧ k ≠ .symbol .dot ∧ k ≠ .symbol .lbrace

/-- The kinds of tokens that may follow an expression. -/
def Ends (k : TokenKind) : Prop := Trails k ∧ k.isBinary = false

theorem ends_closing {m : Symbol} (h : m = .rbrack ∨ m = .rparen ∨ m = .comma) :
    Ends (.symbol m) := by
  rcases h with rfl | rfl | rfl <;> exact ⟨by simp [Trails], rfl⟩

theorem ends_endOfInput : Ends .endOfInput := ⟨by simp [Trails], rfl⟩

theorem trails_operator (o : BinaryOp) : Trails (.symbol o.symbol) := by
  cases o <;> simp [Trails, BinaryOp.symbol]

/-- What follows a phrase may be exchanged for anything that does not go on with it. -/
theorem Derives.follow {d : Nat} {φ : Phrase} {w : List Token} {k : TokenKind}
    (h : Derives d φ w k) : ∀ {k'}, Ends k' → Derives d φ w k' := by
  -- between two parts of a phrase, what follows the first is exchanged if the second is empty
  have hnext : ∀ {d φ w w' k k'}, Derives d φ w (firstKind w' k) →
      (∀ {k'}, Ends k' → Derives d φ w k') → Ends k' → Derives d φ w (firstKind w' k') := by
    intro d φ w w' k k' hw ih hk
    cases w' with
    | nil => exact ih hk
    | cons t w' => exact hw
  induction h with
  | identifier => exact fun hk => .identifier hk.1.1 hk.1.2.1 hk.1.2.2.1
  | arrayAccess hi _ => exact fun _ => .arrayAccess hi
  | scopeAccess => exact fun _ => .scopeAccess
  | noElements => exact fun _ => .noElements
  | element hx _ ihx ihxs => exact fun hk => .element (hnext hx ihx hk) (ihxs hk)
  | elementComma hx _ _ ihxs => exact fun hk => .elementComma hx (ihxs hk)
  | noArguments => exact fun _ => .noArguments
  | lastArgument _ ih => exact fun hk => .lastArgument (ih hk)
  | argument hx _ _ ihxs => exact fun hk => .argument hx (ihxs hk)
  | plainCall hxs _ _ => exact fun hk => .plainCall hxs hk.1.2.2.2
  | bodyCall hxs hys _ _ => exact fun _ => .bodyCall hxs hys
  | list hxs _ => exact fun _ => .list hxs
  | string => exact fun _ => .string
  | number htext hfits => exact fun _ => .number htext hfits
  | negative htext hfits => exact fun _ => .negative htext hfits
  | parenthesized hx _ => exact fun _ => .parenthesized hx
  | ofTarget _ ih => exact fun hk => .ofTarget (ih hk)
  | ofCall _ ih => exact fun hk => .ofCall (ih hk)
  | unary _ ih => exact fun hk => .unary (ih hk)
  | ofPrimary _ ih => exact fun hk => .ofPrimary (ih hk)
  | noOperator => exact fun hk => .noOperator hk.2
  | operator hr _ ihr ihx => exact fun hk => .operator (hnext hr ihr hk) (ihx hk)
  | expression hl _ ihl ihx => exact fun hk => .expression (hnext hl ihl hk) (ihx hk)
  | callStatement _ ih => exact fun hk => .callStatement (ih hk)
  | assignment ht _ _ ihv => exact fun hk => .assignment ht (ihv hk)
  | noStatements => exact fun _ => .noStatements
  | statement hx _ ihx ihxs => exact fun hk => .statement (hnext hx ihx hk) (ihxs hk)

/-- The constructs that an operator may follow. -/
def Phrase.IsOperand : Phrase → Prop
  | .unary _ | .primary _ | .target _ | .call _ => True
  | _ => False

/-- An operand may be followed by anything that does not go on with it, be it an operator. -/
theorem Derives.trails {d : Nat} {φ : Phrase} {w : List Token} {k k' : TokenKind}
    (h : Derives d φ w k) (hφ : φ.IsOperand) (hk' : Trails k') : Derives d φ w k' := by
  induction h with
  | identifier => exact .identifier hk'.1 hk'.2.1 hk'.2.2.1
  | arrayAccess hi _ => exact .arrayAccess hi
  | scopeAccess => exact .scopeAccess
  | plainCall hxs _ _ => exact .plainCall hxs hk'.2.2.2
  | bodyCall hxs hys _ _ => exact .bodyCall hxs hys
  | list hxs _ => exact .list hxs
  | string => exact .string
  | number htext hfits => exact .number htext hfits
  | negative htext hfits => exact .negative htext hfits
  | parenthesized hx _ => exact .parenthesized hx
  | ofTarget _ ih => exact .ofTarget (ih trivial)
  | ofCall _ ih => exact .ofCall (ih trivial)
  | unary _ ih => exact .unary (ih trivial)
  | ofPrimary _ ih => exact .ofPrimary (ih trivial)
  | _ => exact hφ.elim

/-- More may come after what follows an operand, and if nothing followed it, after the operand
itself. -/
theorem Derives.trails_append {d : Nat} {φ : Phrase} {w u u' : List Token} {k k' : TokenKind}
    (h : Derives d φ w (firstKind u k)) (hφ : φ.IsOperand) (hk' : Trails (firstKind u' k')) :
    Derives d φ w (firstKind (u ++ u') k') := by
  cases u with
  | nil => exact h.trails hφ hk'
  | cons t u => exact h

/-- Operators and their operands can follow operators and their operands, and are folded to the
left all together. -/
theorem Derives.chain_append {d : Nat} {l y z : Node} {w w' : List Token} {k k' : TokenKind}
    (h : Derives d (.chain l y) w k) (h' : Derives d (.chain y z) w' k')
    (hk' : Trails (firstKind w' k')) : Derives d (.chain l z) (w ++ w') k' := by
  -- by induction on what goes before: only its last operand is followed by something else now
  generalize hφ : Phrase.chain l y = φ at h
  induction h generalizing l with
  | noOperator _ =>
    cases hφ
    exact h'
  | operator hr _ _ ih =>
    cases hφ
    rw [List.cons_append, List.append_assoc]
    exact .operator (hr.trails_append trivial hk') (ih h' rfl)
  | _ => cases hφ

/-- Operators and their operands can follow an expression, which is then the leftmost
operand. -/
theorem Derives.expression_append {d : Nat} {y z : Node} {w w' : List Token} {k k' : TokenKind}
    (h : Derives d (.expression y) w k) (h' : Derives d (.chain y z) w' k')
    (hk' : Trails (firstKind w' k')) : Derives d (.expression z) (w ++ w') k' := by
  cases h with
  | expression hl hy =>
    rw [List.append_assoc]
    exact .expression (hl.trails_append trivial hk') (hy.chain_append h' hk')

/-- Statements begin with a word, if there are any. -/
theorem Derives.firstKind_statements {d : Nat} {xs : List Node} {w : List Token} {k : TokenKind}
    (h : Derives d (.statements xs) w k) : firstKind w k = k ∨ firstKind w k = .ident := by
  cases h with
  | noStatements => exact .inl rfl
  | statement hx _ =>
    obtain ⟨t, w', rfl, ht⟩ := hx.starts
    exact .inr ht

theorem Derives.statements_singleton {d : Nat} {x : Node} {w : List Token} {k : TokenKind}
    (h : Derives d (.statement x) w k) : Derives d (.statements [x]) w k := by
  have hone : Derives d (.statements [x]) (w ++ []) k := .statement h .noStatements
  rwa [List.append_nil] at hone

/-- Statements can be followed by statements. -/
theorem Derives.statements_append {d : Nat} {xs ys : List Node} {w w' : List Token}
    {k k' : TokenKind} (h : Derives d (.statements xs) w k) (h' : Derives d (.statements ys) w' k')
    (hk' : Ends k') : Derives d (.statements (xs ++ ys)) (w ++ w') k' := by
  have hends : Ends (firstKind w' k') := by
    rcases h'.firstKind_statements with hfirst | hfirst
    · rwa [hfirst]
    · rw [hfirst]
      exact ⟨by simp [Trails], rfl⟩
  induction xs generalizing w with
  | nil =>
    cases h
    exact h'
  | cons x xs ih =>
    cases h with
    | @statement _ _ _ v u _ hx hxs =>
      rw [List.append_assoc]
      refine .statement ?_ (ih hxs)
      cases u with
      | nil => exact hx.follow hends
      | cons t u => exact hx

/-! ### Operators and their texts -/

theorem isUnary_symbol (o : UnaryOp) : (TokenKind.symbol o.symbol).isUnary = true := rfl

theorem isBinary_symbol (o : BinaryOp) : (TokenKind.symbol o.symbol).isBinary = true := by
  cases o <;> rfl

theorem isAssign_symbol (o : AssignOp) : (TokenKind.symbol o.symbol).isAssign = true := by
  cases o <;> rfl

theorem unary?_text (o : UnaryOp) (x : Node) (p : Pos) :
    Node.unary? o.symbol.text x p = .ok (.unary o x p) := by
  rw [Node.unary?, show UnaryOp.ofText? o.symbol.text = some o from UnaryOp.ofText?_text o]

theorem binary?_text (l : Node) (o : BinaryOp) (r : Node) (p : Pos) :
    Node.binary? l o.symbol.text r p = .ok (.binary l o r p) := by
  rw [Node.binary?, show BinaryOp.ofText? o.symbol.text = some o from BinaryOp.ofText?_text o]

theorem assignment?_text {t : Node} (ht : t.isTarget = true) (o : AssignOp) (v : Node)
    (p : Pos) : Node.assignment? t o.symbol.text v p = .ok (.assignment t o v p) := by
  rw [Node.assignment?, if_pos ht,
    show AssignOp.ofText? o.symbol.text = some o from AssignOp.ofText?_text o]

theorem isTarget_of_derives {d : Nat} {x : Node} {w : List Token} {k : TokenKind}
    (h : Derives d (.target x) w k) : x.isTarget = true := by
  cases h <;> rfl

/-- A token whose symbol is that of an operator is written like the operator. -/
theorem eq_mark_of_any {Op : Type} {ops : List Op} {symbol : Op → Symbol} {t : Token}
    (h : t.IsGenuine) {m : Symbol} (hk : t.kind = .symbol m)
    (hm : ops.any (symbol · == m) = true) : ∃ o, t = mark (symbol o) t.pos := by
  obtain ⟨o, -, ho⟩ := List.any_eq_true.mp hm
  exact ⟨o, eq_mark h (by rw [hk, eq_of_beq ho])⟩

theorem eq_mark_of_isUnary {t : Token} (h : t.IsGenuine) (hk : t.kind.isUnary = true) :
    ∃ o : UnaryOp, t = mark o.symbol t.pos := by
  cases ht : t.kind with
  | symbol m => exact eq_mark_of_any h ht (by rwa [ht] at hk)
  | _ =>
    rw [ht] at hk
    cases hk

theorem eq_mark_of_isBinary {t : Token} (h : t.IsGenuine) (hk : t.kind.isBinary = true) :
    ∃ o : BinaryOp, t = mark o.symbol t.pos := by
  cases ht : t.kind with
  | symbol m => exact eq_mark_of_any h ht (by rwa [ht] at hk)
  | _ =>
    rw [ht] at hk
    cases hk

theorem eq_mark_of_isAssign {t : Token} (h : t.IsGenuine) (hk : t.kind.isAssign = true) :
    ∃ o : AssignOp, t = mark o.symbol t.pos := by
  cases ht : t.kind with
  | symbol m => exact eq_mark_of_any h ht (by rwa [ht] at hk)
  | _ =>
    rw [ht] at hk
    cases hk

end Grammar

end GnLang
