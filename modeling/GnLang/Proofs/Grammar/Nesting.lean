/-
How many nestings a program opens at once.

`Nests n φ w k` says that the tokens `w`, followed by a token of kind `k`, form the phrase
`φ`, and that `n` is the largest number of nestings open at once in it.  The constructs that
open one are lists, parentheses, indices, the arguments of a call, its body, and the
operands of '!'.  Each counts one more than what is inside it, even if that is nothing; of
phrases that stand next to each other the larger number counts.

`Derives d` allows `d` nestings, so it is `Nests n` for some `n` that is no larger
(`Derives.exists_nests`).  Conversely a rule that succeeds on the tokens must have had as
many nestings to open (`Nests.le`), and so the number is the least limit within which the
tokens are a program: `NestsProgram.derives_iff`.
-/
import GnLang.Proofs.Grammar.Completeness

namespace GnLang.Grammar

open Rule Token

/-- The tokens, followed by a token of the kind, form the phrase; the number is that of the
nestings open at once where most are. -/
inductive Nests : Nat → Phrase → List Token → TokenKind → Prop where
  | identifier {n : String} {p : Pos} {k : TokenKind} :
      k ≠ .symbol .lparen → k ≠ .symbol .lbrack → k ≠ .symbol .dot →
      Nests 0 (.target (.identifier n p)) [word n p] k
  | arrayAccess {m : Nat} {n : String} {i : Node} {w : List Token} {p q r : Pos}
      {k : TokenKind} :
      Nests m (.expression i) w (.symbol .rbrack) →
      Nests (m + 1) (.target (.arrayAccess n i p))
        (word n p :: mark .lbrack q :: (w ++ [mark .rbrack r])) k
  | scopeAccess {n m : String} {p q r : Pos} {k : TokenKind} :
      Nests 0 (.target (.scopeAccess n m p)) [word n p, mark .dot q, word m r] k
  | noElements {k : TokenKind} : Nests 0 (.elements []) [] k
  | element {m m' : Nat} {x : Node} {xs : List Node} {w w' : List Token} {k : TokenKind} :
      Nests m (.expression x) w (firstKind w' k) → Nests m' (.elements xs) w' k →
      Nests (max m m') (.elements (x :: xs)) (w ++ w') k
  | elementComma {m m' : Nat} {x : Node} {xs : List Node} {w w' : List Token} {p : Pos}
      {k : TokenKind} :
      Nests m (.expression x) w (.symbol .comma) → Nests m' (.elements xs) w' k →
      Nests (max m m') (.elements (x :: xs)) (w ++ mark .comma p :: w') k
  | noArguments {k : TokenKind} : Nests 0 (.arguments []) [] k
  | lastArgument {m : Nat} {x : Node} {w : List Token} {k : TokenKind} :
      Nests m (.expression x) w k → Nests m (.arguments [x]) w k
  | argument {m m' : Nat} {x : Node} {xs : List Node} {w w' : List Token} {p : Pos}
      {k : TokenKind} :
      Nests m (.expression x) w (.symbol .comma) → Nests m' (.arguments xs) w' k →
      Nests (max m m') (.arguments (x :: xs)) (w ++ mark .comma p :: w') k
  | plainCall {m : Nat} {n : String} {xs : List Node} {w : List Token} {p q r : Pos}
      {k : TokenKind} :
      Nests m (.arguments xs) w (.symbol .rparen) → k ≠ .symbol .lbrace →
      Nests (m + 1) (.call (.call n (.list xs q) none p))
        (word n p :: mark .lparen q :: (w ++ [mark .rparen r])) k
  | bodyCall {m m' : Nat} {n : String} {xs ys : List Node} {w w' : List Token}
      {p q r b c : Pos} {k : TokenKind} :
      Nests m (.arguments xs) w (.symbol .rparen) →
      Nests m' (.statements ys) w' (.symbol .rbrace) →
      Nests (max (m + 1) (m' + 1)) (.call (.call n (.list xs q) (some (.list ys b)) p))
        (word n p :: mark .lparen q ::
          (w ++ mark .rparen r :: mark .lbrace b :: (w' ++ [mark .rbrace c]))) k
  | list {m : Nat} {xs : List Node} {w : List Token} {p q : Pos} {k : TokenKind} :
      Nests m (.elements xs) w (.symbol .rbrack) →
      Nests (m + 1) (.primary (.list xs p)) (mark .lbrack p :: (w ++ [mark .rbrack q])) k
  | string {v : String} {p : Pos} {k : TokenKind} :
      Nests 0 (.primary (.string v p)) [quoted v p] k
  | number {n : Nat} {text : String} {p : Pos} {k : TokenKind} :
      Text.Numeral text n → Node.fitsInteger n →
      Nests 0 (.primary (.integer n p)) [digits text p] k
  | negative {n : Nat} {text : String} {p q : Pos} {k : TokenKind} :
      Text.Numeral text n → Node.fitsInteger (-n) →
      Nests 0 (.primary (.integer (-n) p)) [mark .sub p, digits text q] k
  | parenthesized {m : Nat} {x : Node} {w : List Token} {p q : Pos} {k : TokenKind} :
      Nests m (.expression x) w (.symbol .rparen) →
      Nests (m + 1) (.primary x) (mark .lparen p :: (w ++ [mark .rparen q])) k
  | ofTarget {m : Nat} {x : Node} {w : List Token} {k : TokenKind} :
      Nests m (.target x) w k → Nests m (.primary x) w k
  | ofCall {m : Nat} {x : Node} {w : List Token} {k : TokenKind} :
      Nests m (.call x) w k → Nests m (.primary x) w k
  | unary {m : Nat} {o : UnaryOp} {x : Node} {w : List Token} {p : Pos} {k : TokenKind} :
      Nests m (.unary x) w k →
      Nests (m + 1) (.unary (.unary o x p)) (mark o.symbol p :: w) k
  | ofPrimary {m : Nat} {x : Node} {w : List Token} {k : TokenKind} :
      Nests m (.primary x) w k → Nests m (.unary x) w k
  | noOperator {x : Node} {k : TokenKind} : k.isBinary = false → Nests 0 (.chain x x) [] k
  | operator {m m' : Nat} {l r x : Node} {o : BinaryOp} {w w' : List Token} {p : Pos}
      {k : TokenKind} :
      Nests m (.unary r) w (firstKind w' k) →
      Nests m' (.chain (.binary l o r l.pos) x) w' k →
      Nests (max m m') (.chain l x) (mark o.symbol p :: (w ++ w')) k
  | expression {m m' : Nat} {l x : Node} {w w' : List Token} {k : TokenKind} :
      Nests m (.unary l) w (firstKind w' k) → Nests m' (.chain l x) w' k →
      Nests (max m m') (.expression x) (w ++ w') k
  | callStatement {m : Nat} {x : Node} {w : List Token} {k : TokenKind} :
      Nests m (.call x) w k → Nests m (.statement x) w k
  | assignment {m m' : Nat} {t v : Node} {o : AssignOp} {w w' : List Token} {p : Pos}
      {k : TokenKind} :
      Nests m (.target t) w (.symbol o.symbol) → Nests m' (.expression v) w' k →
      Nests (max m m') (.statement (.assignment t o v t.pos)) (w ++ mark o.symbol p :: w') k
  | noStatements {k : TokenKind} : Nests 0 (.statements []) [] k
  | statement {m m' : Nat} {x : Node} {xs : List Node} {w w' : List Token} {k : TokenKind} :
      Nests m (.statement x) w (firstKind w' k) → Nests m' (.statements xs) w' k →
      Nests (max m m') (.statements (x :: xs)) (w ++ w') k

/-- The tokens of a whole text are a program, and the number is that of the nestings open at
once where most are. -/
inductive NestsProgram (n : Nat) : List Token → Node → Prop where
  | intro {xs : List Node} {w : List Token} {e : Token} :
      e.kind = .endOfInput → Nests n (.statements xs) w .endOfInput →
      NestsProgram n (w ++ [e]) (.list xs (w.headD e).pos)

/-- The tokens of a whole text are a single expression, and the number is that of the nestings
open at once where most are. -/
inductive NestsExpression (n : Nat) : List Token → Node → Prop where
  | intro {x : Node} {w : List Token} {e : Token} :
      e.kind = .endOfInput → Nests n (.expression x) w .endOfInput →
      NestsExpression n (w ++ [e]) x

/-! ### What is opened and what may be opened -/

/-- It is enough to allow the nestings that are open where most are. -/
theorem Nests.derives {n : Nat} {φ : Phrase} {w : List Token} {k : TokenKind}
    (h : Nests n φ w k) : Derives n φ w k := by
  induction h with
  | identifier h₁ h₂ h₃ => exact .identifier h₁ h₂ h₃
  | arrayAccess _ ih => exact .arrayAccess ih
  | scopeAccess => exact .scopeAccess
  | noElements => exact .noElements
  | element _ _ ihx ihxs =>
    exact .element (ihx.mono (Nat.le_max_left _ _)) (ihxs.mono (Nat.le_max_right _ _))
  | elementComma _ _ ihx ihxs =>
    exact .elementComma (ihx.mono (Nat.le_max_left _ _)) (ihxs.mono (Nat.le_max_right _ _))
  | noArguments => exact .noArguments
  | lastArgument _ ih => exact .lastArgument ih
  | argument _ _ ihx ihxs =>
    exact .argument (ihx.mono (Nat.le_max_left _ _)) (ihxs.mono (Nat.le_max_right _ _))
  | plainCall _ hk ih => exact .plainCall ih hk
  | bodyCall _ _ ihxs ihys =>
    rw [Nat.add_max_add_right]
    exact .bodyCall (ihxs.mono (Nat.le_max_left _ _)) (ihys.mono (Nat.le_max_right _ _))
  | list _ ih => exact .list ih
  | string => exact .string
  | number h hfits => exact .number h hfits
  | negative h hfits => exact .negative h hfits
  | parenthesized _ ih => exact .parenthesized ih
  | ofTarget _ ih => exact .ofTarget ih
  | ofCall _ ih => exact .ofCall ih
  | unary _ ih => exact .unary ih
  | ofPrimary _ ih => exact .ofPrimary ih
  | noOperator hk => exact .noOperator hk
  | operator _ _ ihr ihx =>
    exact .operator (ihr.mono (Nat.le_max_left _ _)) (ihx.mono (Nat.le_max_right _ _))
  | expression _ _ ihl ihx =>
    exact .expression (ihl.mono (Nat.le_max_left _ _)) (ihx.mono (Nat.le_max_right _ _))
  | callStatement _ ih => exact .callStatement ih
  | assignment _ _ iht ihv =>
    exact .assignment (iht.mono (Nat.le_max_left _ _)) (ihv.mono (Nat.le_max_right _ _))
  | noStatements => exact .noStatements
  | statement _ _ ihx ihxs =>
    exact .statement (ihx.mono (Nat.le_max_left _ _)) (ihxs.mono (Nat.le_max_right _ _))

/-- Where some nestings are allowed, no more are open at once. -/
theorem Derives.exists_nests {d : Nat} {φ : Phrase} {w : List Token} {k : TokenKind}
    (h : Derives d φ w k) : ∃ n ≤ d, Nests n φ w k := by
  -- two phrases next to each other, and a nesting around a phrase
  have hboth : ∀ {d φ ψ w w' k k'}, (∃ n ≤ d, Nests n φ w k) → (∃ n ≤ d, Nests n ψ w' k') →
      ∃ m m', max m m' ≤ d ∧ Nests m φ w k ∧ Nests m' ψ w' k' := by
    rintro d φ ψ w w' k k' ⟨m, hm, h⟩ ⟨m', hm', h'⟩
    exact ⟨m, m', Nat.max_le.mpr ⟨hm, hm'⟩, h, h'⟩
  induction h with
  | identifier h₁ h₂ h₃ => exact ⟨0, Nat.zero_le _, .identifier h₁ h₂ h₃⟩
  | scopeAccess => exact ⟨0, Nat.zero_le _, .scopeAccess⟩
  | noElements => exact ⟨0, Nat.zero_le _, .noElements⟩
  | noArguments => exact ⟨0, Nat.zero_le _, .noArguments⟩
  | string => exact ⟨0, Nat.zero_le _, .string⟩
  | number h hfits => exact ⟨0, Nat.zero_le _, .number h hfits⟩
  | negative h hfits => exact ⟨0, Nat.zero_le _, .negative h hfits⟩
  | noOperator hk => exact ⟨0, Nat.zero_le _, .noOperator hk⟩
  | noStatements => exact ⟨0, Nat.zero_le _, .noStatements⟩
  | element _ _ ihx ihxs =>
    obtain ⟨m, m', hm, hx, hxs⟩ := hboth ihx ihxs
    exact ⟨_, hm, .element hx hxs⟩
  | elementComma _ _ ihx ihxs =>
    obtain ⟨m, m', hm, hx, hxs⟩ := hboth ihx ihxs
    exact ⟨_, hm, .elementComma hx hxs⟩
  | argument _ _ ihx ihxs =>
    obtain ⟨m, m', hm, hx, hxs⟩ := hboth ihx ihxs
    exact ⟨_, hm, .argument hx hxs⟩
  | operator _ _ ihr ihx =>
    obtain ⟨m, m', hm, hr, hx⟩ := hboth ihr ihx
    exact ⟨_, hm, .operator hr hx⟩
  | expression _ _ ihl ihx =>
    obtain ⟨m, m', hm, hl, hx⟩ := hboth ihl ihx
    exact ⟨_, hm, .expression hl hx⟩
  | assignment _ _ iht ihv =>
    obtain ⟨m, m', hm, ht, hv⟩ := hboth iht ihv
    exact ⟨_, hm, .assignment ht hv⟩
  | statement _ _ ihx ihxs =>
    obtain ⟨m, m', hm, hx, hxs⟩ := hboth ihx ihxs
    exact ⟨_, hm, .statement hx hxs⟩
  | bodyCall _ _ ihxs ihys =>
    obtain ⟨m, m', hm, hxs, hys⟩ := hboth ihxs ihys
    refine ⟨_, ?_, .bodyCall hxs hys⟩
    rw [Nat.add_max_add_right]
    exact Nat.succ_le_succ hm
  | lastArgument _ ih =>
    obtain ⟨m, hm, h⟩ := ih
    exact ⟨m, hm, .lastArgument h⟩
  | ofTarget _ ih =>
    obtain ⟨m, hm, h⟩ := ih
    exact ⟨m, hm, .ofTarget h⟩
  | ofCall _ ih =>
    obtain ⟨m, hm, h⟩ := ih
    exact ⟨m, hm, .ofCall h⟩
  | ofPrimary _ ih =>
    obtain ⟨m, hm, h⟩ := ih
    exact ⟨m, hm, .ofPrimary h⟩
  | callStatement _ ih =>
    obtain ⟨m, hm, h⟩ := ih
    exact ⟨m, hm, .callStatement h⟩
  | arrayAccess _ ih =>
    obtain ⟨m, hm, h⟩ := ih
    exact ⟨m + 1, Nat.succ_le_succ hm, .arrayAccess h⟩
  | plainCall _ hk ih =>
    obtain ⟨m, hm, h⟩ := ih
    exact ⟨m + 1, Nat.succ_le_succ hm, .plainCall h hk⟩
  | list _ ih =>
    obtain ⟨m, hm, h⟩ := ih
    exact ⟨m + 1, Nat.succ_le_succ hm, .list h⟩
  | parenthesized _ ih =>
    obtain ⟨m, hm, h⟩ := ih
    exact ⟨m + 1, Nat.succ_le_succ hm, .parenthesized h⟩
  | unary _ ih =>
    obtain ⟨m, hm, h⟩ := ih
    exact ⟨m + 1, Nat.succ_le_succ hm, .unary h⟩

/-! ### What a rule must be able to open -/

/-- The rule for the phrase, with `d` nestings to open, succeeds on the tokens. -/
def Succeeds (s : Setting) (d : Nat) : Phrase → List Token → Prop
  | .expression _, ts => ∃ x rest, expression s (insideOf s d) ts = (.ok x, rest)
  | .chain l _, ts => ∃ x rest, chainAt s d l ts = (.ok x, rest)
  | .unary _, ts => ∃ x rest, Grammar.unary s (insideOf s d) ts = (.ok x, rest)
  | .primary _, ts => ∃ x rest, primary s (insideOf s d) ts = (.ok x, rest)
  | .target _, ts => ∃ x rest, target s (insideOf s d) ts = (.ok x, rest)
  | .call _, ts => ∃ x rest, call s (insideOf s d) ts = (.ok x, rest)
  | .statement _, ts => ∃ x rest, statement s (insideOf s d) ts = (.ok x, rest)
  | .elements _, ts => ∃ done xs rest, elementsAt s d done ts = (.ok xs, rest)
  | .arguments _, ts => ∃ done xs rest, argumentsAt s d done ts = (.ok xs, rest)
  | .statements _, ts => ∃ done xs rest, statementsAt s d done ts = (.ok xs, rest)

variable {s : Setting}

/-- A rule that succeeds on a phrase can open as many nestings as the phrase does.  The
induction is on the phrase; once the first of two parts is known to have enough nestings,
it is known where the rule goes on with the second. -/
theorem Nests.le {n : Nat} {φ : Phrase} {w : List Token} {k : TokenKind} (h : Nests n φ w k) :
    ∀ (d : Nat) (rest : List Token), φ.StopsAt k → (front s rest).kind = k →
      Succeeds s d φ (w ++ rest) → n ≤ d := by
  induction h with
  | identifier | scopeAccess | noElements | noArguments | noOperator | noStatements =>
    exact fun _ _ _ _ _ => Nat.zero_le _
  | string | number | negative => exact fun _ _ _ _ _ => Nat.zero_le _
  | @arrayAccess m n i w p q r k _ ih =>
    rintro d rest _ hk ⟨x, mid, hx⟩
    rw [List.cons_append, List.cons_append, List.append_assoc, target_cons,
      if_pos (kind_word n p)] at hx
    obtain ⟨e, t, u, v, us, j, rfl, hts, -, -, hj, -⟩ := arrayAccess_eq_ok.mp hx
    obtain ⟨-, -, rfl⟩ : _ ∧ _ ∧ _ := by simpa using hts
    exact Nat.succ_le_succ (ih e (mark .rbrack r :: rest) trivial rfl ⟨j, _, hj⟩)
  | @list m xs w p q k _ ih =>
    rintro d rest _ hk ⟨x, mid, hx⟩
    rw [List.cons_append, List.append_assoc, primary_cons] at hx
    obtain ⟨e, t, u, us, ys, rfl, hts, -, hys, -⟩ := bracketedList_eq_ok.mp hx
    obtain ⟨-, rfl⟩ := List.cons.inj hts
    exact Nat.succ_le_succ (ih e (mark .rbrack q :: rest) rfl rfl ⟨[], ys, _, hys⟩)
  | @parenthesized m x w p q k _ ih =>
    rintro d rest _ hk ⟨y, mid, hy⟩
    rw [List.cons_append, List.append_assoc, primary_cons] at hy
    obtain ⟨e, t, u, us, rfl, hts, -, hy, -⟩ := parenthesized_eq_ok.mp hy
    obtain ⟨-, rfl⟩ := List.cons.inj hts
    exact Nat.succ_le_succ (ih e (mark .rparen q :: rest) trivial rfl ⟨y, _, hy⟩)
  | @unary m o x w p k _ ih =>
    rintro d rest _ hk ⟨y, mid, hy⟩
    rcases unary_eq_ok.mp hy with ⟨hno, -⟩ | ⟨e, t, us, z, rfl, hts, -, hz, -⟩
    · cases hno
    · obtain ⟨-, rfl⟩ := List.cons.inj hts
      exact Nat.succ_le_succ (ih e rest trivial hk ⟨z, _, hz⟩)
  | @plainCall m n xs w p q r k _ _ ih =>
    rintro d rest _ hk ⟨x, mid, hx⟩
    obtain ⟨e, t, u, v, us, us', ys, rfl, hts, -, -, hys, -⟩ := call_eq_ok.mp hx
    rw [List.cons_append, List.cons_append, List.append_assoc] at hts
    obtain ⟨-, hts⟩ := List.cons.inj hts
    obtain ⟨-, rfl⟩ := List.cons.inj hts
    exact Nat.succ_le_succ (ih e (mark .rparen r :: rest) rfl rfl ⟨[], ys, _, hys⟩)
  | @bodyCall m m' n xs ys w w' p q r b c k hxs _ ihxs ihys =>
    rintro d rest _ hk ⟨x, mid, hx⟩
    obtain ⟨e, t, u, v, us, us', args, rfl, hts, -, -, hargs, -, hend⟩ := call_eq_ok.mp hx
    simp only [List.append_assoc, List.cons_append, List.nil_append] at hts
    obtain ⟨-, hts⟩ := List.cons.inj hts
    obtain ⟨-, rfl⟩ := List.cons.inj hts
    have hm := ihxs e (mark .rparen r :: mark .lbrace b :: (w' ++ mark .rbrace c :: rest))
      rfl rfl ⟨[], args, _, hargs⟩
    -- the arguments end at their parenthesis, so that the body is where the brace stands
    have hread := (hxs.derives.mono hm).reads (s := s)
      (mark .rparen r :: mark .lbrace b :: (w' ++ mark .rbrace c :: rest)) rfl rfl []
    cases hread.symm.trans hargs
    rcases callEnd_eq_ok.mp hend with ⟨hno, -⟩ | ⟨body, hbody, -⟩
    · exact absurd rfl hno
    · obtain ⟨e', t, u, us, zs, he, hts, -, hzs, -⟩ := block_eq_ok.mp hbody
      obtain rfl := Nat.succ.inj he
      obtain ⟨-, rfl⟩ := List.cons.inj hts
      have hm' := ihys e (mark .rbrace c :: rest) (by simp [Phrase.StopsAt]) rfl ⟨[], zs, _, hzs⟩
      exact Nat.max_le.mpr ⟨Nat.succ_le_succ hm, Nat.succ_le_succ hm'⟩
  | ofTarget h ih =>
    rintro d rest _ hk ⟨x, mid, hx⟩
    obtain ⟨t, w', rfl, ht, hnext⟩ := h.derives.target_second rest hk
    rw [List.cons_append, primary_of_target ht hnext] at hx
    exact ih d rest trivial hk ⟨x, mid, hx⟩
  | ofCall h ih =>
    rintro d rest _ hk ⟨x, mid, hx⟩
    obtain ⟨t, u, w', rfl, ht, hu⟩ := h.derives.call_second
    rw [List.cons_append, primary_of_call ht (by exact hu)] at hx
    exact ih d rest trivial hk ⟨x, mid, hx⟩
  | ofPrimary h ih =>
    rintro d rest _ hk ⟨x, mid, hx⟩
    obtain ⟨t, w', rfl, ht⟩ := h.derives.not_isUnary
    rcases unary_eq_ok.mp hx with ⟨-, hx⟩ | ⟨e, t', us, y, -, hts, hunary, -⟩
    · exact ih d rest trivial hk ⟨x, mid, hx⟩
    · obtain ⟨rfl, -⟩ := List.cons.inj hts
      rw [ht] at hunary
      cases hunary
  | callStatement h ih =>
    rintro d rest _ hk ⟨x, mid, hx⟩
    obtain ⟨t, u, w', rfl, ht, hu⟩ := h.derives.call_second
    rw [List.cons_append, statement_cons, if_pos ⟨ht, hu⟩] at hx
    exact ih d rest trivial hk ⟨x, mid, hx⟩
  | @element m m' x xs w w' k hx hxs ihx ihxs =>
    rintro d rest hstop hk ⟨done, ys, mid, hys⟩
    obtain rfl : k = .symbol .rbrack := hstop
    have hk' : (front s (w' ++ rest)).kind = firstKind w' (.symbol .rbrack) :=
      hk ▸ kind_front_append s w' rest
    have hcomma : (front s (w' ++ rest)).kind ≠ .symbol .comma :=
      hk' ▸ hxs.derives.firstKind_ne_comma
    rw [List.append_assoc] at hys
    rcases elementsAt_eq_ok.mp hys with ⟨hend, -⟩ | ⟨-, -, y, us, hy, hys⟩
    · exact absurd hend (ne_of_startsOperand (hx.derives.starts_front s _) rfl)
    · have hm := ihx d _ trivial hk' ⟨y, us, hy⟩
      cases ((hx.derives.mono hm).reads (s := s) _ trivial hk').symm.trans hy
      rw [afterComma, if_neg hcomma] at hys
      exact Nat.max_le.mpr ⟨hm, ihxs d rest rfl hk ⟨_, ys, mid, hys⟩⟩
  | @elementComma m m' x xs w w' p k hx hxs ihx ihxs =>
    rintro d rest hstop hk ⟨done, ys, mid, hys⟩
    rw [List.append_assoc] at hys
    rcases elementsAt_eq_ok.mp hys with ⟨hend, -⟩ | ⟨-, -, y, us, hy, hys⟩
    · exact absurd hend (ne_of_startsOperand (hx.derives.starts_front s _) rfl)
    · have hm := ihx d (mark .comma p :: (w' ++ rest)) trivial rfl ⟨y, us, hy⟩
      have hread := (hx.derives.mono hm).reads (s := s) (mark .comma p :: (w' ++ rest)) trivial rfl
      cases hread.symm.trans hy
      exact Nat.max_le.mpr ⟨hm, ihxs d rest hstop hk ⟨_, ys, mid, hys⟩⟩
  | @lastArgument m x w k hx ih =>
    rintro d rest hstop hk ⟨done, ys, mid, hys⟩
    rcases argumentsAt_eq_ok.mp hys with ⟨hend, -⟩ | ⟨-, y, us, hy, -⟩
    · exact absurd hend (ne_of_startsOperand (hx.derives.starts_front s _) rfl)
    · exact ih d rest trivial hk ⟨y, us, hy⟩
  | @argument m m' x xs w w' p k hx hxs ihx ihxs =>
    rintro d rest hstop hk ⟨done, ys, mid, hys⟩
    rw [List.append_assoc] at hys
    rcases argumentsAt_eq_ok.mp hys with ⟨hend, -⟩ | ⟨-, y, us, hy, hys⟩
    · exact absurd hend (ne_of_startsOperand (hx.derives.starts_front s _) rfl)
    · have hm := ihx d (mark .comma p :: (w' ++ rest)) trivial rfl ⟨y, us, hy⟩
      have hread := (hx.derives.mono hm).reads (s := s) (mark .comma p :: (w' ++ rest)) trivial rfl
      cases hread.symm.trans hy
      rcases hys with ⟨-, hys⟩ | ⟨hno, -⟩
      · exact Nat.max_le.mpr ⟨hm, ihxs d rest hstop hk ⟨_, ys, mid, hys⟩⟩
      · exact absurd rfl hno
  | @operator m m' l r x o w w' p k hr hx ihr ihx =>
    rintro d rest _ hk ⟨y, mid, hy⟩
    have hk' : (front s (w' ++ rest)).kind = firstKind w' k := hk ▸ kind_front_append s w' rest
    rw [List.cons_append, List.append_assoc] at hy
    rcases chainAt_eq_ok.mp hy with ⟨hno, -⟩ | ⟨-, right, z, us, hright, hz, hy⟩
    · exact absurd (isBinary_symbol o) (by simpa using hno)
    · have hm := ihr d _ trivial hk' ⟨right, us, hright⟩
      cases ((hr.derives.mono hm).reads (s := s) _ trivial hk').symm.trans hright
      cases (binary?_text l o r l.pos).symm.trans hz
      exact Nat.max_le.mpr ⟨hm, ihx d rest trivial hk ⟨y, mid, hy⟩⟩
  | @expression m m' l x w w' k hl hx ihl ihx =>
    rintro d rest _ hk ⟨y, mid, hy⟩
    have hk' : (front s (w' ++ rest)).kind = firstKind w' k := hk ▸ kind_front_append s w' rest
    rw [List.append_assoc] at hy
    obtain ⟨left, us, hleft, hy⟩ := expression_eq_ok.mp hy
    have hm := ihl d _ trivial hk' ⟨left, us, hleft⟩
    cases ((hl.derives.mono hm).reads (s := s) _ trivial hk').symm.trans hleft
    exact Nat.max_le.mpr ⟨hm, ihx d rest trivial hk ⟨y, mid, hy⟩⟩
  | @assignment m m' t v o w w' p k ht hv iht ihv =>
    rintro d rest _ hk ⟨x, mid, hx⟩
    obtain ⟨u, w'', rfl, hu, hnext⟩ :=
      ht.derives.target_second (s := s) (mark o.symbol p :: (w' ++ rest)) rfl
    rw [List.append_assoc] at hx
    have hassign : Grammar.assignment s (insideOf s d) (u :: w'' ++ mark o.symbol p :: (w' ++ rest)) =
        (.ok x, mid) :=
      ((statement_cons _ _ _).trans (if_neg fun h => hnext h.2)).symm.trans hx
    obtain ⟨left, t', us, value, hleft, -, hvalue, -⟩ := assignment_eq_ok.mp hassign
    have hm := iht d (mark o.symbol p :: (w' ++ rest)) trivial rfl ⟨left, _, hleft⟩
    have hread := (ht.derives.mono hm).reads (s := s) (mark o.symbol p :: (w' ++ rest)) trivial rfl
    cases hread.symm.trans hleft
    exact Nat.max_le.mpr ⟨hm, ihv d rest trivial hk ⟨value, mid, hvalue⟩⟩
  | @statement m m' x xs w w' k hx hxs ihx ihxs =>
    rintro d rest hstop hk ⟨done, ys, mid, hys⟩
    have hk' : (front s (w' ++ rest)).kind = firstKind w' k := hk ▸ kind_front_append s w' rest
    rw [List.append_assoc] at hys
    rcases statementsAt_eq_ok.mp hys with ⟨hno, -⟩ | ⟨-, y, us, hy, hys⟩
    · obtain ⟨t, u, rfl, ht⟩ := hx.derives.starts
      exact absurd ht hno
    · have hm := ihx d _ trivial hk' ⟨y, us, hy⟩
      cases ((hx.derives.mono hm).reads (s := s) _ trivial hk').symm.trans hy
      exact Nat.max_le.mpr ⟨hm, ihxs d rest hstop hk ⟨_, ys, mid, hys⟩⟩

/-! ### Whole texts -/

/-- Tokens that are a program for which `d` nestings are allowed open a number of nestings. -/
theorem DerivesProgram.exists_nests {d : Nat} {ts : List Token} {x : Node}
    (h : DerivesProgram d ts x) : ∃ n, NestsProgram n ts x := by
  obtain ⟨he, hxs⟩ := h
  obtain ⟨n, -, hn⟩ := hxs.exists_nests
  exact ⟨n, .intro he hn⟩

/-- Tokens that are an expression for which `d` nestings are allowed open no more. -/
theorem DerivesExpression.exists_nests {d : Nat} {ts : List Token} {x : Node}
    (h : DerivesExpression d ts x) : ∃ n ≤ d, NestsExpression n ts x := by
  obtain ⟨he, hx⟩ := h
  obtain ⟨n, hle, hn⟩ := hx.exists_nests
  exact ⟨n, hle, .intro he hn⟩

theorem NestsExpression.derives {n : Nat} {ts : List Token} {x : Node}
    (h : NestsExpression n ts x) : DerivesExpression n ts x := by
  obtain ⟨he, hx⟩ := h
  exact .intro he hx.derives

/-- The tokens of a program are one within a limit exactly if the limit is no less than the
number of nestings that are open at once where most are. -/
theorem NestsProgram.derives_iff {n d : Nat} {ts : List Token} {x : Node}
    (h : NestsProgram n ts x) : DerivesProgram d ts x ↔ n ≤ d := by
  obtain ⟨he, hxs⟩ := h
  rename_i xs w e
  constructor
  · intro hd
    obtain ⟨_, hr⟩ := hd.reads ⟨.unknown, 0⟩
    obtain ⟨ys, hys, -⟩ := program_eq_ok.mp hr
    exact hxs.le d [e] (by simp [Phrase.StopsAt]) he ⟨[], ys, _, hys⟩
  · intro hn
    exact .intro he (hxs.derives.mono hn)

/-- A program opens one number of nestings only. -/
theorem NestsProgram.unique {n m : Nat} {ts : List Token} {x y : Node}
    (hx : NestsProgram n ts x) (hy : NestsProgram m ts y) : n = m := by
  have hn := hx.derives_iff.mpr (Nat.le_refl n)
  have hm := hy.derives_iff.mpr (Nat.le_refl m)
  obtain rfl := hn.unique hm
  exact Nat.le_antisymm (hx.derives_iff.mp hm) (hy.derives_iff.mp hn)

end GnLang.Grammar
