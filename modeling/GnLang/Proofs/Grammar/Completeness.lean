/-
What the grammar derives, the rules read.

`Reads s d φ ts rest` says that the rule for the phrase `φ`, with `d` nestings to open,
takes `ts` to `rest` and answers with the tree of the phrase.  `Derives.reads` proves it
of every derivation, by induction on the derivation: the tokens that follow a phrase are
the ones that its rule looks at without consuming them.

* `DerivesProgram.reads`, `DerivesExpression.reads` — whole texts;
* `DerivesProgram.unique`, `DerivesExpression.unique` — as a rule has only one answer,
  tokens are a program, or an expression, in one way only.
-/
import GnLang.Proofs.Grammar.Answers
import GnLang.Proofs.Grammar.Derivation

namespace GnLang.Grammar

open Rule Token

variable (s : Setting)

/-! ### Reading a phrase -/

/-- The rule for the phrase, with `d` nestings to open, takes `ts` to `rest`. -/
def Reads (d : Nat) : Phrase → List Token → List Token → Prop
  | .expression x, ts, rest => expression s (insideOf s d) ts = (.ok x, rest)
  | .chain l x, ts, rest => chainAt s d l ts = (.ok x, rest)
  | .unary x, ts, rest => Grammar.unary s (insideOf s d) ts = (.ok x, rest)
  | .primary x, ts, rest => primary s (insideOf s d) ts = (.ok x, rest)
  | .target x, ts, rest => target s (insideOf s d) ts = (.ok x, rest)
  | .call x, ts, rest => call s (insideOf s d) ts = (.ok x, rest)
  | .statement x, ts, rest => statement s (insideOf s d) ts = (.ok x, rest)
  | .elements xs, ts, rest =>
    ∀ done, elementsAt s d done ts = (.ok (done.reverse ++ xs), rest)
  | .arguments xs, ts, rest =>
    ∀ done, argumentsAt s d done ts = (.ok (done.reverse ++ xs), rest)
  | .statements xs, ts, rest =>
    ∀ done, statementsAt s d done ts = (.ok (done.reverse ++ xs), rest)

/-- Whether a repetition stops at a token of kind `k`.  Other phrases say themselves what
may follow them. -/
def Phrase.StopsAt : Phrase → TokenKind → Prop
  | .elements _, k => k = .symbol .rbrack
  | .arguments _, k => k = .symbol .rparen
  | .statements _, k => k ≠ .ident
  | _, _ => True

variable {s}

/-- A word that is followed by none of '(', '[' and '.' is a target on its own. -/
theorem target_of_identifier {inside : Option Inside} {n : String} {p : Pos}
    {rest : List Token} (h₁ : (front s rest).kind ≠ .symbol .lbrack)
    (h₂ : (front s rest).kind ≠ .symbol .dot) :
    target s inside (word n p :: rest) = (.ok (.identifier n p), rest) := by
  rw [target_cons, if_pos (kind_word n p)]
  split
  · rename_i h
    exact absurd h h₁
  · rename_i h
    exact absurd h h₂
  · exact identifier_eq_ok.mpr ⟨_, rfl, rfl, rfl⟩

/-- A word is a primary in the way it is a target, unless it is a call. -/
theorem primary_of_target {inside : Option Inside} {t : Token} {rest : List Token}
    (ht : t.kind = .ident) (h : (front s rest).kind ≠ .symbol .lparen) :
    primary s inside (t :: rest) = target s inside (t :: rest) := by
  rw [primary_cons, ht]
  exact if_neg h

theorem primary_of_call {inside : Option Inside} {t : Token} {rest : List Token}
    (ht : t.kind = .ident) (h : (front s rest).kind = .symbol .lparen) :
    primary s inside (t :: rest) = call s inside (t :: rest) := by
  rw [primary_cons, ht]
  exact if_pos h

/-- What follows the first word of a target is no opening parenthesis. -/
theorem Derives.target_second {d : Nat} {x : Node} {w : List Token} {k : TokenKind}
    (h : Derives d (.target x) w k) (rest : List Token) (hk : (front s rest).kind = k) :
    ∃ t w', w = t :: w' ∧ t.kind = .ident ∧
      (front s (w' ++ rest)).kind ≠ .symbol .lparen := by
  cases h with
  | identifier h₁ _ _ => exact ⟨_, _, rfl, rfl, hk ▸ h₁⟩
  | arrayAccess => exact ⟨_, _, rfl, rfl, by simp⟩
  | scopeAccess => exact ⟨_, _, rfl, rfl, by simp⟩

theorem Derives.call_second {d : Nat} {x : Node} {w : List Token} {k : TokenKind}
    (h : Derives d (.call x) w k) :
    ∃ t u w', w = t :: u :: w' ∧ t.kind = .ident ∧ u.kind = .symbol .lparen := by
  cases h with
  | plainCall => exact ⟨_, _, _, rfl, rfl, rfl⟩
  | bodyCall => exact ⟨_, _, _, rfl, rfl, rfl⟩

/-- An operand that begins with no '!' is read as a primary. -/
theorem Derives.not_isUnary {d : Nat} {x : Node} {w : List Token} {k : TokenKind}
    (h : Derives d (.primary x) w k) : ∃ t w', w = t :: w' ∧ t.kind.isUnary = false := by
  cases h with
  | list => exact ⟨_, _, rfl, rfl⟩
  | string => exact ⟨_, _, rfl, rfl⟩
  | number => exact ⟨_, _, rfl, rfl⟩
  | negative => exact ⟨_, _, rfl, rfl⟩
  | parenthesized => exact ⟨_, _, rfl, rfl⟩
  | ofTarget h =>
    obtain ⟨t, w', rfl, ht⟩ := h.starts
    exact ⟨t, w', rfl, by rw [ht]; rfl⟩
  | ofCall h =>
    obtain ⟨t, w', rfl, ht⟩ := h.starts
    exact ⟨t, w', rfl, by rw [ht]; rfl⟩

/-- No comma stands where the next item of a list or its closing bracket does. -/
theorem Derives.firstKind_ne_comma {d : Nat} {xs : List Node} {w : List Token}
    (h : Derives d (.elements xs) w (.symbol .rbrack)) :
    firstKind w (.symbol .rbrack) ≠ .symbol .comma := by
  rcases h.starts with rfl | ⟨t, u, rfl, ht⟩
  · simp
  · exact ne_of_startsOperand ht rfl

/-- Every phrase is read by its rule, up to the token that follows it.  The induction is
on the derivation; a phrase inside a nesting is followed by the mark that closes it. -/
theorem Derives.reads {d : Nat} {φ : Phrase} {w : List Token} {k : TokenKind}
    (h : Derives d φ w k) : ∀ rest : List Token, φ.StopsAt k → (front s rest).kind = k →
      Reads s d φ (w ++ rest) rest := by
  induction h with
  | @identifier d n p k h₁ h₂ h₃ =>
    intro rest _ hk
    exact target_of_identifier (hk ▸ h₂) (hk ▸ h₃)
  | @arrayAccess d n i w p q r k _ ih =>
    intro rest _ hk
    have hi := ih (mark .rbrack r :: rest) trivial rfl
    -- the list of tokens, written with the closing bracket before what follows the phrase
    show target s _ (word n p :: mark .lbrack q :: (w ++ [mark .rbrack r] ++ rest)) = _
    rw [List.append_assoc, target_cons, if_pos (kind_word n p)]
    exact arrayAccess_eq_ok.mpr ⟨d, _, _, _, _, i, rfl, rfl, rfl, rfl, hi, rfl, rfl⟩
  | @scopeAccess d n m p q r k =>
    intro rest _ hk
    show target s _ (word n p :: mark .dot q :: word m r :: rest) = _
    rw [target_cons, if_pos (kind_word n p)]
    exact scopeAccess_eq_ok.mpr ⟨_, _, _, rfl, rfl, rfl, rfl, rfl⟩
  | @noElements d k =>
    intro rest hstop hk done
    rw [List.nil_append, List.append_nil]
    exact elementsAt_eq_ok.mpr (.inl ⟨hk.trans hstop, rfl, rfl⟩)
  | @element d x xs w w' k hx hxs ihx ihxs =>
    intro rest hstop hk done
    have hstart := hx.starts_front s (w' ++ rest)
    have hk' : (front s (w' ++ rest)).kind = firstKind w' k := hk ▸ kind_front_append s w' rest
    obtain rfl : k = .symbol .rbrack := hstop
    have hcomma : (front s (w' ++ rest)).kind ≠ .symbol .comma := hk' ▸ hxs.firstKind_ne_comma
    have hrest := ihxs rest rfl hk (x :: done)
    rw [List.reverse_cons, List.append_assoc, List.singleton_append] at hrest
    rw [List.append_assoc]
    refine elementsAt_eq_ok.mpr (.inr ⟨ne_of_startsOperand hstart rfl,
      ne_of_startsOperand hstart rfl, x, w' ++ rest, ihx _ trivial hk', ?_⟩)
    rwa [afterComma, if_neg hcomma]
  | @elementComma d x xs w w' p k hx hxs ihx ihxs =>
    intro rest hstop hk done
    have hstart := hx.starts_front s (mark .comma p :: (w' ++ rest))
    have hrest := ihxs rest hstop hk (x :: done)
    rw [List.reverse_cons, List.append_assoc, List.singleton_append] at hrest
    rw [List.append_assoc]
    exact elementsAt_eq_ok.mpr (.inr ⟨ne_of_startsOperand hstart rfl,
      ne_of_startsOperand hstart rfl, x, mark .comma p :: (w' ++ rest), ihx _ trivial rfl, hrest⟩)
  | @noArguments d k =>
    intro rest hstop hk done
    rw [List.nil_append, List.append_nil]
    exact argumentsAt_eq_ok.mpr (.inl ⟨hk.trans hstop, rfl, rfl⟩)
  | @lastArgument d x w k hx ih =>
    intro rest hstop hk done
    have hstart := hx.starts_front s rest
    -- the arguments end here, as the parenthesis that follows them is no comma
    have hcomma : (front s rest).kind ≠ .symbol .comma := by
      rw [hk, show k = .symbol .rparen from hstop]
      decide
    exact argumentsAt_eq_ok.mpr (.inr ⟨ne_of_startsOperand hstart rfl, x, rest,
      ih rest trivial hk, .inr ⟨hcomma, List.reverse_cons.symm, rfl⟩⟩)
  | @argument d x xs w w' p k hx hxs ihx ihxs =>
    intro rest hstop hk done
    have hstart := hx.starts_front s (mark .comma p :: (w' ++ rest))
    have hrest := ihxs rest hstop hk (x :: done)
    rw [List.reverse_cons, List.append_assoc, List.singleton_append] at hrest
    rw [List.append_assoc]
    exact argumentsAt_eq_ok.mpr (.inr ⟨ne_of_startsOperand hstart rfl, x,
      mark .comma p :: (w' ++ rest), ihx _ trivial rfl, .inl ⟨rfl, hrest⟩⟩)
  | @plainCall d n xs w p q r k _ hbrace ih =>
    intro rest _ hk
    have hargs := ih (mark .rparen r :: rest) rfl rfl []
    have hend : callEnd s (insideOf s (d + 1)) (word n p) (mark .lparen q) xs rest =
        (.ok (.call n (.list xs q) none p), rest) :=
      callEnd_eq_ok.mpr (.inl ⟨hk ▸ hbrace, rfl, rfl⟩)
    show call s _ (word n p :: mark .lparen q :: (w ++ [mark .rparen r] ++ rest)) = _
    rw [List.append_assoc]
    exact call_eq_ok.mpr ⟨d, _, _, _, _, rest, xs, rfl, rfl, rfl, rfl, hargs, rfl, hend⟩
  | @bodyCall d n xs ys w w' p q r b c k _ _ ihxs ihys =>
    intro rest _ hk
    -- from the inside out: the statements, the block around them, and what comes before it
    have hbody := ihys (mark .rbrace c :: rest) (by simp [Phrase.StopsAt]) rfl []
    have hblock : block s (insideOf s (d + 1)) (mark .lbrace b :: (w' ++ mark .rbrace c :: rest))
        = (.ok (.list ys b), rest) :=
      block_eq_ok.mpr ⟨d, _, _, _, ys, rfl, rfl, rfl, hbody, rfl, rfl⟩
    have hargs := ihxs (mark .rparen r :: mark .lbrace b :: (w' ++ mark .rbrace c :: rest))
      rfl rfl []
    have hend : callEnd s (insideOf s (d + 1)) (word n p) (mark .lparen q) xs
        (mark .lbrace b :: (w' ++ mark .rbrace c :: rest)) =
        (.ok (.call n (.list xs q) (some (.list ys b)) p), rest) :=
      callEnd_eq_ok.mpr (.inr ⟨_, hblock, rfl⟩)
    show call s _ (word n p :: mark .lparen q ::
      (w ++ mark .rparen r :: mark .lbrace b :: (w' ++ [mark .rbrace c]) ++ rest)) = _
    simp only [List.append_assoc, List.cons_append, List.nil_append]
    exact call_eq_ok.mpr ⟨d, _, _, _, _, _, xs, rfl, rfl, rfl, rfl, hargs, rfl, hend⟩
  | @list d xs w p q k _ ih =>
    intro rest _ hk
    have hxs := ih (mark .rbrack q :: rest) rfl rfl []
    show primary s _ (mark .lbrack p :: (w ++ [mark .rbrack q] ++ rest)) = _
    rw [List.append_assoc, primary_cons]
    exact bracketedList_eq_ok.mpr ⟨d, _, _, _, xs, rfl, rfl, rfl, hxs, rfl, rfl⟩
  | @string d v p k =>
    intro rest _ hk
    show primary s _ (quoted v p :: rest) = _
    rw [primary_cons]
    exact string_eq_ok.mpr ⟨_, rfl, rfl, rfl⟩
  | @number d n text p k hn hfits =>
    intro rest _ hk
    show primary s _ (digits text p :: rest) = _
    rw [primary_cons]
    exact integer_eq_ok.mpr (.inl ⟨_, rfl, rfl, (integerOf_eq_ok hn).mpr ⟨hfits, rfl⟩⟩)
  | @negative d n text p q k hn hfits =>
    intro rest _ hk
    show primary s _ (mark .sub p :: digits text q :: rest) = _
    rw [primary_cons]
    exact integer_eq_ok.mpr (.inr ⟨_, _, rfl, rfl, rfl, (integerOf_eq_ok hn).mpr ⟨hfits, rfl⟩⟩)
  | @parenthesized d x w p q k _ ih =>
    intro rest _ hk
    have hx := ih (mark .rparen q :: rest) trivial rfl
    show primary s _ (mark .lparen p :: (w ++ [mark .rparen q] ++ rest)) = _
    rw [List.append_assoc, primary_cons]
    exact parenthesized_eq_ok.mpr ⟨d, _, _, _, rfl, rfl, rfl, hx, rfl⟩
  | ofTarget h ih =>
    intro rest hstop hk
    -- the rule tells a target from a call by the token after the first word
    obtain ⟨t, w', rfl, ht, hnext⟩ := h.target_second rest hk
    exact (primary_of_target ht hnext).trans (ih rest trivial hk)
  | ofCall h ih =>
    intro rest hstop hk
    obtain ⟨t, u, w', rfl, ht, hu⟩ := h.call_second
    refine Eq.trans (primary_of_call ht ?_) (ih rest trivial hk)
    exact hu
  | @unary d o x w p k _ ih =>
    intro rest _ hk
    exact unary_eq_ok.mpr (.inr ⟨d, mark o.symbol p, w ++ rest, x, rfl, rfl, isUnary_symbol o,
      ih rest trivial hk, unary?_text o x p⟩)
  | ofPrimary h ih =>
    intro rest _ hk
    obtain ⟨t, w', rfl, ht⟩ := h.not_isUnary
    exact unary_eq_ok.mpr (.inl ⟨ht, ih rest trivial hk⟩)
  | @noOperator d x k hbinary =>
    intro rest _ hk
    exact chainAt_eq_ok.mpr (.inl ⟨hk ▸ hbinary, rfl, rfl⟩)
  | @operator d l r x o w w' p k hr hx ihr ihx =>
    intro rest _ hk
    have hk' : (front s (w' ++ rest)).kind = firstKind w' k := hk ▸ kind_front_append s w' rest
    show chainAt s d l (mark o.symbol p :: (w ++ w' ++ rest)) = _
    rw [List.append_assoc]
    exact chainAt_eq_ok.mpr (.inr ⟨isBinary_symbol o, r, _, w' ++ rest, ihr _ trivial hk',
      binary?_text l o r l.pos, ihx rest trivial hk⟩)
  | @expression d l x w w' k hl hx ihl ihx =>
    intro rest _ hk
    have hk' : (front s (w' ++ rest)).kind = firstKind w' k := hk ▸ kind_front_append s w' rest
    rw [List.append_assoc]
    exact expression_eq_ok.mpr ⟨l, w' ++ rest, ihl _ trivial hk', ihx rest trivial hk⟩
  | callStatement h ih =>
    intro rest _ hk
    obtain ⟨t, u, w', rfl, ht, hu⟩ := h.call_second
    refine Eq.trans ?_ (ih rest trivial hk)
    exact (statement_cons _ _ _).trans (if_pos ⟨ht, hu⟩)
  | @assignment d t v o w w' p k ht hv iht ihv =>
    intro rest _ hk
    have hleft := iht (mark o.symbol p :: (w' ++ rest)) trivial rfl
    obtain ⟨u, w'', rfl, hu, hnext⟩ := ht.target_second (mark o.symbol p :: (w' ++ rest)) rfl
    rw [List.append_assoc]
    refine Eq.trans ((statement_cons _ _ _).trans (if_neg fun h => hnext h.2)) ?_
    exact assignment_eq_ok.mpr ⟨t, mark o.symbol p, w' ++ rest, v, hleft, isAssign_symbol o,
      ihv rest trivial hk, assignment?_text (isTarget_of_derives ht) o v t.pos⟩
  | @noStatements d k =>
    intro rest hstop hk done
    rw [List.nil_append, List.append_nil]
    exact statementsAt_eq_ok.mpr (.inl ⟨hk ▸ hstop, rfl, rfl⟩)
  | @statement d x xs w w' k hx hxs ihx ihxs =>
    intro rest hstop hk done
    -- a statement begins with a word, by which the repetition knows that it goes on
    obtain ⟨t, u, rfl, ht⟩ := hx.starts
    have hk' : (front s (w' ++ rest)).kind = firstKind w' k := hk ▸ kind_front_append s w' rest
    have hrest := ihxs rest hstop hk (x :: done)
    rw [List.reverse_cons, List.append_assoc, List.singleton_append] at hrest
    rw [List.append_assoc]
    exact statementsAt_eq_ok.mpr (.inr ⟨ht, x, w' ++ rest, ihx _ trivial hk', hrest⟩)

/-! ### Whole texts -/

variable (s)

theorem DerivesProgram.reads {d : Nat} {ts : List Token} {x : Node}
    (h : DerivesProgram d ts x) : ∃ rest, program s d ts = (.ok x, rest) := by
  obtain ⟨he, hxs⟩ := h
  rename_i xs w e
  have hstop : (Phrase.statements xs).StopsAt .endOfInput := by simp [Phrase.StopsAt]
  refine ⟨[e], program_eq_ok.mpr ⟨xs, hxs.reads [e] hstop he [], he, ?_⟩⟩
  cases w <;> rfl

theorem DerivesExpression.reads {d : Nat} {ts : List Token} {x : Node}
    (h : DerivesExpression d ts x) : ∃ rest, loneExpression s d ts = (.ok x, rest) := by
  obtain ⟨he, hx⟩ := h
  rename_i w e
  exact ⟨[e], loneExpression_eq_ok.mpr ⟨hx.reads [e] trivial he, he⟩⟩

/-- Tokens are a program in one way only, however many nestings are allowed. -/
theorem DerivesProgram.unique {d d' : Nat} {ts : List Token} {x y : Node}
    (hx : DerivesProgram d ts x) (hy : DerivesProgram d' ts y) : x = y := by
  obtain ⟨_, hx⟩ := (hx.mono (Nat.le_max_left d d')).reads ⟨.unknown, 0⟩
  obtain ⟨_, hy⟩ := (hy.mono (Nat.le_max_right d d')).reads ⟨.unknown, 0⟩
  have := hx.symm.trans hy
  injection this with hok
  injection hok

/-- Tokens are an expression in one way only, however many nestings are allowed. -/
theorem DerivesExpression.unique {d d' : Nat} {ts : List Token} {x y : Node}
    (hx : DerivesExpression d ts x) (hy : DerivesExpression d' ts y) : x = y := by
  obtain ⟨_, hx⟩ := (hx.mono (Nat.le_max_left d d')).reads ⟨.unknown, 0⟩
  obtain ⟨_, hy⟩ := (hy.mono (Nat.le_max_right d d')).reads ⟨.unknown, 0⟩
  have := hx.symm.trans hy
  injection this with hok
  injection hok

end GnLang.Grammar
