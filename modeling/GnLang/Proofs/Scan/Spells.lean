/-
Texts that spell tokens.

`Scan.Spells N p cs w` says that the characters `cs`, standing at `p`, are scanned to
the tokens `w` before any text that satisfies `N`.  Spellings can be put one after the
other (`Spells.append`) if the second cannot be taken for more of the first: a word must
not be followed by a letter, and an operator not by '='.

* `spells_gap` — blanks and comments spell nothing;
* `spells_token` — one token, before any text that leaves its characters the longest lexeme.
-/
import GnLang.Proofs.Scan.Tokens

namespace GnLang.Scan

/-- No '=' stands next, so that no operator goes on. -/
def NotEquals (rest : List Char) : Prop := ∀ c ∈ rest.head?, c ≠ '='

/-- What stands next is not part of a word, a number or an operator. -/
def Clear (rest : List Char) : Prop := ∀ c ∈ rest.head?, isIdentChar c = false ∧ c ≠ '='

theorem Clear.notEquals {rest : List Char} (h : Clear rest) : NotEquals rest :=
  fun c hc => (h c hc).2

theorem clear_cons {c : Char} (hc : isIdentChar c = false ∧ c ≠ '=') (cs : List Char) :
    Clear (c :: cs) := by
  intro e he
  cases he
  exact hc

/-- Before any text that satisfies `N`, the characters are scanned to the tokens. -/
def Spells (N : List Char → Prop) (p : Pos) (cs : List Char) (w : List Token) : Prop :=
  ∀ rest ts, N rest → Yields ⟨p.after cs, rest⟩ ts → Yields ⟨p, cs ++ rest⟩ (w ++ ts)

variable {N N' : List Char → Prop} {p : Pos} {cs ds : List Char} {w v : List Token}

theorem spells_nil : Spells N p [] [] := fun _ _ _ h => h

theorem Spells.append (h : Spells N p cs w) (h' : Spells N' (p.after cs) ds v)
    (hnext : ∀ rest, N' rest → N (ds ++ rest)) : Spells N' p (cs ++ ds) (w ++ v) := by
  intro rest ts hrest hts
  rw [Pos.after_append] at hts
  rw [List.append_assoc, List.append_assoc]
  exact h _ _ (hnext rest hrest) (h' rest ts hrest hts)

/-- A text that spells tokens has these tokens. -/
theorem scanTokens_of_spells {N : List Char → Prop} {text : String} {w : List Token}
    (h : Spells N .start text.toList w) (hnext : N []) :
    scanTokens text = .ok (w ++ [.endAt (Pos.start.after text.toList)]) := by
  have := h [] _ hnext (.last rfl rfl)
  rw [List.append_nil] at this
  exact scanTokens_eq_ok.mpr this

/-! ### Gaps -/

theorem spells_gap {g : List Char} (h : ∀ rest, N rest → IsGap rest g) : Spells N p g [] :=
  fun rest _ hrest hts => hts.of_token_eq (token_gap (h rest hrest) p)

theorem isBlank_space : ∀ c ∈ [' '], isBlank c := List.forall_mem_singleton.mpr rfl

theorem isBlank_newline : ∀ c ∈ ['\n'], isBlank c := List.forall_mem_singleton.mpr rfl

theorem spells_blanks (h : ∀ c ∈ cs, isBlank c) : Spells N p cs [] :=
  spells_gap fun _ _ => isGap_of_isBlank h

theorem Spells.after_blanks (h : ∀ c ∈ cs, isBlank c) (hds : Spells N (p.after cs) ds w) :
    Spells N p (cs ++ ds) w :=
  (spells_blanks (N := fun _ => True) h).append hds fun _ _ => trivial

/-- A blank can stand after any text. -/
theorem Spells.before_blank {c : Char} (hc : isBlank c) (h : Spells Clear p cs w) :
    Spells N p (cs ++ [c]) w := by
  have hclear : isIdentChar c = false ∧ c ≠ '=' := by
    simp only [isBlank, Bool.or_eq_true, decide_eq_true_eq] at hc
    rcases hc with ((rfl | rfl) | rfl) | rfl <;> decide
  have hblank : Spells N (p.after cs) [c] [] :=
    spells_blanks (List.forall_mem_singleton.mpr hc)
  have := h.append hblank fun rest _ => clear_cons hclear rest
  rwa [List.append_nil] at this

/-! ### Single tokens -/

theorem spells_token {t : Token} (h : ∀ rest, N rest → t.IsLongest rest) :
    Spells N t.pos t.chars [t] :=
  fun rest _ hrest hts => .cons_of_isLongest (h rest hrest) hts

theorem spells_word {n : String} (h : Text.IsWord n) :
    Spells Clear p n.toList [.word n p] :=
  spells_token (t := .word n p) fun _ hrest => .word h fun c hc => (hrest c hc).1

theorem spells_digits {text : String} {n : Nat} (h : Text.Numeral text n) :
    Spells Clear p text.toList [.digits text p] := by
  refine spells_token (t := .digits text p) fun rest hrest => .digits h fun c hc => ?_
  -- what is not part of a word is no digit either
  rw [Bool.eq_false_iff]
  intro hdigit
  have := (hrest c hc).1
  rw [isIdentChar_of_isDigit hdigit] at this
  cases this

theorem spells_quoted {value : String} (h : Text.IsQuotable value) :
    Spells N p ('"' :: (value.toList ++ ['"'])) [.quoted value p] :=
  spells_token (t := .quoted value p) fun _ _ => .quoted h

/-! ### Symbols -/

/-- The symbols that may be followed by anything, because no symbol is longer. -/
def groupings : List Symbol := [.lparen, .rparen, .lbrack, .rbrack, .lbrace, .rbrace, .comma, .dot]

theorem symbolAt?_append {m : Symbol} {rest : List Char}
    (h : m ∉ groupings → NotEquals rest) : symbolAt? (m.chars ++ rest) = some m := by
  have hsingle : ∀ c, m.chars = [c] → (∀ d ∈ rest.head?, ∀ m : Symbol, m.chars ≠ [c, d]) →
      symbolAt? (m.chars ++ rest) = some m := by
    intro c hc hrest
    rw [hc, List.singleton_append, symbolAt?_cons hrest, ← hc, Symbol.ofChars?_chars]
  cases m with
  -- two characters are tried first
  | plusAssign | subAssign | le | ge | eq | ne | and | or => cases rest <;> rfl
  -- one character, with which no longer symbol begins
  | lparen | rparen | lbrack | rbrack | lbrace | rbrace | comma | dot =>
    refine hsingle _ rfl fun d _ m hm => ?_
    cases m <;> simp [Symbol.chars] at hm
  -- one character, after which '=' would make a longer symbol
  | assign | plus | sub | lt | gt | not =>
    refine hsingle _ rfl fun d hd m hm => ?_
    have := h (by decide) d hd
    cases m <;> simp [Symbol.chars] at hm
    exact this hm.symm

/-- A symbol is spelled by its characters. -/
theorem spells_mark {m : Symbol} (h : ∀ rest, N rest → m ∉ groupings → NotEquals rest) :
    Spells N p m.chars [.mark m p] := by
  have htoken : Spells N p (Token.mark m p).chars [.mark m p] :=
    spells_token (t := .mark m p) fun rest hrest =>
      .mark (symbolAt?_eq_some.mp (symbolAt?_append (h rest hrest))).2
  rwa [Token.chars_mark] at htoken

theorem spells_grouping {m : Symbol} (h : m ∈ groupings) :
    Spells N p m.chars [.mark m p] :=
  spells_mark fun _ _ hm => absurd h hm

theorem spells_operator (m : Symbol) : Spells NotEquals p m.chars [.mark m p] :=
  spells_mark fun _ hrest _ => hrest

/-- The blank before an operator ends what stands to its left, and the blank after it ends
the operator. -/
theorem Spells.around_operator {m : Symbol} (h : Spells Clear p cs w)
    (h' : Spells N (((p.after (cs ++ [' '])).after m.chars).after [' ']) ds v) :
    Spells N p (cs ++ [' '] ++ (m.chars ++ ([' '] ++ ds)))
      (w ++ .mark m (p.after (cs ++ [' '])) :: v) := by
  have hleft : Spells (fun _ => True) p (cs ++ [' ']) w := h.before_blank (by decide)
  have hright := (spells_operator m).append (h'.after_blanks isBlank_space) fun rest _ =>
    (clear_cons (by decide) _).notEquals
  exact hleft.append hright fun _ _ => trivial

/-- A grouping symbol can stand before any text. -/
theorem Spells.after_grouping {m : Symbol} (hm : m ∈ groupings)
    (h : Spells N (p.after m.chars) cs w) :
    Spells N p (m.chars ++ cs) (.mark m p :: w) :=
  (spells_grouping (N := fun _ => True) hm).append h fun _ _ => trivial

theorem clear_grouping {m : Symbol} (hm : m ∈ groupings) (rest : List Char) :
    Clear (m.chars ++ rest) := by
  cases m with
  | lparen | rparen | lbrack | rbrack | lbrace | rbrace | comma | dot =>
    exact clear_cons (by decide) rest
  | _ => exact absurd hm (by decide)

/-- A word can stand before a grouping symbol. -/
theorem Spells.after_word {n : String} {m : Symbol} (hn : Text.IsWord n) (hm : m ∈ groupings)
    (h : Spells N (p.after n.toList) (m.chars ++ cs) w) :
    Spells N p (n.toList ++ (m.chars ++ cs)) (.word n p :: w) :=
  (spells_word hn).append h fun rest _ => by
    rw [List.append_assoc]
    exact clear_grouping hm _

/-- A grouping symbol can stand after any text. -/
theorem Spells.before_grouping {m : Symbol} (hm : m ∈ groupings) (h : Spells Clear p cs w) :
    Spells N p (cs ++ m.chars) (w ++ [.mark m (p.after cs)]) :=
  h.append (spells_grouping hm) fun rest _ => clear_grouping hm rest

end GnLang.Scan
