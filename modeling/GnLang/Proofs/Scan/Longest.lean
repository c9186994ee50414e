/-
Lexemes, and what may follow them.

A token takes up some characters of its text, `Token.chars`.  `Token.IsLongest t rest`
says, kind by kind and without a scanner, that before `rest` these characters are the
longest lexeme: a word ends where no letter, digit or underscore follows, a number where
no digit does, a symbol where no longer symbol begins at the same place, and a stray
character begins no lexeme at all.

* `lexeme_of_isLongest` — the longest lexeme is what is scanned;
* `isLongest_of_lexeme` — and what is scanned is the longest lexeme.
-/
import GnLang.Proofs.Scan.Genuine

namespace GnLang

/-! ### Runs of characters -/

theorem takeWhile_append_of_clear {f : Char → Bool} {cs rest : List Char}
    (h : ∀ c ∈ cs, f c = true) (hrest : ∀ c ∈ rest.head?, f c = false) :
    (cs ++ rest).takeWhile f = cs ∧ (cs ++ rest).dropWhile f = rest := by
  rw [List.takeWhile_append_of_pos h, List.dropWhile_append_of_pos h]
  cases rest with
  | nil => simp
  | cons c rest =>
    have hc := hrest c (by simp)
    simp [hc]

/-- A run stops at a character that does not belong to it, or at the end. -/
theorem head?_dropWhile_eq_false {f : Char → Bool} {cs : List Char} :
    ∀ c ∈ (cs.dropWhile f).head?, f c = false := by
  intro c hc
  have := List.head?_dropWhile_not f cs
  rw [Option.mem_def.mp hc] at this
  simpa using this

theorem mem_takeWhile {f : Char → Bool} {cs : List Char} :
    ∀ c ∈ cs.takeWhile f, f c = true :=
  List.all_eq_true.mp List.all_takeWhile

/-! ### Characters -/

theorem not_gap_of_isIdentChar {c : Char} (h : isIdentChar c = true) :
    isBlank c = false ∧ c ≠ '#' := by
  constructor
  · rw [Bool.eq_false_iff]
    intro hb
    simp only [isBlank, Bool.or_eq_true, decide_eq_true_eq] at hb
    rcases hb with ((rfl | rfl) | rfl) | rfl <;> exact absurd h (by decide)
  · rintro rfl
    exact absurd h (by decide)

theorem isIdentChar_of_isIdentStart {c : Char} (h : isIdentStart c = true) :
    isIdentChar c = true := by
  simp only [isIdentStart, isIdentChar, Char.isAlphanum, Bool.or_eq_true] at h ⊢
  rcases h with h | h
  · exact .inl (.inl h)
  · exact .inr h

theorem Text.IsWord.isIdentChar {name : String} (h : Text.IsWord name) :
    ∀ c ∈ name.toList, isIdentChar c = true := by
  obtain ⟨c, cs, hname, hc, hcs⟩ := h
  rw [hname]
  exact List.forall_mem_cons.mpr ⟨isIdentChar_of_isIdentStart hc, hcs⟩

theorem isIdentChar_of_isDigit {c : Char} (h : c.isDigit = true) : isIdentChar c = true := by
  simp only [isIdentChar, Char.isAlphanum, Bool.or_eq_true]
  exact .inl (.inr h)

theorem not_isIdentChar_of_gap {c : Char} (h : isBlank c = true ∨ c = '#') :
    isIdentChar c = false := by
  rw [Bool.eq_false_iff]
  intro hc
  obtain ⟨hblank, hhash⟩ := not_gap_of_isIdentChar hc
  rcases h with h | h
  · rw [hblank] at h
    cases h
  · exact hhash h

theorem not_isIdentStart_of_isDigit {c : Char} (h : c.isDigit = true) :
    ¬ isIdentStart c = true := by
  have := Text.toNat_of_isDigit h
  intro hs
  -- letters begin at 65 and 97, above all digits
  have hcases : (c.isUpper || c.isLower || decide (c = '_')) = true := hs
  rw [Bool.or_eq_true, Bool.or_eq_true, decide_eq_true_eq] at hcases
  rcases hcases with (hupper | hlower) | rfl
  · have : 65 ≤ c.toNat := UInt32.le_iff_toNat_le.mp (of_decide_eq_true hupper).1
    omega
  · have : 97 ≤ c.toNat := by
      have hleast := of_decide_eq_true (Bool.and_eq_true_iff.mp hlower).1
      exact UInt32.le_iff_toNat_le.mp hleast
    omega
  · exact absurd h (by decide)

/-! ### Symbols -/

namespace Symbol

theorem ofChars?_eq_some {cs : List Char} {m : Symbol} : ofChars? cs = some m ↔ m.chars = cs := by
  constructor
  · intro h
    exact eq_of_beq (List.find?_some (p := fun n : Symbol => n.chars == cs) h)
  · rintro rfl
    exact ofChars?_chars m

theorem chars_inj {m n : Symbol} (h : m.chars = n.chars) : m = n := by
  have := ofChars?_chars m
  rw [h, ofChars?_chars] at this
  exact (Option.some.inj this).symm

theorem ofChars?_eq_none {cs : List Char} : ofChars? cs = none ↔ ∀ m : Symbol, m.chars ≠ cs := by
  rw [Option.eq_none_iff_forall_ne_some]
  exact forall_congr' fun m => not_congr ofChars?_eq_some

/-- A symbol stands at the front of a text with its one character or with its two. -/
theorem chars_prefix_cons {m : Symbol} {c : Char} {cs : List Char} :
    m.chars <+: c :: cs ↔ m.chars = [c] ∨ ∃ d ds, cs = d :: ds ∧ m.chars = [c, d] := by
  have hlength := m.length_chars
  constructor
  · rintro ⟨rest, h⟩
    match hm : m.chars with
    | [] => simp [hm] at hlength
    | [b] =>
      rw [hm] at h
      exact .inl (by rw [(List.cons.inj h).1])
    | [b, d] =>
      rw [hm] at h
      obtain ⟨rfl, rfl⟩ := List.cons.inj h
      exact .inr ⟨d, rest, rfl, rfl⟩
    | _ :: _ :: _ :: _ => simp [hm] at hlength
  · rintro (h | ⟨d, ds, rfl, h⟩)
    · exact ⟨cs, by rw [h]; rfl⟩
    · exact ⟨ds, by rw [h]; rfl⟩

theorem not_gap_of_mem_chars (m : Symbol) : ∀ c ∈ m.chars, isBlank c = false ∧ c ≠ '#' := by
  have hall : m.chars.all (fun c => !isBlank c && c != '#') = true := by
    cases m <;> rfl
  intro c hc
  simpa using List.all_eq_true.mp hall c hc

/-- After `c`, a text that goes on with the same character, or with a gap, has no new symbol
at its front. -/
theorem chars_prefix_of_next {m : Symbol} {c : Char} {rest rest' : List Char}
    (hnext : ∀ c ∈ rest'.head?, c ∈ rest.head? ∨ isBlank c = true ∨ c = '#')
    (h : m.chars <+: c :: rest') : m.chars <+: c :: rest := by
  rcases chars_prefix_cons.mp h with hone | ⟨d, ds, rfl, htwo⟩
  · exact chars_prefix_cons.mpr (.inl hone)
  · obtain ⟨hblank, hhash⟩ := m.not_gap_of_mem_chars d (by simp [htwo])
    rcases hnext d rfl with hd | hd | hd
    · obtain ⟨ds', rfl⟩ := List.head?_eq_some_iff.mp hd
      exact chars_prefix_cons.mpr (.inr ⟨d, ds', rfl, htwo⟩)
    · rw [hblank] at hd
      cases hd
    · exact absurd hd hhash

end Symbol

theorem symbolAt?_cons {c : Char} {rest : List Char}
    (h : ∀ d ∈ rest.head?, ∀ m : Symbol, m.chars ≠ [c, d]) :
    symbolAt? (c :: rest) = Symbol.ofChars? [c] := by
  cases rest with
  | nil => rfl
  | cons d rest => rw [symbolAt?, Symbol.ofChars?_eq_none.mpr (h d rfl)]

theorem symbolAt?_eq_none {cs : List Char} :
    symbolAt? cs = none ↔ ∀ m : Symbol, ¬ m.chars <+: cs := by
  cases cs with
  | nil =>
    refine iff_of_true rfl fun m hm => ?_
    have := m.length_chars
    rw [List.prefix_nil.mp hm] at this
    simp at this
  | cons c cs =>
    simp only [Symbol.chars_prefix_cons, not_or]
    constructor
    · intro h m
      cases cs with
      | nil => exact ⟨Symbol.ofChars?_eq_none.mp h m, by simp⟩
      | cons d ds =>
        rw [symbolAt?] at h
        split at h
        · cases h
        · rename_i htwo
          refine ⟨Symbol.ofChars?_eq_none.mp h m, ?_⟩
          rintro ⟨d', ds', hd, hm⟩
          cases hd
          exact Symbol.ofChars?_eq_none.mp htwo m hm
    · intro h
      rw [symbolAt?_cons fun d hd m hm => ?_]
      · exact Symbol.ofChars?_eq_none.mpr fun m => (h m).1
      · cases cs with
        | nil => cases hd
        | cons e ds =>
          cases hd
          exact (h m).2 ⟨_, ds, rfl, hm⟩

/-- The symbol that is found is the longest of those at the front of the text. -/
theorem symbolAt?_eq_some {cs : List Char} {m : Symbol} :
    symbolAt? cs = some m ↔
      m.chars <+: cs ∧ ∀ n : Symbol, n.chars <+: cs → n.chars.length ≤ m.chars.length := by
  have hfound : ∀ {m : Symbol}, symbolAt? cs = some m →
      m.chars <+: cs ∧ ∀ n : Symbol, n.chars <+: cs → n.chars.length ≤ m.chars.length := by
    intro m h
    match cs with
    | [] => cases h
    | [c] =>
      have hm := Symbol.ofChars?_eq_some.mp h
      refine ⟨⟨[], by rw [hm]; rfl⟩, fun n hn => ?_⟩
      rw [hm]
      exact hn.length_le
    | c :: d :: cs =>
      rw [symbolAt?] at h
      split at h
      · rename_i htwo
        cases h
        have hm := Symbol.ofChars?_eq_some.mp htwo
        refine ⟨⟨cs, by rw [hm]; rfl⟩, fun n _ => ?_⟩
        rw [hm]
        exact n.length_chars.2
      · rename_i htwo
        have hm := Symbol.ofChars?_eq_some.mp h
        refine ⟨⟨d :: cs, by rw [hm]; rfl⟩, fun n hn => ?_⟩
        -- a longer symbol would have been found first
        rcases Symbol.chars_prefix_cons.mp hn with hone | ⟨e, es, he, hn⟩
        · exact Nat.le_of_eq (by rw [hone, hm])
        · cases he
          exact absurd hn (Symbol.ofChars?_eq_none.mp htwo n)
  constructor
  · exact hfound
  · rintro ⟨hm, hlongest⟩
    cases h : symbolAt? cs with
    | none => exact absurd hm (symbolAt?_eq_none.mp h m)
    | some n =>
      -- two symbols at the front of one text, neither longer than the other
      obtain ⟨hn, hlongest'⟩ := hfound h
      have hlength := Nat.le_antisymm (hlongest n hn) (hlongest' m hm)
      have hfront := List.prefix_of_prefix_length_le hn hm (Nat.le_of_eq hlength)
      rw [Symbol.chars_inj (hfront.eq_of_length hlength)]

/-! ### Tokens and their characters -/

/-- The character `c` begins neither a gap nor a token other than a stray character when
`rest` follows it; and it is not half an operator that the text cuts off. -/
structure IsStray (c : Char) (rest : List Char) : Prop where
  notBlank : isBlank c = false
  notComment : c ≠ '#'
  notWord : isIdentStart c = false
  notDigit : c.isDigit = false
  notQuote : c ≠ '"'
  notSymbol : ∀ m : Symbol, ¬ m.chars <+: c :: rest
  notCut : c = '&' ∨ c = '|' → rest ≠ []

namespace Token

/-- The characters that a token takes up in its text. -/
def chars (t : Token) : List Char :=
  match t.kind with
  | .string => '"' :: (t.text.toList ++ ['"'])
  | _ => t.text.toList

/-- A token that is a character which begins no other token. -/
def stray (c : Char) (p : Pos) : Token := ⟨.stray, String.singleton c, p⟩

/-- The characters of the token are the longest lexeme at the front of a text where `rest`
follows them. -/
inductive IsLongest : Token → List Char → Prop where
  | word {name : String} {p : Pos} {rest : List Char} :
      Text.IsWord name → (∀ c ∈ rest.head?, isIdentChar c = false) →
      IsLongest (.word name p) rest
  | digits {text : String} {n : Nat} {p : Pos} {rest : List Char} :
      Text.Numeral text n → (∀ c ∈ rest.head?, c.isDigit = false) →
      IsLongest (.digits text p) rest
  | quoted {value : String} {p : Pos} {rest : List Char} :
      Text.IsQuotable value → IsLongest (.quoted value p) rest
  | mark {m : Symbol} {p : Pos} {rest : List Char} :
      (∀ n : Symbol, n.chars <+: m.chars ++ rest → n.chars.length ≤ m.chars.length) →
      IsLongest (.mark m p) rest
  | stray {c : Char} {p : Pos} {rest : List Char} :
      IsStray c rest → IsLongest (.stray c p) rest

theorem chars_word (name : String) (p : Pos) : (word name p).chars = name.toList := rfl

theorem chars_digits (text : String) (p : Pos) : (digits text p).chars = text.toList := rfl

theorem chars_mark (m : Symbol) (p : Pos) : (mark m p).chars = m.chars := by
  rw [chars, mark]
  exact String.toList_ofList

theorem chars_stray (c : Char) (p : Pos) : (stray c p).chars = [c] := by
  rw [chars, stray]
  simp

/-- The token stands for no end of the input. -/
theorem IsLongest.ne_endOfInput {t : Token} {rest : List Char} (h : t.IsLongest rest) :
    t.kind ≠ .endOfInput := by
  cases h <;> exact nofun

theorem IsLongest.isGenuine {t : Token} {rest : List Char} (h : t.IsLongest rest) :
    t.IsGenuine := by
  cases h with
  | word hname _ => exact hname
  | digits htext _ => exact ⟨_, htext⟩
  | quoted hvalue => exact hvalue
  | mark _ => exact rfl
  -- a character that begins no token may have any text
  | stray _ => trivial

/-- It does not matter where the token stands. -/
theorem IsLongest.move {t u : Token} {rest : List Char} (h : t.IsLongest rest)
    (hsame : t.SameLexeme u) : u.IsLongest rest := by
  obtain ⟨kind, text, p⟩ := u
  obtain ⟨hkind, htext⟩ := hsame
  cases h <;> cases hkind <;> cases htext
  · exact .word ‹_› ‹_›
  · exact .digits ‹_› ‹_›
  · exact .quoted ‹_›
  · exact .mark ‹_›
  · exact .stray ‹_›

/-- The token is the longest lexeme, too, before a text that begins as the one after it
does, or with a gap.  That text must not be empty, since half an operator is no token at the
end. -/
theorem IsLongest.of_next {t : Token} {rest rest' : List Char} (h : t.IsLongest rest)
    (hnext : ∀ c ∈ rest'.head?, c ∈ rest.head? ∨ isBlank c = true ∨ c = '#')
    (hne : rest' ≠ []) : t.IsLongest rest' := by
  cases h with
  | word hname hstop =>
    refine .word hname fun c hc => ?_
    rcases hnext c hc with hold | hgap
    · exact hstop c hold
    · exact not_isIdentChar_of_gap hgap
  | digits htext hstop =>
    refine .digits htext fun c hc => ?_
    rcases hnext c hc with hold | hgap
    · exact hstop c hold
    · rw [Bool.eq_false_iff]
      intro hdigit
      have := not_isIdentChar_of_gap hgap
      rw [isIdentChar_of_isDigit hdigit] at this
      cases this
  | quoted hvalue => exact .quoted hvalue
  | @mark m p rest hlongest =>
    refine .mark fun n hn => ?_
    by_cases htwo : m.chars.length = 2
    · rw [htwo]
      exact n.length_chars.2
    · have hone : m.chars.length = 1 := by
        have := m.length_chars
        omega
      obtain ⟨c, hc⟩ := List.length_eq_one_iff.mp hone
      rw [hc] at hn hlongest ⊢
      exact hlongest n (Symbol.chars_prefix_of_next hnext hn)
  | stray hstray =>
    exact .stray { hstray with
      notSymbol := fun m hm => hstray.notSymbol m (Symbol.chars_prefix_of_next hnext hm)
      notCut := fun _ => hne }

end Token

/-! ### What is scanned -/

open Token

theorem exists_chars_mark (m : Symbol) :
    ∃ c cs, m.chars = c :: cs ∧ isBlank c = false ∧ c ≠ '#' ∧ isIdentStart c = false ∧
      c.isDigit = false ∧ c ≠ '"' := by
  cases m <;> exact ⟨_, _, rfl, by decide⟩

/-- The longest lexeme is scanned, and begins no gap. -/
theorem lexeme_of_isLongest {t : Token} {rest : List Char} (h : t.IsLongest rest) :
    ∃ c cs, t.chars = c :: cs ∧ isBlank c = false ∧ c ≠ '#' ∧
      lexeme c (cs ++ rest) = .ok ⟨t.kind, t.text, t.chars, rest⟩ := by
  cases h with
  | @word name p rest hname hstop =>
    obtain ⟨c, cs, hn, hc, hcs⟩ := hname
    obtain ⟨htake, hdrop⟩ := takeWhile_append_of_clear hcs hstop
    obtain ⟨hblank, hhash⟩ := not_gap_of_isIdentChar (isIdentChar_of_isIdentStart hc)
    refine ⟨c, cs, hn, hblank, hhash, ?_⟩
    rw [lexeme, if_pos hc, htake, hdrop, chars_word, ← hn]
    simp only [String.ofList_toList]
    rfl
  | @digits text n p rest htext hstop =>
    obtain ⟨hne, hdigit, -⟩ := htext
    cases hn : text.toList with
    | nil => exact absurd hn hne
    | cons c cs =>
      rw [hn] at hdigit
      obtain ⟨hc, hcs⟩ := List.forall_mem_cons.mp hdigit
      obtain ⟨htake, hdrop⟩ := takeWhile_append_of_clear hcs hstop
      obtain ⟨hblank, hhash⟩ := not_gap_of_isIdentChar (isIdentChar_of_isDigit hc)
      refine ⟨c, cs, hn, hblank, hhash, ?_⟩
      rw [lexeme, if_neg (not_isIdentStart_of_isDigit hc), if_pos hc, htake, hdrop, chars_digits,
        ← hn]
      simp only [String.ofList_toList]
      rfl
  | @quoted value p rest hvalue =>
    have hinside : ∀ c ∈ value.toList, (c != '"') = true := by
      intro c hc
      rw [bne_iff_ne]
      rintro rfl
      exact hvalue hc
    have hquote : ∀ c ∈ ('"' :: rest).head?, (c != '"') = false := by simp
    obtain ⟨htake, hdrop⟩ := takeWhile_append_of_clear hinside hquote
    refine ⟨'"', value.toList ++ ['"'], rfl, by decide, by decide, ?_⟩
    rw [lexeme, if_neg (by decide), if_neg (by decide), if_pos rfl, List.append_assoc,
      List.singleton_append, htake, hdrop]
    simp only [String.ofList_toList]
    rfl
  | @mark m p rest hlongest =>
    obtain ⟨c, cs, hm, hblank, hhash, hword, hdigit, hquote⟩ := exists_chars_mark m
    have hsymbol : symbolAt? (c :: (cs ++ rest)) = some m := by
      rw [← List.cons_append, ← hm]
      exact symbolAt?_eq_some.mpr ⟨List.prefix_append _ _, hlongest⟩
    refine ⟨c, cs, by rw [chars_mark, hm], hblank, hhash, ?_⟩
    rw [lexeme, if_neg (by simp [hword]), if_neg (by simp [hdigit]), if_neg hquote, hsymbol,
      ← List.cons_append, ← hm]
    simp only [List.take_left, List.drop_left, chars_mark]
    rfl
  | @stray c p rest hstray =>
    refine ⟨c, [], chars_stray c p, hstray.notBlank, hstray.notComment, ?_⟩
    rw [List.nil_append, lexeme, if_neg (by simp [hstray.notWord]),
      if_neg (by simp [hstray.notDigit]), if_neg hstray.notQuote,
      symbolAt?_eq_none.mpr hstray.notSymbol, chars_stray]
    exact if_neg fun h => hstray.notCut h.1 h.2

/-- What is scanned where no gap begins is the longest lexeme. -/
theorem isLongest_of_lexeme {c : Char} {cs : List Char} {l : Lexeme} (hblank : isBlank c = false)
    (hhash : c ≠ '#') (h : lexeme c cs = .ok l) (p : Pos) :
    Token.IsLongest ⟨l.kind, l.text, p⟩ l.rest ∧
      (⟨l.kind, l.text, p⟩ : Token).chars = l.taken := by
  rw [lexeme] at h
  by_cases hword : isIdentStart c = true
  · rw [if_pos hword] at h
    cases h
    have hname : (String.ofList (c :: cs.takeWhile isIdentChar)).toList = _ := String.toList_ofList
    exact ⟨.word ⟨c, _, hname, hword, mem_takeWhile⟩ head?_dropWhile_eq_false, hname⟩
  rw [if_neg hword] at h
  by_cases hdigit : c.isDigit = true
  · rw [if_pos hdigit] at h
    cases h
    have hnumeral := Text.numeral_of_isDigit (List.cons_ne_nil c (cs.takeWhile Char.isDigit))
      (List.forall_mem_cons.mpr ⟨hdigit, mem_takeWhile⟩)
    exact ⟨.digits hnumeral head?_dropWhile_eq_false, String.toList_ofList⟩
  rw [if_neg hdigit] at h
  by_cases hquote : c = '"'
  · subst hquote
    rw [if_pos rfl] at h
    split at h
    · cases h
    · rename_i q rest hdrop
      cases h
      -- the string stops at a quote, and holds none before it
      obtain rfl : q = '"' := by
        have := head?_dropWhile_eq_false q (by rw [hdrop]; rfl)
        simpa using this
      have hvalue : (String.ofList (cs.takeWhile (· != '"'))).toList = _ := String.toList_ofList
      refine ⟨.quoted ?_, congrArg (fun v => '"' :: (v ++ ['"'])) hvalue⟩
      rw [Text.IsQuotable, hvalue]
      intro hmem
      exact absurd (mem_takeWhile _ hmem) (by simp)
  rw [if_neg hquote] at h
  cases hm : symbolAt? (c :: cs) with
  | some m =>
    rw [hm] at h
    cases h
    obtain ⟨⟨rest, hrest⟩, hlongest⟩ := symbolAt?_eq_some.mp hm
    simp only [← hrest, List.drop_left, List.take_left] at hlongest ⊢
    exact ⟨.mark hlongest, chars_mark m p⟩
  | none =>
    rw [hm] at h
    by_cases hcut : (c = '&' ∨ c = '|') ∧ cs = []
    · rw [if_pos hcut] at h
      cases h
    · rw [if_neg hcut] at h
      cases h
      refine ⟨.stray ⟨hblank, hhash, by simpa using hword, by simpa using hdigit, hquote,
        symbolAt?_eq_none.mp hm, fun hc hnil => hcut ⟨hc, hnil⟩⟩, chars_stray c p⟩

end GnLang
