/-
From text to tokens.

Before every token, blanks and comments are skipped; the token is then the longest
lexeme the text begins with.  A character that begins no lexeme is a token of its own,
which the parser refuses.

* `Scan` — the text still to be read and the place of its first character;
* `lexeme` — the lexeme at the front of a text, with `lexeme_taken_append_rest`: nothing
  is lost;
* `Scan.token` — one token, and `Scan.length_token_lt`: it uses up some text;
* `scanTokens` — all tokens of a text, up to and including the end of the input.
-/
import GnLang.ParseError

namespace GnLang

/-! ### Characters -/

/-- The characters that may stand between tokens. -/
def isBlank (c : Char) : Bool := c = ' ' || c = '\t' || c = '\r' || c = '\n'

/-- The characters a word may begin with: the ASCII letters and the underscore. -/
def isIdentStart (c : Char) : Bool := c.isAlpha || c = '_'

/-- The characters a word may go on with: those and the ASCII digits. -/
def isIdentChar (c : Char) : Bool := c.isAlphanum || c = '_'

/-! ### Lexemes -/

/-- A lexeme at the front of a text: the kind and the text of its token, the characters
it takes up, and those after it. -/
structure Lexeme where
  kind : TokenKind
  text : String
  taken : List Char
  rest : List Char

/-- What the end of a text can cut off. -/
inductive Unfinished where
  | string
  | operator
  deriving DecidableEq, Repr

/-- The longest symbol at the front of a text; none is longer than two characters. -/
def symbolAt? : List Char → Option Symbol
  | [] => none
  | [c] => Symbol.ofChars? [c]
  | c :: d :: _ =>
    match Symbol.ofChars? [c, d] with
    | some s => some s
    | none => Symbol.ofChars? [c]

/-- The lexeme that a text begins with, whose first character is `c`. -/
def lexeme (c : Char) (cs : List Char) : Except Unfinished Lexeme :=
  if isIdentStart c then
    let word := c :: cs.takeWhile isIdentChar
    .ok ⟨.ident, String.ofList word, word, cs.dropWhile isIdentChar⟩
  else if c.isDigit then
    let digits := c :: cs.takeWhile Char.isDigit
    .ok ⟨.number, String.ofList digits, digits, cs.dropWhile Char.isDigit⟩
  else if c = '"' then
    let inside := cs.takeWhile (· != '"')
    match cs.dropWhile (· != '"') with
    | [] => .error .string
    | quote :: rest => .ok ⟨.string, String.ofList inside, c :: (inside ++ [quote]), rest⟩
  else
    match symbolAt? (c :: cs) with
    | some s =>
      let size := s.chars.length
      .ok ⟨.symbol s, s.text, (c :: cs).take size, (c :: cs).drop size⟩
    | none =>
      if (c = '&' ∨ c = '|') ∧ cs = [] then .error .operator
      else .ok ⟨.stray, String.singleton c, [c], cs⟩

theorem lexeme_taken_append_rest {c : Char} {cs : List Char} {l : Lexeme}
    (h : lexeme c cs = .ok l) : l.taken ++ l.rest = c :: cs := by
  unfold lexeme at h
  split at h
  · cases h; simp
  split at h
  · cases h; simp
  split at h
  · split at h
    · cases h
    · rename_i quote rest heq
      cases h
      have := List.takeWhile_append_dropWhile (p := (· != '"')) (l := cs)
      rw [heq] at this
      simp only [List.cons_append, List.append_assoc, List.nil_append, this]
  split at h
  · cases h; simp
  · split at h
    · cases h
    · cases h; rfl

theorem lexeme_taken_ne_nil {c : Char} {cs : List Char} {l : Lexeme}
    (h : lexeme c cs = .ok l) : l.taken ≠ [] := by
  unfold lexeme at h
  split at h
  · cases h; simp
  split at h
  · cases h; simp
  split at h
  · split at h
    · cases h
    · cases h; simp
  split at h
  · rename_i s _
    cases h
    have := s.length_chars
    simp only [ne_eq, List.take_eq_nil_iff, reduceCtorEq, or_false]
    omega
  · split at h
    · cases h
    · cases h; simp

theorem length_rest_lexeme_le {c : Char} {cs : List Char} {l : Lexeme}
    (h : lexeme c cs = .ok l) : l.rest.length ≤ cs.length := by
  have happ := congrArg List.length (lexeme_taken_append_rest h)
  have hne := List.length_pos_iff.2 (lexeme_taken_ne_nil h)
  simp only [List.length_append, List.length_cons] at happ
  omega

/-! ### Scanning -/

/-- Text still to be read, and the place of its first character. -/
structure Scan where
  pos : Pos
  rest : List Char
  deriving DecidableEq, Repr

namespace Scan

/-- The whole of a text. -/
def ofString (s : String) : Scan := ⟨.start, s.toList⟩

/-- What is left after the characters for which `p` holds. -/
def skipWhile (p : Char → Bool) (s : Scan) : Scan :=
  ⟨s.pos.after (s.rest.takeWhile p), s.rest.dropWhile p⟩

/-- What is left after a comment: its newline, if it has one, and all that follows. -/
def pastComment (s : Scan) : Scan := s.skipWhile (· != '\n')

/-- What is left of `cs` after blanks and comments; `inComment` says whether `cs` begins
inside a comment. -/
def gapEnd (inComment : Bool) (p : Pos) : List Char → Scan
  | [] => ⟨p, []⟩
  | c :: cs =>
    if inComment then gapEnd (c != '\n') (p.next c) cs
    else if isBlank c then gapEnd false (p.next c) cs
    else if c = '#' then gapEnd true (p.next c) cs
    else ⟨p, c :: cs⟩

/-- What is left after blanks and comments. -/
def pastGap (s : Scan) : Scan := gapEnd false s.pos s.rest

theorem length_gapEnd_le (inComment : Bool) (p : Pos) (cs : List Char) :
    (gapEnd inComment p cs).rest.length ≤ cs.length := by
  fun_induction gapEnd inComment p cs <;> grind

theorem length_pastGap_le (s : Scan) : s.pastGap.rest.length ≤ s.rest.length :=
  length_gapEnd_le false s.pos s.rest

/-- The token at the front of a text that begins with no gap, or why there is none, and
what is left.  A string without its closing quote is read to the end; half an operator
is not read. -/
def tokenHere (s : Scan) : Except ParseError Token × Scan :=
  match s.rest with
  | [] => (.ok (.endAt s.pos), s)
  | c :: cs =>
    match lexeme c cs with
    | .ok l => (.ok ⟨l.kind, l.text, s.pos⟩, ⟨s.pos.after l.taken, l.rest⟩)
    | .error .string => (.error (.unclosedString s.pos), ⟨s.pos.after s.rest, []⟩)
    | .error .operator => (.error (.halfOperator s.pos), s)

/-- The next token, or why there is none, and what is left. -/
def token (s : Scan) : Except ParseError Token × Scan := s.pastGap.tokenHere

theorem length_token_lt {s r : Scan} {t : Token} (h : s.token = (.ok t, r))
    (ht : t.kind ≠ .endOfInput) : r.rest.length < s.rest.length := by
  have hgap := s.length_pastGap_le
  rw [token, tokenHere] at h
  split at h
  · simp only [Prod.mk.injEq, Except.ok.injEq] at h
    exact absurd (h.1 ▸ rfl) ht
  · rename_i c cs hcs
    split at h
    · rename_i l hl
      simp only [Prod.mk.injEq] at h
      obtain ⟨-, rfl⟩ := h
      have := length_rest_lexeme_le hl
      simp only [hcs, List.length_cons] at hgap
      simp only
      omega
    · simp at h
    · simp at h

/-- The tokens from here to the end of the input, after those in `done`, last first. -/
def tokensOnto (done : List Token) (s : Scan) : Except ParseError (List Token) :=
  match _h : s.token with
  | (.error e, _) => .error e
  | (.ok t, r) =>
    if _ht : t.kind = .endOfInput then .ok (t :: done).reverse
    else tokensOnto (t :: done) r
  termination_by s.rest.length
  decreasing_by exact length_token_lt _h _ht

end Scan

/-- The tokens of a text; the last of them, and only the last, is the end of the input. -/
def scanTokens (source : String) : Except ParseError (List Token) :=
  (Scan.ofString source).tokensOnto []

end GnLang
