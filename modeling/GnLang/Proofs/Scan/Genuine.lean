/-
What tokens are like.

A token is genuine if its text is one that its kind allows: a word, a run of digits, the
characters of a symbol, or a string without a double quote.  The parser takes any token
list, with tokens of any text.

* `Token.mark`, `Token.word`, `Token.quoted`, `Token.digits` — the tokens of the four kinds;
* `Token.IsGenuine` — whether the text of a token is one of its kind;
* `Token.SameLexeme` — whether two tokens differ at most in their places.
-/
import GnLang.Proofs.Text.Numeral
import GnLang.Scan

namespace GnLang

namespace Text

/-- A name that the language can write: a letter or an underscore, and then letters,
digits and underscores. -/
def IsWord (name : String) : Prop :=
  ∃ c cs, name.toList = c :: cs ∧ isIdentStart c ∧ ∀ c ∈ cs, isIdentChar c

/-- A string that the language can write. -/
def IsQuotable (value : String) : Prop := '"' ∉ value.toList

end Text

namespace Token

/-- A token written by a symbol. -/
def mark (m : Symbol) (p : Pos) : Token := ⟨.symbol m, m.text, p⟩

/-- A token that is a word. -/
def word (name : String) (p : Pos) : Token := ⟨.ident, name, p⟩

/-- A token that is a string. -/
def quoted (value : String) (p : Pos) : Token := ⟨.string, value, p⟩

/-- A token that is a number. -/
def digits (text : String) (p : Pos) : Token := ⟨.number, text, p⟩

@[simp] theorem kind_mark (m : Symbol) (p : Pos) : (mark m p).kind = .symbol m := rfl

@[simp] theorem kind_word (name : String) (p : Pos) : (word name p).kind = .ident := rfl

@[simp] theorem kind_quoted (value : String) (p : Pos) :
    (quoted value p).kind = .string := rfl

@[simp] theorem kind_digits (text : String) (p : Pos) :
    (digits text p).kind = .number := rfl

/-- Whether the text of a token is one that its kind allows. -/
def IsGenuine (t : Token) : Prop :=
  match t.kind with
  | .ident => Text.IsWord t.text
  | .number => ∃ n, Text.Numeral t.text n
  | .string => Text.IsQuotable t.text
  | .symbol m => t.text = m.text
  | _ => True

variable {t : Token}

theorem IsGenuine.isWord (h : t.IsGenuine) (hk : t.kind = .ident) : Text.IsWord t.text := by
  rw [IsGenuine, hk] at h
  exact h

theorem IsGenuine.numeral (h : t.IsGenuine) (hk : t.kind = .number) :
    ∃ n, Text.Numeral t.text n := by
  rw [IsGenuine, hk] at h
  exact h

theorem IsGenuine.isQuotable (h : t.IsGenuine) (hk : t.kind = .string) :
    Text.IsQuotable t.text := by
  rw [IsGenuine, hk] at h
  exact h

theorem IsGenuine.text_symbol (h : t.IsGenuine) {m : Symbol} (hk : t.kind = .symbol m) :
    t.text = m.text := by
  rw [IsGenuine, hk] at h
  exact h

theorem eq_word (hk : t.kind = .ident) : t = word t.text t.pos := by
  obtain ⟨k, text, p⟩ := t
  subst hk
  rfl

theorem eq_quoted (hk : t.kind = .string) : t = quoted t.text t.pos := by
  obtain ⟨k, text, p⟩ := t
  subst hk
  rfl

theorem eq_digits (hk : t.kind = .number) : t = digits t.text t.pos := by
  obtain ⟨k, text, p⟩ := t
  subst hk
  rfl

theorem eq_mark (h : t.IsGenuine) {m : Symbol} (hk : t.kind = .symbol m) :
    t = mark m t.pos := by
  have htext := h.text_symbol hk
  obtain ⟨k, text, p⟩ := t
  subst hk
  subst htext
  rfl

/-- Two tokens have the same kind and the same text. -/
def SameLexeme (t u : Token) : Prop := t.kind = u.kind ∧ t.text = u.text

theorem SameLexeme.refl (t : Token) : t.SameLexeme t := ⟨rfl, rfl⟩

/-- A token that a text can spell out: neither the end of the input nor a character that
begins no token. -/
inductive Spellable : Token → Prop where
  | mark (m : Symbol) (p : Pos) : Spellable (.mark m p)
  | word {name : String} (p : Pos) : Text.IsWord name → Spellable (.word name p)
  | quoted {value : String} (p : Pos) : Text.IsQuotable value → Spellable (.quoted value p)
  | digits {text : String} {n : Nat} (p : Pos) :
      Text.Numeral text n → Spellable (.digits text p)

end Token

theorem Text.numeral_of_isDigit {cs : List Char} (hne : cs ≠ []) (h : ∀ c ∈ cs, c.isDigit) :
    Text.Numeral (String.ofList cs) (Nat.ofDigitChars 10 cs 0) := by
  refine ⟨?_, ?_, ?_⟩
  · rwa [String.toList_ofList]
  · rwa [String.toList_ofList]
  · rw [String.toList_ofList]

end GnLang
