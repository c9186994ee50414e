/-
Which texts have no tokens.

A text can be read up to any of its tokens.  `Segmented rest cs` says, without a scanner,
that the characters `cs` in front of `rest` are gaps and whole tokens, each the longest
lexeme where it stands.

* `scanTokens_eq_error_iff` — scanning fails exactly if such characters go before a token that
  the end of the text cuts off, and the error is placed at the first character of that token;
* `scanTokens_ends` — otherwise there are tokens, no more than characters and one; and reading
  the text one character at a time ends in the same way.
-/
import GnLang.Proofs.Lossless
import GnLang.Proofs.Scan.Broken
import GnLang.Proofs.Scan.Reading

namespace GnLang

/-- Gaps and whole tokens in front of `rest`. -/
inductive Segmented (rest : List Char) : List Char → Prop where
  | nil : Segmented rest []
  | gap {g cs : List Char} :
      IsGap (cs ++ rest) g → Segmented rest cs → Segmented rest (g ++ cs)
  | token {t : Token} {cs : List Char} :
      t.IsLongest (cs ++ rest) → Segmented rest cs → Segmented rest (t.chars ++ cs)

/-- Gaps and whole tokens can follow gaps and whole tokens. -/
theorem Segmented.append {rest cs ds : List Char} (h : Segmented (ds ++ rest) cs)
    (h' : Segmented rest ds) : Segmented rest (cs ++ ds) := by
  induction h with
  | nil => exact h'
  | gap hg _ ih =>
    rw [← List.append_assoc] at hg
    rw [List.append_assoc]
    exact .gap hg ih
  | token ht _ ih =>
    rw [← List.append_assoc] at ht
    rw [List.append_assoc]
    exact .token ht ih

namespace Scan

variable {s r : Scan} {w ts : List Token} {e : ParseError}

/-- What has been read before the text that is left is gaps and whole tokens. -/
theorem Reaches.exists_segmented (h : Reaches s w r) :
    ∃ cs, s.rest = cs ++ r.rest ∧ r.pos = s.pos.after cs ∧ Segmented r.rest cs := by
  induction h with
  | here => exact ⟨[], rfl, rfl, .nil⟩
  | @more s _ r t w ht hk _ ih =>
    obtain ⟨g, cs, hrest, hg, hp, hlongest, rfl⟩ := token_more ht hk
    obtain ⟨cs', rfl, hpos, hsegmented⟩ := ih
    refine ⟨g ++ (t.chars ++ cs'), by simp [hrest], ?_, ?_⟩
    · rw [hpos, hp, Pos.after_append, Pos.after_append]
    · rw [← List.append_assoc] at hg
      exact .gap hg (.token hlongest hsegmented)

/-- Scanning depends only on what is left after blanks and comments. -/
theorem tokensOnto_congr {s' : Scan} (h : s.token = s'.token) (done : List Token) :
    s.tokensOnto done = s'.tokensOnto done := by
  rcases hs : s.token with ⟨e | t, r⟩
  · rw [tokensOnto_of_error hs, tokensOnto_of_error (h.symm.trans hs)]
  · by_cases hk : t.kind = .endOfInput
    · rw [tokensOnto_of_last hs hk, tokensOnto_of_last (h.symm.trans hs) hk]
    · rw [tokensOnto_of_more hs hk, tokensOnto_of_more (h.symm.trans hs) hk]

/-- Gaps and whole tokens are scanned, whatever the characters after them are. -/
theorem tokensOnto_of_segmented {u v : List Char} (h : Segmented v u) {p : Pos}
    (hcut : Cut (p.after u) v e) (done : List Token) :
    tokensOnto done ⟨p, u ++ v⟩ = .error e := by
  induction h generalizing p done with
  | nil =>
    obtain ⟨r, hr⟩ := (token_eq_error (s := ⟨p, v⟩)).mpr ⟨[], v, rfl, .nil, hcut⟩
    exact tokensOnto_of_error hr done
  | @gap g cs hg _ ih =>
    rw [Pos.after_append] at hcut
    rw [List.append_assoc, tokensOnto_congr (token_gap hg p), ih hcut]
  | @token t cs ht _ ih =>
    -- the token stands at `p`, wherever the one that is the longest lexeme is placed
    let u : Token := ⟨t.kind, t.text, p⟩
    have hu : u.IsLongest (cs ++ v) := ht.move ⟨rfl, rfl⟩
    rw [Pos.after_append] at hcut
    rw [List.append_assoc]
    exact (tokensOnto_of_more (token_of_isLongest hu) hu.ne_endOfInput done).trans (ih hcut _)

/-- Each token but the last takes up a character. -/
theorem Yields.length_le (h : s.Yields ts) : ts.length ≤ s.rest.length + 1 := by
  induction h with
  | last _ _ => exact Nat.le_add_left 1 _
  | more ht hk _ ih =>
    have := length_token_lt ht hk
    rw [List.length_cons]
    omega

end Scan

/-- Scanning a text fails exactly if gaps and whole tokens go before a token that its end
cuts off, and the error is placed where that token begins. -/
theorem scanTokens_eq_error_iff {source : String} {e : ParseError} :
    scanTokens source = .error e ↔
      ∃ u v, source.toList = u ++ v ∧ Segmented v u ∧ Cut (.following u) v e := by
  constructor
  · intro h
    obtain ⟨w, r, g, v, hw, hrest, hg, hcut⟩ := scanTokens_eq_error.mp h
    obtain ⟨cs, hsource, hpos, hsegmented⟩ := hw.exists_segmented
    have hgap : Segmented v (g ++ []) := .gap hg .nil
    rw [List.append_nil] at hgap
    rw [hrest] at hsource hsegmented
    refine ⟨cs ++ g, v, by rw [List.append_assoc]; exact hsource, hsegmented.append hgap, ?_⟩
    rw [← Pos.start_after, Pos.after_append]
    rwa [hpos] at hcut
  · rintro ⟨u, v, hsource, hsegmented, hcut⟩
    rw [← Pos.start_after] at hcut
    rw [scanTokens, Scan.ofString, hsource]
    exact Scan.tokensOnto_of_segmented hsegmented hcut []

-- two characters are an operator wherever they can be, and only what is left over is cut off
example : scanTokens "&&&" = .error (.halfOperator ⟨1, 3⟩) := by cbv

theorem Cut.exists_incomplete {p : Pos} {cs : List Char} {e : ParseError} (h : Cut p cs e) :
    ∃ text, e = ⟨.incomplete text, p⟩ := by
  cases h <;> exact ⟨_, rfl⟩

/-- A text has tokens, at most one more than characters, or it stops too early.  It stops too
early exactly if gaps and whole tokens go before a quote that is never closed, or before half
an operator as the last character; the error is placed there.  Read one character after the
other, it comes to the same, so that no read goes past the end. -/
theorem scanTokens_ends (source : String) :
    ((∃ ts, scanTokens source = .ok ts ∧ ts.length ≤ source.length + 1) ∨
        ∃ text p, scanTokens source = .error ⟨.incomplete text, p⟩) ∧
      (∀ e, scanTokens source = .error e ↔
        ∃ u v, source.toList = u ++ v ∧ Segmented v u ∧ Cut (.following u) v e) ∧
      ∀ r, Cursor.ReadsTokens (.ofString source) r ↔
        r = (scanTokens source).mapError .lexical := by
  refine ⟨?_, fun e => scanTokens_eq_error_iff, fun r => Cursor.readsTokens_iff⟩
  cases hts : scanTokens source with
  | ok ts =>
    have hlength := (scanTokens_eq_ok.mp hts).length_le
    exact .inl ⟨ts, rfl, hlength⟩
  | error e =>
    obtain ⟨u, v, -, -, hcut⟩ := scanTokens_eq_error_iff.mp hts
    obtain ⟨text, rfl⟩ := hcut.exists_incomplete
    exact .inr ⟨text, _, rfl⟩

end GnLang
