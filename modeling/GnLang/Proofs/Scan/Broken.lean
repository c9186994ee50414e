/-
Texts that break off inside a token.

Scanning fails only at a token that the end of the text cuts off: a string without its
closing quote, or half an operator.  So a text breaks off if its tokens reach one that is
cut off (`scanTokens_eq_error`).

What a text that breaks off becomes when more follows on a new line depends on what was cut
off.  A string goes on to the next quote, whatever stands before it
(`scanTokens_newline_of_string`); half an operator is then a character that begins no token
(`mem_stray_of_operator`).
-/
import Mathlib.Data.List.TakeWhile
import GnLang.Proofs.Scan.Extension

namespace GnLang

/-! ### Lexemes that are cut off -/

theorem lexeme_eq_error_string {c : Char} {cs : List Char} :
    lexeme c cs = .error .string ↔ c = '"' ∧ '"' ∉ cs := by
  have hdrop : cs.dropWhile (· != '"') = [] ↔ '"' ∉ cs := by
    rw [List.dropWhile_eq_nil_iff]
    constructor
    · intro h hmem
      exact absurd (h _ hmem) (by simp)
    · rintro h c hc
      rw [bne_iff_ne]
      rintro rfl
      exact h hc
  constructor
  · intro h
    unfold lexeme at h
    split at h
    · cases h
    split at h
    · cases h
    split at h
    · rename_i hquote
      split at h
      · rename_i hnil
        exact ⟨hquote, hdrop.mp hnil⟩
      · cases h
    split at h
    · cases h
    split at h <;> cases h
  · rintro ⟨rfl, h⟩
    rw [lexeme, if_neg (by decide), if_neg (by decide), if_pos rfl, hdrop.mpr h]

theorem lexeme_eq_error_operator {c : Char} {cs : List Char} :
    lexeme c cs = .error .operator ↔ (c = '&' ∨ c = '|') ∧ cs = [] := by
  constructor
  · intro h
    unfold lexeme at h
    split at h
    · cases h
    split at h
    · cases h
    split at h
    · split at h <;> cases h
    split at h
    · cases h
    split at h
    · assumption
    · cases h
  · rintro ⟨rfl | rfl, rfl⟩ <;> rfl

theorem ParseError.unclosedString_ne_halfOperator {p q : Pos} :
    unclosedString p ≠ halfOperator q := by
  simp [unclosedString, halfOperator]

/-- The end of a text that cuts a token off at `p`, and the error that it gives. -/
inductive Cut (p : Pos) : List Char → ParseError → Prop where
  | string {cs : List Char} : '"' ∉ cs → Cut p ('"' :: cs) (.unclosedString p)
  | operator {c : Char} : c = '&' ∨ c = '|' → Cut p [c] (.halfOperator p)

theorem Cut.beginsNoGap {p : Pos} {cs : List Char} {e : ParseError} (h : Cut p cs e) :
    BeginsNoGap cs := by
  cases h with
  | string _ => exact beginsNoGap_cons.mpr (by decide)
  | operator hc => rcases hc with rfl | rfl <;> exact beginsNoGap_cons.mpr (by decide)

namespace Scan

/-- There is no token exactly where, after a gap, one is cut off. -/
theorem token_eq_error {s : Scan} {e : ParseError} :
    (∃ r, s.token = (.error e, r)) ↔
      ∃ g cs, s.rest = g ++ cs ∧ IsGap cs g ∧ Cut (s.pos.after g) cs e := by
  constructor
  · rintro ⟨r, h⟩
    obtain ⟨g, rest, hrest, hend, hg, -⟩ := exists_isGap s.pos s.rest
    rw [token, pastGap, hend, tokenHere] at h
    refine ⟨g, rest, hrest, hg, ?_⟩
    cases rest with
    | nil => cases h
    | cons c cs =>
      dsimp only at h
      cases hl : lexeme c cs with
      | ok l =>
        rw [hl] at h
        cases h
      | error f =>
        rw [hl] at h
        cases f with
        | string =>
          cases h
          obtain ⟨rfl, hcs⟩ := lexeme_eq_error_string.mp hl
          exact .string hcs
        | operator =>
          cases h
          obtain ⟨hc, rfl⟩ := lexeme_eq_error_operator.mp hl
          exact .operator hc
  · rintro ⟨g, cs, hrest, hg, hcut⟩
    have htoken : s.token = tokenHere ⟨s.pos.after g, cs⟩ := by
      rw [← gapEnd_of_beginsNoGap hcut.beginsNoGap, ← gapEnd_gap hg, ← hrest]
      rfl
    rw [htoken, tokenHere]
    cases hcut with
    | string hcs =>
      dsimp only
      rw [lexeme_eq_error_string.mpr ⟨rfl, hcs⟩]
      exact ⟨_, rfl⟩
    | operator hc =>
      dsimp only
      rw [lexeme_eq_error_operator.mpr ⟨hc, rfl⟩]
      exact ⟨_, rfl⟩

/-! ### Where scanning fails -/

variable {s r : Scan}

theorem tokensOnto_of_error {e : ParseError} (h : s.token = (.error e, r))
    (done : List Token) : s.tokensOnto done = .error e := by
  rw [tokensOnto]
  split
  · rename_i h'
    rw [h] at h'
    cases h'
    rfl
  · rename_i h'
    rw [h] at h'
    cases h'

theorem tokensOnto_eq_error {done : List Token} {e : ParseError} :
    s.tokensOnto done = .error e ↔ ∃ w r r', Reaches s w r ∧ r.token = (.error e, r') := by
  constructor
  · intro h
    fun_induction Scan.tokensOnto done s with
    | case1 done s f r ht =>
      cases h
      exact ⟨[], s, r, .here, ht⟩
    | case2 done s t r ht hk => cases h
    | case3 done s t r ht hk ih =>
      obtain ⟨w, r', r'', hw, he⟩ := ih h
      exact ⟨t :: w, r', r'', .more ht hk hw, he⟩
  · rintro ⟨w, r, r', hw, he⟩
    induction hw generalizing done with
    | here => exact tokensOnto_of_error he done
    | more ht hk _ ih => rw [tokensOnto_of_more ht hk, ih he]

end Scan

/-- Scanning a text fails exactly if, after some tokens and a gap, its end cuts a token
off. -/
theorem scanTokens_eq_error {source : String} {e : ParseError} :
    scanTokens source = .error e ↔ ∃ w r g cs, (Scan.ofString source).Reaches w r ∧
      r.rest = g ++ cs ∧ IsGap cs g ∧ Cut (r.pos.after g) cs e := by
  rw [scanTokens, Scan.tokensOnto_eq_error]
  constructor
  · rintro ⟨w, r, r', hw, he⟩
    obtain ⟨g, cs, hrest, hg, hcut⟩ := Scan.token_eq_error.mp ⟨r', he⟩
    exact ⟨w, r, g, cs, hw, hrest, hg, hcut⟩
  · rintro ⟨w, r, g, cs, hw, hrest, hg, hcut⟩
    obtain ⟨r', he⟩ := Scan.token_eq_error.mpr ⟨g, cs, hrest, hg, hcut⟩
    exact ⟨w, r, r', hw, he⟩

/-! ### On a new line -/

namespace Scan

variable {s : Scan} {g cs ds : List Char} {us : List Token}

theorem isGap_newline (hg : IsGap cs g) (hcs : cs ≠ []) (ds : List Char) :
    IsGap (cs ++ '\n' :: ds) g := by
  refine hg.of_next fun c hc => .inl ?_
  rwa [List.head?_append_of_ne_nil cs hcs] at hc

/-- A string that is cut off goes on to the next quote. -/
theorem token_newline_of_string (hrest : s.rest = g ++ '"' :: cs) (hg : IsGap ('"' :: cs) g)
    (hcs : '"' ∉ cs) {inside : List Char} (hinside : '"' ∉ inside) {t : Token}
    (ht : t = .quoted (String.ofList (cs ++ '\n' :: inside)) (s.pos.after g))
    (rest : List Char) :
    token ⟨s.pos, s.rest ++ '\n' :: (inside ++ '"' :: rest)⟩ =
      (.ok t, ⟨t.pos.after t.chars, rest⟩) := by
  subst ht
  have hvalue : Text.IsQuotable (String.ofList (cs ++ '\n' :: inside)) := by
    rw [Text.IsQuotable, String.toList_ofList]
    simp [hcs, hinside]
  have hlongest : Token.IsLongest (.quoted _ (s.pos.after g)) rest := .quoted hvalue
  rw [hrest, List.append_assoc, token_gap (isGap_newline hg (List.cons_ne_nil _ _) _),
    ← token_of_isLongest hlongest]
  simp [Token.chars, Token.quoted]

/-- Without another quote it is cut off once more. -/
theorem not_yields_newline_of_string (hrest : s.rest = g ++ '"' :: cs)
    (hg : IsGap ('"' :: cs) g) (hcs : '"' ∉ cs) (hds : '"' ∉ ds) :
    ¬ Yields ⟨s.pos, s.rest ++ '\n' :: ds⟩ us := by
  have hagain : s.rest ++ '\n' :: ds = g ++ '"' :: (cs ++ '\n' :: ds) := by
    rw [hrest, List.append_assoc, List.cons_append]
  have hcut : Cut (s.pos.after g) ('"' :: (cs ++ '\n' :: ds)) _ := .string (by simp [hcs, hds])
  have hgap : IsGap ('"' :: (cs ++ '\n' :: ds)) g := isGap_newline hg (List.cons_ne_nil _ _) ds
  obtain ⟨r, hr⟩ := (token_eq_error (s := ⟨s.pos, _⟩)).mpr ⟨g, _, hagain, hgap, hcut⟩
  exact not_yields_of_error hr us

theorem yields_newline_of_string (hrest : s.rest = g ++ '"' :: cs) (hg : IsGap ('"' :: cs) g)
    (hcs : '"' ∉ cs) :
    Yields ⟨s.pos, s.rest ++ '\n' :: ds⟩ us ↔
      ∃ inside rest t v, ds = inside ++ '"' :: rest ∧ '"' ∉ inside ∧
        t = .quoted (String.ofList (cs ++ '\n' :: inside)) (s.pos.after g) ∧ us = t :: v ∧
        Yields ⟨t.pos.after t.chars, rest⟩ v := by
  constructor
  · intro hus
    by_cases hquote : '"' ∈ ds
    · obtain ⟨inside, rest, rfl, hinside⟩ := List.eq_append_cons_of_mem hquote
      have htoken := token_newline_of_string hrest hg hcs hinside rfl rest
      obtain ⟨v, rfl, hv⟩ := (yields_iff_of_more htoken (by simp)).mp hus
      exact ⟨inside, rest, _, v, rfl, hinside, rfl, rfl, hv⟩
    · exact absurd hus (not_yields_newline_of_string hrest hg hcs hquote)
  · rintro ⟨inside, rest, t, v, rfl, hinside, ht, rfl, hv⟩
    exact .more (token_newline_of_string hrest hg hcs hinside ht rest) (by rw [ht]; simp) hv

/-- Half an operator before a newline begins no token. -/
theorem isStray_newline {c : Char} (hc : c = '&' ∨ c = '|') (ds : List Char) :
    IsStray c ('\n' :: ds) := by
  have hsymbol : ∀ m : Symbol, m.chars ≠ [c] ∧ m.chars ≠ [c, '\n'] := by
    rcases hc with rfl | rfl <;> intro m <;> cases m <;> decide
  have hbegins : isBlank c = false ∧ c ≠ '#' ∧ isIdentStart c = false ∧ c.isDigit = false ∧
      c ≠ '"' := by
    rcases hc with rfl | rfl <;> decide
  obtain ⟨hblank, hhash, hword, hdigit, hquote⟩ := hbegins
  refine ⟨hblank, hhash, hword, hdigit, hquote, fun m hm => ?_, fun _ => List.cons_ne_nil _ _⟩
  rcases Symbol.chars_prefix_cons.mp hm with hone | ⟨d, _, hd, htwo⟩
  · exact (hsymbol m).1 hone
  · cases hd
    exact (hsymbol m).2 htwo

/-- Half an operator becomes a stray character. -/
theorem token_newline_of_operator {c : Char} (hrest : s.rest = g ++ [c]) (hg : IsGap [c] g)
    (hc : c = '&' ∨ c = '|') (ds : List Char) :
    token ⟨s.pos, s.rest ++ '\n' :: ds⟩ =
      (.ok (.stray c (s.pos.after g)), ⟨(s.pos.after g).next c, '\n' :: ds⟩) := by
  have hlongest := token_of_isLongest (.stray (p := s.pos.after g) (isStray_newline hc ds))
  rw [Token.chars_stray] at hlongest
  rw [hrest, List.append_assoc, token_gap (isGap_newline hg (List.cons_ne_nil _ _) ds)]
  exact hlongest

end Scan

variable {source : String} {p : Pos}

/-- What follows a string that is cut off belongs to the string, up to the next quote; the
tokens before the string are kept, and those after the quote are found from there on. -/
theorem scanTokens_newline_of_string (h : scanTokens source = .error (.unclosedString p)) :
    ∃ w cs, ∀ more us, scanTokens (source ++ "\n" ++ more) = .ok us ↔
      ∃ inside rest t v, more.toList = inside ++ '"' :: rest ∧ '"' ∉ inside ∧
        t = .quoted (String.ofList (cs ++ '\n' :: inside)) p ∧ us = w ++ t :: v ∧
        Scan.Yields ⟨t.pos.after t.chars, rest⟩ v := by
  obtain ⟨w, r, g, cut, hw, hrest, hg, hcut⟩ := scanTokens_eq_error.mp h
  generalize he : ParseError.unclosedString p = e at hcut
  cases hcut with
  | operator _ => exact absurd he ParseError.unclosedString_ne_halfOperator
  | @string cs hcs =>
    cases he
    refine ⟨w, cs, fun more us => ?_⟩
    rw [scanTokens_eq_ok, ofString_newline]
    refine (hw.newline more.toList).yields_iff.trans ?_
    constructor
    · rintro ⟨_, rfl, hus⟩
      obtain ⟨inside, rest, t, v, hmore, hinside, ht, rfl, hv⟩ :=
        (Scan.yields_newline_of_string hrest hg hcs).mp hus
      exact ⟨inside, rest, t, v, hmore, hinside, ht, rfl, hv⟩
    · rintro ⟨inside, rest, t, v, hmore, hinside, ht, rfl, hv⟩
      exact ⟨_, rfl, (Scan.yields_newline_of_string hrest hg hcs).mpr
        ⟨inside, rest, t, v, hmore, hinside, ht, rfl, hv⟩⟩

/-- Half an operator at the end of a text is a stray character of any text that goes on
after a newline. -/
theorem mem_stray_of_operator (h : scanTokens source = .error (.halfOperator p)) :
    ∃ c, ∀ more us, scanTokens (source ++ "\n" ++ more) = .ok us → Token.stray c p ∈ us := by
  obtain ⟨w, r, g, cut, hw, hrest, hg, hcut⟩ := scanTokens_eq_error.mp h
  generalize he : ParseError.halfOperator p = e at hcut
  cases hcut with
  | string _ => exact absurd he.symm ParseError.unclosedString_ne_halfOperator
  | @operator c hc =>
    cases he
    refine ⟨c, fun more us hus => ?_⟩
    have htoken := Scan.token_newline_of_operator hrest hg hc more.toList
    rw [scanTokens_eq_ok, ofString_newline] at hus
    obtain ⟨_, rfl, hrest⟩ := (hw.newline more.toList).yields_iff.mp hus
    obtain ⟨v, rfl, -⟩ := (Scan.yields_iff_of_more htoken nofun).mp hrest
    exact List.mem_append_right w List.mem_cons_self

end GnLang
