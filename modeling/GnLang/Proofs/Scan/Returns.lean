/-
Carriage returns before newlines.

`Text.withReturns s` is the text `s` with a carriage return put before every newline.  Nothing
else of it moves: a carriage return is one column wide, but the newline after it begins a new
line anyway (`Pos.after_addReturns`).  Between tokens the carriage return is a blank, at the end
of a comment it is part of the comment, and no token but a string goes on over a newline.

* `IsGap.addReturns`, `Token.IsLongest.withReturns`, `Cut.addReturns` — gaps, tokens and what is
  cut off are what they were;
* `scanTokens_withReturns` — so the tokens of a text are, but for the carriage returns that its
  strings have now.
-/
import GnLang.Proofs.Scan.Broken

namespace GnLang

/-! ### Texts -/

namespace Text

/-- A carriage return before every newline. -/
def addReturns (cs : List Char) : List Char :=
  cs.flatMap fun c => if c = '\n' then ['\r', '\n'] else [c]

/-- The text with a carriage return before every newline. -/
def withReturns (s : String) : String := .ofList (addReturns s.toList)

theorem addReturns_nil : addReturns [] = [] := rfl

theorem addReturns_newline (cs : List Char) :
    addReturns ('\n' :: cs) = '\r' :: '\n' :: addReturns cs := rfl

theorem addReturns_cons {c : Char} (hc : c ≠ '\n') (cs : List Char) :
    addReturns (c :: cs) = c :: addReturns cs := by
  rw [addReturns, List.flatMap_cons, if_neg hc]
  rfl

theorem addReturns_cons_ne_nil {c : Char} {cs : List Char} : addReturns (c :: cs) ≠ [] := by
  by_cases hc : c = '\n'
  · rw [hc, addReturns_newline]
    exact nofun
  · rw [addReturns_cons hc]
    exact nofun

theorem addReturns_append (cs ds : List Char) :
    addReturns (cs ++ ds) = addReturns cs ++ addReturns ds := List.flatMap_append

theorem addReturns_eq_self {cs : List Char} (h : '\n' ∉ cs) : addReturns cs = cs := by
  induction cs with
  | nil => rfl
  | cons c cs ih =>
    obtain ⟨hc, hcs⟩ := not_or.mp (mt List.mem_cons.mpr h)
    rw [addReturns_cons (Ne.symm hc), ih hcs]

theorem mem_addReturns {c : Char} {cs : List Char} (h : c ∈ addReturns cs) :
    c = '\r' ∨ c ∈ cs := by
  obtain ⟨d, hd, hc⟩ := List.mem_flatMap.mp h
  split at hc
  · rename_i hnewline
    subst hnewline
    rcases List.mem_cons.mp hc with rfl | hc
    · exact .inl rfl
    · exact .inr (List.mem_singleton.mp hc ▸ hd)
  · exact .inr (List.mem_singleton.mp hc ▸ hd)

/-- The text begins as before, or with a carriage return. -/
theorem head?_addReturns {cs : List Char} :
    ∀ c ∈ (addReturns cs).head?, c ∈ cs.head? ∨ c = '\r' := by
  intro c hc
  cases cs with
  | nil => exact .inl hc
  | cons d cs =>
    by_cases hd : d = '\n'
    · subst hd
      exact .inr (Option.some.inj hc).symm
    · rw [addReturns_cons hd] at hc
      exact .inl hc

theorem not_mem_addReturns {c : Char} {cs : List Char} (hc : c ≠ '\r') (h : c ∉ cs) :
    c ∉ addReturns cs := by
  intro hmem
  rcases mem_addReturns hmem with hreturn | hmem
  · exact hc hreturn
  · exact h hmem

theorem isQuotable_withReturns {v : String} (h : IsQuotable v) : IsQuotable (withReturns v) := by
  rw [IsQuotable, withReturns, String.toList_ofList]
  exact not_mem_addReturns (by decide) h

end Text

open Text

theorem Pos.after_addReturns (p : Pos) (cs : List Char) : p.after (addReturns cs) = p.after cs := by
  induction cs generalizing p with
  | nil => rfl
  | cons c cs ih =>
    by_cases hc : c = '\n'
    · subst hc
      rw [addReturns_newline, after_cons, after_cons, after_cons, ih]
      rfl
    · rw [addReturns_cons hc, after_cons, after_cons, ih]

/-! ### Gaps -/

/-- A comment that ended with its line ends there still, one character later. -/
theorem IsGap.addReturns {rest g : List Char} (h : IsGap rest g) (hrest : BeginsNoGap rest) :
    IsGap (addReturns rest) (addReturns g) := by
  induction h with
  | nil => exact .nil
  | @blank c g hc _ ih =>
    by_cases hnewline : c = '\n'
    · subst hnewline
      exact .blank rfl (.blank rfl ih)
    · rw [addReturns_cons hnewline]
      exact .blank hc ih
  | @comment body g hbody hend _ ih =>
    rw [addReturns_cons (by decide), addReturns_append, addReturns_eq_self hbody]
    cases g with
    | nil =>
      -- a newline would be part of the gap, so the comment goes on to the end of the text
      cases rest with
      | nil => exact .comment hbody nofun .nil
      | cons c rest =>
        obtain rfl := hend c rfl
        exact absurd (hrest '\n' rfl).1 (by decide)
    | cons c g =>
      obtain rfl := hend c rfl
      cases ih with
      | blank _ hgap =>
        have hreturn : '\n' ∉ body ++ ['\r'] := by simp [hbody]
        have := hgap.comment hreturn (by simp)
        rwa [List.append_assoc] at this

/-! ### Tokens -/

namespace Token

/-- The token with a carriage return before every newline, if it is a string. -/
def withReturns (t : Token) : Token :=
  ⟨t.kind, if t.kind = .string then Text.withReturns t.text else t.text, t.pos⟩

theorem withReturns_of_ne_string {t : Token} (h : t.kind ≠ .string) : t.withReturns = t := by
  rw [withReturns, if_neg h]

/-- No token but a string holds a newline. -/
theorem IsLongest.not_mem_chars {t : Token} {rest : List Char} (h : t.IsLongest rest)
    (hk : t.kind ≠ .string) : '\n' ∉ t.chars := by
  cases h with
  | word hname _ =>
    intro hmem
    exact absurd (hname.isIdentChar _ hmem) (by decide)
  | digits htext _ =>
    intro hmem
    exact absurd (htext.isDigit _ hmem) (by decide)
  | quoted _ => exact absurd rfl hk
  | @mark m p rest _ =>
    intro hmem
    rw [chars_mark] at hmem
    exact absurd (m.not_gap_of_mem_chars _ hmem).1 (by decide)
  | @stray c p rest hstray =>
    intro hmem
    rw [chars_stray, List.mem_singleton] at hmem
    subst hmem
    exact absurd hstray.notBlank (by decide)

theorem IsLongest.chars_withReturns {t : Token} {rest : List Char} (h : t.IsLongest rest) :
    t.withReturns.chars = addReturns t.chars := by
  by_cases hk : t.kind = .string
  · rw [withReturns, if_pos hk, chars, chars]
    dsimp only
    rw [hk]
    dsimp only
    rw [addReturns_cons (by decide), addReturns_append, Text.withReturns, String.toList_ofList]
    rfl
  · rw [withReturns_of_ne_string hk, addReturns_eq_self (h.not_mem_chars hk)]

theorem IsLongest.withReturns {t : Token} {rest : List Char} (h : t.IsLongest rest) :
    t.withReturns.IsLongest (addReturns rest) := by
  by_cases hk : t.kind = .string
  · cases h with
    | quoted hvalue => exact .quoted (isQuotable_withReturns hvalue)
    | _ => cases hk
  · rw [withReturns_of_ne_string hk]
    cases rest with
    | nil => exact h
    | cons c rest =>
      refine h.of_next (fun d hd => ?_) addReturns_cons_ne_nil
      rcases head?_addReturns d hd with hold | rfl
      · exact .inl hold
      · exact .inr (.inl rfl)

end Token

/-- What cuts off a token cuts it off still. -/
theorem Cut.addReturns {p : Pos} {cs : List Char} {e : ParseError} (h : Cut p cs e) :
    Cut p (addReturns cs) e := by
  cases h with
  | string hcs =>
    rw [addReturns_cons (by decide)]
    exact .string (not_mem_addReturns (by decide) hcs)
  | operator hc => rcases hc with rfl | rfl <;> exact .operator (by decide)

namespace Scan

/-- The text still to be read with a carriage return before every newline. -/
def withReturns (s : Scan) : Scan := ⟨s.pos, addReturns s.rest⟩

variable {s r : Scan} {t : Token} {w ts : List Token}

/-- The end of the input is found where it was. -/
theorem exists_token_last_withReturns (h : s.token = (.ok t, r)) (hk : t.kind = .endOfInput) :
    ∃ r', s.withReturns.token = (.ok t.withReturns, r') := by
  obtain ⟨hgap, rfl⟩ := token_last h hk
  have hend := token_gap (hgap.addReturns beginsNoGap_nil) s.pos
  rw [addReturns_nil, List.append_nil, Pos.after_addReturns] at hend
  exact ⟨_, hend⟩

/-- Any other token is found where it was, and what follows it is what followed it. -/
theorem token_more_withReturns (h : s.token = (.ok t, r)) (hk : t.kind ≠ .endOfInput) :
    s.withReturns.token = (.ok t.withReturns, r.withReturns) := by
  obtain ⟨g, cs, hrest, hgap, hpos, hlongest, rfl⟩ := token_more h hk
  have htext : addReturns (t.chars ++ cs) = t.withReturns.chars ++ addReturns cs := by
    rw [addReturns_append, hlongest.chars_withReturns]
  have hgap' := hgap.addReturns hlongest.beginsNoGap
  rw [htext] at hgap'
  calc s.withReturns.token
      = token ⟨s.pos, addReturns g ++ (t.withReturns.chars ++ addReturns cs)⟩ := by
        rw [withReturns, hrest, addReturns_append, htext]
    _ = token ⟨t.pos, t.withReturns.chars ++ addReturns cs⟩ := by
        rw [token_gap hgap', Pos.after_addReturns, hpos]
    _ = (.ok t.withReturns, ⟨t.pos.after t.withReturns.chars, addReturns cs⟩) :=
        token_of_isLongest hlongest.withReturns
    _ = (.ok t.withReturns, withReturns ⟨t.pos.after t.chars, cs⟩) := by
        rw [hlongest.chars_withReturns, Pos.after_addReturns]
        rfl

/-- What is cut off is cut off where it was. -/
theorem exists_token_error_withReturns {e : ParseError} (h : s.token = (.error e, r)) :
    ∃ r', s.withReturns.token = (.error e, r') := by
  obtain ⟨g, cs, hrest, hgap, hcut⟩ := token_eq_error.mp ⟨r, h⟩
  refine token_eq_error.mpr ⟨addReturns g, addReturns cs, ?_, hgap.addReturns hcut.beginsNoGap, ?_⟩
  · rw [withReturns, hrest, addReturns_append]
  · rw [withReturns, Pos.after_addReturns]
    exact hcut.addReturns

theorem Yields.withReturns (h : s.Yields ts) :
    s.withReturns.Yields (ts.map Token.withReturns) := by
  induction h with
  | last ht hk =>
    obtain ⟨r', hr'⟩ := exists_token_last_withReturns ht hk
    exact .last hr' hk
  | more ht hk _ ih => exact .more (token_more_withReturns ht hk) hk ih

theorem Reaches.withReturns (h : Reaches s w r) :
    Reaches s.withReturns (w.map Token.withReturns) r.withReturns := by
  induction h with
  | here => exact .here
  | more ht hk _ ih => exact .more (token_more_withReturns ht hk) hk ih

theorem ofString_withReturns (source : String) :
    ofString (Text.withReturns source) = (ofString source).withReturns := by
  rw [ofString, Text.withReturns, String.toList_ofList]
  rfl

end Scan

/-- With a carriage return before every newline a text has the tokens that it had, at the same
places and with the same texts but for the carriage returns in strings; or it breaks off where
it did. -/
theorem scanTokens_withReturns (source : String) :
    scanTokens (Text.withReturns source) =
      (scanTokens source).map (List.map Token.withReturns) := by
  cases hts : scanTokens source with
  | ok ts =>
    have hyields := (scanTokens_eq_ok.mp hts).withReturns
    rw [← Scan.ofString_withReturns] at hyields
    exact scanTokens_eq_ok.mpr hyields
  | error e =>
    obtain ⟨w, r, r', hw, hr⟩ := Scan.tokensOnto_eq_error.mp hts
    obtain ⟨r'', hr'⟩ := Scan.exists_token_error_withReturns hr
    have hreaches := hw.withReturns
    rw [← Scan.ofString_withReturns] at hreaches
    exact Scan.tokensOnto_eq_error.mpr ⟨_, _, _, hreaches, hr'⟩

end GnLang
