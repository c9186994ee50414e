/-
Errors name the first token that is wrong.

Read token by token, a text that is refused can be completed up to some token and cannot be
completed from then on.  `exists_first_refused` finds that token, and `refusal_of_first` says
that it is the one a rule stops at, so that an error which blames a token blames no token
before it and none after it.

* `IsFirstWrong` — what stands before the token can be completed, what ends with it cannot;
* `readProgram_earliest` — an error that blames a token is at the first one that is wrong, and
  an error of stopping too early is at the end of the text.
-/
import Mathlib.Data.List.Induction
import GnLang.Proofs.Scan.Beginnings
import GnLang.Proofs.Unfinished

namespace GnLang

namespace Grammar

open Rule

/-! ### The first token that is refused -/

variable {s : Setting} {d : Nat} {S P : TokenKind → Prop} {u w : List Token} {t : Token}

/-- No tokens at all are a program. -/
theorem not_refuses_nil : ¬ Refuses (items s d) [] := by
  intro h
  obtain ⟨f, q, hr, -⟩ := h []
  have hok : items s d [] = (.ok [], []) :=
    items_eq_ok.mpr ⟨statementsAt_eq_ok.mpr (.inl ⟨by simp [Token.endAt], rfl, rfl⟩), rfl⟩
  cases hok.symm.trans hr

/-- Tokens that are refused wait for more up to one token and are refused with it. -/
theorem exists_first_refused (hu : Proper u) (h : Refuses (items s d) u) :
    ∃ w t v, u = w ++ t :: v ∧
      Waits s (fun _ => True) (· = .endOfInput) (items s d) w ∧
      Refuses (items s d) (w ++ [t]) := by
  induction u using List.reverseRecOn with
  | nil => exact absurd h not_refuses_nil
  | append_singleton u t ih =>
    have hu' : Proper u := fun t ht => hu t (List.mem_append_left _ ht)
    rcases items_refuses_or_waits (s := s) d hu' with hrefuses | hwaits
    · obtain ⟨w, t', v, rfl, hfirst⟩ := ih hu' hrefuses
      exact ⟨w, t', v ++ [t], by simp, hfirst⟩
    · exact ⟨u, t, [], rfl, hwaits, h⟩

/-- The rule that refuses a token has used up all tokens before it, and stops before or after
the token itself. -/
theorem refusal_of_first (hw : Waits s S P (items s d) w)
    (ht : Refuses (items s d) (w ++ [t])) (v : List Token) :
    ∃ f q, items s d (w ++ t :: v) = (.error f, q ++ v) ∧ Refusal f q ∧ (q = [] ∨ q = [t]) := by
  obtain ⟨f, q, hr, hf⟩ := ht v
  rw [List.append_assoc, List.singleton_append] at hr
  refine ⟨f, q, hr, hf, ?_⟩
  obtain ⟨p, hp⟩ := hw.consumes (t :: v)
  rw [hr, ← List.append_assoc] at hp
  have hpq : p ++ q = [t] := List.append_cancel_right hp
  rcases List.append_eq_singleton_iff.mp hpq with ⟨-, hq⟩ | ⟨-, hq⟩
  · exact .inr hq
  · exact .inl hq

end Grammar

/-! ### Errors that blame a token -/

/-- The reason blames the token at the place of the error: something else should stand there,
or nothing.  An integer out of range is not in the wrong place. -/
inductive ParseError.Reason.BlamesToken : ParseError.Reason → Prop where
  | mismatch {expected found : String} :
      expected ≠ "64-bit integer" → BlamesToken (.mismatch expected found)
  | trailing {text : String} : BlamesToken (.trailing text)

namespace Grammar

open Rule

variable {s : Setting} {d : Nat} {u rest : List Token} {last : Token} {e : ParseError}

/-- Only the token that a refusal is about is blamed, and it is shown as it is. -/
theorem Refusal.eq_of_blamesToken {q : List Token} (h : Refusal (.parse e) q)
    (he : e.reason.BlamesToken) :
    ∃ t rest, q = t :: rest ∧ t.kind ≠ .endOfInput ∧ e.pos = t.pos ∧
      ∀ expected found, e.reason = .mismatch expected found → found = t.shown := by
  cases h with
  | @unexpected expected t rest ht =>
    rw [ParseError.unexpected, if_neg ht]
    refine ⟨t, rest, rfl, ht, rfl, ?_⟩
    intro _ _ hreason
    cases hreason
    rfl
  | @leftOver t rest ht =>
    refine ⟨t, rest, rfl, ht, rfl, ?_⟩
    intro _ _ hreason
    cases hreason
  | tooDeep => cases he
  | outOfRange =>
    cases he with
    | mismatch hne => exact absurd rfl hne

/-- An error that blames a token blames the first one that is refused. -/
theorem exists_blamed (hu : Proper u) (hend : last.kind = .endOfInput)
    (h : program s d (u ++ [last]) = (.error (.parse e), rest)) (he : e.reason.BlamesToken) :
    ∃ w t v, u = w ++ t :: v ∧ t.kind ≠ .endOfInput ∧
      Waits s (fun _ => True) (· = .endOfInput) (items s d) w ∧ Refuses (items s d) (w ++ [t]) ∧
      e.pos = t.pos ∧ ∀ expected found, e.reason = .mismatch expected found → found = t.shown := by
  rcases items_refuses_or_waits (s := s) d hu with hrefuses | hwaits
  · obtain ⟨w, t, v, rfl, hw, ht⟩ := exists_first_refused hu hrefuses
    obtain ⟨f, q, hr, hf, hq⟩ := refusal_of_first hw ht (v ++ [last])
    rw [List.append_assoc, program_apply, List.cons_append, bind_of_error hr] at h
    cases h
    obtain ⟨t', rest, rfl, ht', hpos, hshown⟩ := hf.eq_of_blamesToken he
    obtain ⟨rfl, -⟩ := List.cons.inj (hq.resolve_left (List.cons_ne_nil t' rest))
    exact ⟨w, t', v, rfl, ht', hw, ht, hpos, hshown⟩
  · rcases program_end_of_waits hwaits hend with ⟨x, hr⟩ | ⟨expected, hr⟩
    · cases h.symm.trans hr
    · cases h.symm.trans hr
      rw [ParseError.unexpected, if_pos hend] at he
      cases he

/-- An error of stopping too early is where the input ends. -/
theorem pos_of_isIncomplete (hu : Proper u) (hend : last.kind = .endOfInput)
    (h : program s d (u ++ [last]) = (.error (.parse e), rest))
    (he : (Failure.parse e).IsIncomplete) : e.pos = last.pos := by
  rcases items_refuses_or_waits (s := s) d hu with hrefuses | hwaits
  · obtain ⟨f, q, hr, hf⟩ := program_of_refuses hrefuses [last]
    cases h.symm.trans hr
    exact absurd he hf.not_isIncomplete
  · rcases program_end_of_waits hwaits hend with ⟨x, hr⟩ | ⟨expected, hr⟩
    · cases h.symm.trans hr
    · cases h.symm.trans hr
      rw [ParseError.unexpected, if_pos hend]

end Grammar

open Grammar

/-! ### Whole texts -/

variable {source : String} {limit : Int}

/-- The text is cut in three: the second part is the token `t`, the first can be made a program
by text that follows on a new line, and the first two together cannot. -/
structure IsFirstWrong (source : String) (limit : Int) (t : Token) (before after : String) :
    Prop where
  source_eq : source = before ++ String.ofList t.chars ++ after
  pos_eq : t.pos = .following before.toList
  exists_more : ∃ more x, readProgram (before ++ "\n" ++ more) limit = .ok x
  ne_ok : ∀ more x, readProgram (before ++ String.ofList t.chars ++ "\n" ++ more) limit ≠ .ok x

/-- An error that blames a token is at the first token that is wrong, and shows it; an error of
stopping too early is at the end of the text. -/
theorem readProgram_earliest {ts : List Token} {e : ParseError}
    (hts : scanTokens source = .ok ts) (h : readProgram source limit = .error (.parse e)) :
    (e.reason.BlamesToken → ∃ t ∈ ts, ∃ before after, t.kind ≠ .endOfInput ∧ e.pos = t.pos ∧
      IsFirstWrong source limit t before after ∧
      ∀ expected found, e.reason = .mismatch expected found → found = t.shown) ∧
    ((∃ text, e.reason = .incomplete text) → e.pos = .following source.toList) := by
  have hlimit : IsLimit limit := by
    by_contra hnot
    cases h.symm.trans (readProgram_of_not_isLimit hnot hts)
  obtain ⟨w, p, rfl, -⟩ := scanTokens_eq_append hts
  rw [readProgram_eq hlimit hts] at h
  have hprogram : program _ limit.toNat (w ++ [.endAt p]) = (.error (.parse e), _) := Prod.ext h rfl
  constructor
  · intro he
    obtain ⟨w, t, v, rfl, ht, hw, hrefuses, hpos, hshown⟩ :=
      exists_blamed (proper_of_scanTokens hts) rfl hprogram he
    rw [List.append_assoc, List.cons_append] at hts
    obtain ⟨before, after, hsource, hplace, ⟨q, hbefore⟩, q', hafter⟩ :=
      exists_keepsTokens_cut hts ht
    have hfirst : IsFirstWrong source limit t before after :=
      ⟨hsource, hplace, exists_readProgram_of_waits hlimit rfl hbefore hw,
        readProgram_ne_ok_of_refuses hafter hrefuses⟩
    exact ⟨t, by simp, before, after, ht, hpos, hfirst, hshown⟩
  · rintro ⟨text, htext⟩
    have hincomplete : (Failure.parse e).IsIncomplete := ⟨text, e.pos, by rw [← htext]⟩
    rw [pos_of_isIncomplete (proper_of_scanTokens hts) rfl hprogram hincomplete, ← Pos.start_after]
    exact congrArg Token.pos (scanTokens_eq_ok.mp hts).eq_endAt

/-- A lone '&' is wrong where it stands, not the word after it, though the text that ends with
it has no tokens; and a call that is not closed stops after the comment, not before it. -/
theorem readProgram_earliest_stray :
    (∃ text, readProgram "x = 1 & y" 1 = .error (.parse ⟨.trailing text, ⟨1, 7⟩⟩) ∧
      ∃ t before after, ⟨1, 7⟩ = t.pos ∧ IsFirstWrong "x = 1 & y" 1 t before after) ∧
    ∃ text p, readProgram "f(a #" 1 = .error (.parse ⟨.incomplete text, p⟩) ∧
      p = .following "f(a #".toList := by
  have hlimit : IsLimit 1 := by decide
  have hstray : scanTokens "x = 1 & y" = .ok [.word "x" ⟨1, 1⟩, .mark .assign ⟨1, 3⟩,
      .digits "1" ⟨1, 5⟩, .stray '&' ⟨1, 7⟩, .word "y" ⟨1, 9⟩, .endAt ⟨1, 10⟩] :=
    scanTokens_eq_ok.mpr (by decide)
  have hcall : scanTokens "f(a #" = .ok
      [.word "f" ⟨1, 1⟩, .mark .lparen ⟨1, 2⟩, .word "a" ⟨1, 3⟩, .endAt ⟨1, 6⟩] :=
    scanTokens_eq_ok.mpr (by decide)
  have hleft : readProgram "x = 1 & y" 1 = .error (.parse (.leftOver (.stray '&' ⟨1, 7⟩))) :=
    (readProgram_eq hlimit hstray).trans rfl
  have hstop : readProgram "f(a #" 1 = .error (.parse
      ⟨.incomplete "Expected ')' to close call arguments, got end of input", ⟨1, 6⟩⟩) :=
    (readProgram_eq hlimit hcall).trans rfl
  obtain ⟨t, -, before, after, -, hpos, hfirst, -⟩ :=
    (readProgram_earliest hstray hleft).1 .trailing
  exact ⟨⟨_, hleft, t, before, after, hpos, hfirst⟩, _, _, hstop,
    (readProgram_earliest hcall hstop).2 ⟨_, rfl⟩⟩

end GnLang
