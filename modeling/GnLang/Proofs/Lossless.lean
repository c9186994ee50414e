/-
Nothing is lost between a text and its tokens.

`Covers before cs ts` says, without a scanner, that `ts` are the tokens of the characters
`cs` that stand after `before`: a gap, the characters of a token, a gap, and so on to the
end.  The place of a token is counted from what stands before it (`Pos.following`), and its
characters are the longest lexeme there.

* `scanTokens_eq_ok_iff_covers` — the tokens of a text are those that cover it;
* `scanTokens_lossless` — so gaps and tokens make up the text, and the end of the input
  comes once and last.
-/
import GnLang.Proofs.Scan.Spells

namespace GnLang

open Token

/-! ### Places -/

/-- The place after the characters at the start of a text: its line is one more than the
newlines among them, and its column one more than the characters after the last newline. -/
def Pos.following (before : List Char) : Pos :=
  ⟨1 + before.count '\n', 1 + (before.reverse.takeWhile (· != '\n')).length⟩

theorem Pos.following_concat (before : List Char) (c : Char) :
    following (before ++ [c]) = (following before).next c := by
  rw [following, following, next, List.count_append, List.reverse_append, List.reverse_singleton,
    List.singleton_append]
  by_cases hc : c = '\n'
  · subst hc
    simp [Int.add_assoc]
  · simp [hc, Int.add_assoc]

theorem Pos.following_append (before cs : List Char) :
    following (before ++ cs) = (following before).after cs := by
  induction cs generalizing before with
  | nil => rw [List.append_nil, after_nil]
  | cons c cs ih =>
    rw [← List.singleton_append, ← List.append_assoc, ih, following_concat]
    rfl

theorem Pos.start_after (cs : List Char) : start.after cs = following cs :=
  (following_append [] cs).symm

/-! ### Covering a text -/

/-- The tokens of the characters that stand after `before`. -/
inductive Covers : List Char → List Char → List Token → Prop where
  /-- A gap, and then the end of the input. -/
  | last {before g : List Char} :
      IsGap [] g → Covers before g [.endAt (.following (before ++ g))]
  /-- A gap, and then a token. -/
  | token {before g cs : List Char} {t : Token} {ts : List Token} :
      IsGap (t.chars ++ cs) g → t.pos = .following (before ++ g) → t.IsLongest cs →
      Covers (before ++ g ++ t.chars) cs ts →
      Covers before (g ++ (t.chars ++ cs)) (t :: ts)

theorem Scan.Yields.covers {s : Scan} {ts : List Token} (h : s.Yields ts) :
    ∀ before, s.pos = .following before → Covers before s.rest ts := by
  induction h with
  | @last s r t ht hk =>
    intro before hs
    obtain ⟨hg, hend⟩ := token_last ht hk
    rw [hend, hs, ← Pos.following_append]
    exact .last hg
  | @more s r t ts ht hk _ ih =>
    intro before hs
    obtain ⟨g, cs, hrest, hg, hp, hlongest, rfl⟩ := token_more ht hk
    rw [hs, ← Pos.following_append] at hp
    rw [hrest]
    refine .token hg hp hlongest (ih _ ?_)
    rw [hp, ← Pos.following_append]

theorem Covers.yields {before cs : List Char} {ts : List Token} (h : Covers before cs ts) :
    Scan.Yields ⟨.following before, cs⟩ ts := by
  induction h with
  | @last before g hg =>
    rw [Pos.following_append]
    exact Scan.yields_gap hg _
  | @token before g cs t ts hg hp hlongest _ ih =>
    rw [Pos.following_append, ← hp] at ih
    rw [Pos.following_append] at hp
    exact .cons_of_gap hg hp hlongest ih

/-- The tokens of a text are those that cover it. -/
theorem scanTokens_eq_ok_iff_covers {source : String} {ts : List Token} :
    scanTokens source = .ok ts ↔ Covers [] source.toList ts := by
  rw [scanTokens_eq_ok]
  constructor
  · intro h
    exact h.covers [] rfl
  · intro h
    exact h.yields

/-- Gaps and the characters of the tokens make up the text, each token stands at its place
and is the longest lexeme there, and the end of the input comes once and last. -/
theorem scanTokens_lossless {source : String} {ts : List Token}
    (h : scanTokens source = .ok ts) :
    Covers [] source.toList ts ∧
      ∃ w p, ts = w ++ [.endAt p] ∧ ∀ t ∈ w, t.kind ≠ .endOfInput :=
  ⟨scanTokens_eq_ok_iff_covers.mp h, scanTokens_eq_append h⟩

/-- The comment hides a quote, the string goes on over a newline, and '!' is an operator
alone or with the '=' after it, but '&' is none. -/
theorem scanTokens_lossless_operators :
    (∃ ts, scanTokens "a!=b # \"\n!\"x\ny\"&z" = .ok ts) ∧
      Covers [] "a!=b # \"\n!\"x\ny\"&z".toList
        [.word "a" ⟨1, 1⟩, .mark .ne ⟨1, 2⟩, .word "b" ⟨1, 4⟩, .mark .not ⟨2, 1⟩,
          .quoted "x\ny" ⟨2, 2⟩, .stray '&' ⟨3, 3⟩, .word "z" ⟨3, 4⟩, .endAt ⟨3, 5⟩] := by
  have hts : scanTokens "a!=b # \"\n!\"x\ny\"&z" = .ok
      [.word "a" ⟨1, 1⟩, .mark .ne ⟨1, 2⟩, .word "b" ⟨1, 4⟩, .mark .not ⟨2, 1⟩,
        .quoted "x\ny" ⟨2, 2⟩, .stray '&' ⟨3, 3⟩, .word "z" ⟨3, 4⟩, .endAt ⟨3, 5⟩] := by
    rw [scanTokens_eq_ok]
    repeat' first
      | exact .last rfl rfl
      | refine .more rfl (by decide) ?_
  exact ⟨⟨_, hts⟩, (scanTokens_lossless hts).1⟩

end GnLang
