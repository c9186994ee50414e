/-
Beginnings of a text.

A text can be cut before and after any of its tokens.  Nothing that stands after the cut had
a part in what the tokens before it are, so they stay what they are when other text follows
the cut on a new line: `exists_keepsTokens_cut`.
-/
import GnLang.Proofs.Lossless
import GnLang.Proofs.Scan.Extension

namespace GnLang

namespace Scan

variable {s r : Scan} {w v : List Token} {t : Token}

/-- The first tokens of a text are reached, and the others are those of what is left. -/
theorem Yields.exists_reaches_of_append (h : s.Yields (w ++ v)) (hv : v ≠ []) :
    ∃ r, Reaches s w r ∧ r.Yields v := by
  induction w generalizing s with
  | nil => exact ⟨s, .here, h⟩
  | cons t w ih =>
    generalize hts : t :: w ++ v = ts at h
    cases h with
    | last _ _ =>
      obtain ⟨-, hnil⟩ := List.cons.inj hts
      exact absurd (List.append_eq_nil_iff.mp hnil).2 hv
    | more ht hk hrest =>
      obtain ⟨rfl, rfl⟩ := List.cons.inj hts
      obtain ⟨r, hw, hr⟩ := ih hrest
      exact ⟨r, .more ht hk hw, hr⟩

theorem Reaches.concat {r' : Scan} (h : Reaches s w r) (ht : r.token = (.ok t, r'))
    (hk : t.kind ≠ .endOfInput) : Reaches s (w ++ [t]) r' := by
  induction h with
  | here => exact .more ht hk .here
  | more ht' hk' _ ih => exact .more ht' hk' (ih ht)

/-- The characters up to what is left are scanned to the same tokens before any other text
that goes on in the same way or after a newline. -/
theorem Reaches.exists_taken (h : Reaches s w r) :
    ∃ cs, s.rest = cs ++ r.rest ∧ r.pos = s.pos.after cs ∧
      ∀ ds, ds ≠ [] → (∀ c ∈ ds.head?, c ∈ r.rest.head? ∨ c = '\n') →
        Reaches ⟨s.pos, cs ++ ds⟩ w ⟨r.pos, ds⟩ := by
  induction h with
  | here => exact ⟨[], rfl, rfl, fun ds _ _ => .here⟩
  | @more s _ r t w ht hk _ ih =>
    obtain ⟨g, cs, hrest, hg, hp, hlongest, rfl⟩ := token_more ht hk
    obtain ⟨cs', rfl, hpos, hother⟩ := ih
    refine ⟨g ++ (t.chars ++ cs'), by simp [hrest], ?_, fun ds hne hnext => ?_⟩
    · rw [hpos, hp, Pos.after_append, Pos.after_append]
    -- what follows the token goes on as it did, or with the newline
    have hhead : ∀ c ∈ (cs' ++ ds).head?, c ∈ (cs' ++ r.rest).head? ∨ c = '\n' := by
      cases cs' with
      | nil => exact hnext
      | cons d cs' => exact fun c hc => .inl hc
    have hlonger : t.IsLongest (cs' ++ ds) := by
      refine hlongest.of_next (fun c hc => ?_) (by simp [hne])
      exact (hhead c hc).imp_right fun hnewline => .inl (by rw [hnewline]; rfl)
    obtain ⟨d, chars, hchars, -⟩ := lexeme_of_isLongest hlongest
    have hgap : IsGap (t.chars ++ (cs' ++ ds)) g := hg.of_next fun c hc => .inl (by
      rwa [hchars] at hc ⊢)
    refine .more ?_ hk (hother ds hne hnext)
    have htoken := token_of_isLongest hlonger
    rw [List.append_assoc, List.append_assoc, token_gap hgap, ← hp]
    exact htoken

end Scan

open Scan

variable {cs g rest : List Char} {p : Pos} {w v : List Token} {t : Token}

/-- If tokens are reached before a gap that goes on over a newline, the text up to the gap
keeps them. -/
theorem keepsTokens_of_reaches (hg : IsGap rest g)
    (h : ∀ ds, Reaches ⟨.start, cs ++ (g ++ '\n' :: ds)⟩ w ⟨p, g ++ '\n' :: ds⟩) :
    KeepsTokens (String.ofList (cs ++ g)) w ((p.after g).next '\n') := by
  intro more us
  have halone := token_gap_newline hg p more.toList
  rw [scanTokens_eq_ok, ofString_newline, String.toList_ofList, List.append_assoc,
    (h more.toList).yields_iff]
  exact exists_congr fun v => and_congr_right fun _ =>
    ⟨fun hv => hv.of_token_eq halone.symm, fun hv => hv.of_token_eq halone⟩

/-- A text can be cut before and after a token.  What stands before it keeps the tokens before
it, and what ends with it keeps that token, too. -/
theorem exists_keepsTokens_cut {source : String} (h : scanTokens source = .ok (w ++ t :: v))
    (ht : t.kind ≠ .endOfInput) :
    ∃ before after, source = before ++ String.ofList t.chars ++ after ∧
      t.pos = .following before.toList ∧ (∃ q, KeepsTokens before w q) ∧
      ∃ q, KeepsTokens (before ++ String.ofList t.chars) (w ++ [t]) q := by
  obtain ⟨r, hw, hr⟩ := (scanTokens_eq_ok.mp h).exists_reaches_of_append (List.cons_ne_nil t v)
  cases hr with
  | last _ hk => exact absurd hk ht
  | @more _ r' _ _ htoken _ _ =>
    obtain ⟨g, rest, hrest, hg, hp, -, rfl⟩ := token_more htoken ht
    obtain ⟨cs, hsource, hpos, hbefore⟩ := hw.exists_taken
    obtain ⟨cs', hsource', -, hafter⟩ := (hw.concat htoken ht).exists_taken
    have hwhole : source.toList = cs ++ g ++ t.chars ++ rest := by
      rw [show source.toList = cs ++ r.rest from hsource, hrest]
      simp only [List.append_assoc]
    obtain rfl : cs' = cs ++ g ++ t.chars :=
      List.append_cancel_right (hsource'.symm.trans hwhole)
    refine ⟨String.ofList (cs ++ g), String.ofList rest, ?_, ?_, ?_, ?_⟩
    · rw [← String.ofList_append, ← String.ofList_append, ← hwhole, String.ofList_toList]
    · rw [String.toList_ofList, hp, hpos, ← Pos.after_append]
      exact Pos.start_after (cs ++ g)
    · refine ⟨_, keepsTokens_of_reaches hg fun ds => hbefore _ (by simp) fun c hc => ?_⟩
      rw [hrest]
      cases g with
      | nil => exact .inr (Option.some.inj hc).symm
      | cons d g => exact .inl hc
    · have hnil : IsGap [] [] := .nil
      have hkeeps : KeepsTokens (String.ofList (cs ++ g ++ t.chars ++ [])) (w ++ [t]) _ :=
        keepsTokens_of_reaches hnil fun ds =>
          hafter ('\n' :: ds) (by simp) fun c hc => .inr (Option.some.inj hc).symm
      rw [List.append_nil, String.ofList_append] at hkeeps
      exact ⟨_, hkeeps⟩

end GnLang
