/-
What stands between tokens.

`IsGap rest g` says, without a scanner, that the characters `g` before `rest` are blanks
and comments, each comment with all that stands before the next newline or the end of the
text.

* `Scan.exists_isGap` — what is skipped is a gap, and what is left begins no gap;
* `Scan.token_gap` — and a gap is skipped whole;
* `Scan.token_cases` — so that a token is the longest lexeme after a gap.
-/
import GnLang.Proofs.Scan.Longest

namespace GnLang

/-- Blanks and comments in front of `rest`. -/
inductive IsGap (rest : List Char) : List Char → Prop where
  | nil : IsGap rest []
  | blank {c : Char} {g : List Char} : isBlank c = true → IsGap rest g → IsGap rest (c :: g)
  | comment {body g : List Char} :
      '\n' ∉ body → (∀ c ∈ (g ++ rest).head?, c = '\n') → IsGap rest g →
      IsGap rest ('#' :: (body ++ g))

/-- A text that begins with neither a blank nor a comment. -/
def BeginsNoGap (cs : List Char) : Prop := ∀ c ∈ cs.head?, isBlank c = false ∧ c ≠ '#'

variable {rest g : List Char}

theorem isGap_of_isBlank (h : ∀ c ∈ g, isBlank c = true) : IsGap rest g := by
  induction g with
  | nil => exact .nil
  | cons c g ih =>
    obtain ⟨hc, hg⟩ := List.forall_mem_cons.mp h
    exact .blank hc (ih hg)

/-- A gap stays a gap when the text after it goes on as before, or with a newline. -/
theorem IsGap.of_next {rest' : List Char} (h : IsGap rest g)
    (hnext : ∀ c ∈ rest'.head?, c ∈ rest.head? ∨ c = '\n') : IsGap rest' g := by
  induction h with
  | nil => exact .nil
  | blank hc _ ih => exact .blank hc ih
  | @comment body g hbody hend _ ih =>
    refine .comment hbody (fun c hc => ?_) ih
    cases g with
    | nil =>
      rcases hnext c hc with hold | hnewline
      · exact hend c hold
      · exact hnewline
    | cons d g => exact hend c hc

theorem beginsNoGap_nil : BeginsNoGap [] := fun _ hc => nomatch hc

theorem beginsNoGap_cons {c : Char} {cs : List Char} :
    BeginsNoGap (c :: cs) ↔ isBlank c = false ∧ c ≠ '#' := by
  simp [BeginsNoGap]

theorem Token.IsLongest.beginsNoGap {t : Token} (h : t.IsLongest rest) :
    BeginsNoGap (t.chars ++ rest) := by
  obtain ⟨c, cs, hchars, hblank, hhash, -⟩ := lexeme_of_isLongest h
  rw [hchars]
  exact beginsNoGap_cons.mpr ⟨hblank, hhash⟩

namespace Scan

theorem gapEnd_comment {body : List Char} (hbody : '\n' ∉ body) {ds : List Char}
    (hds : ∀ c ∈ ds.head?, c = '\n') (p : Pos) :
    gapEnd true p (body ++ ds) = gapEnd false (p.after body) ds := by
  induction body generalizing p with
  | nil =>
    -- the newline is a blank: it ends the comment and is skipped on its own
    cases ds with
    | nil => rfl
    | cons c ds =>
      obtain rfl := hds c rfl
      simp [gapEnd, isBlank]
  | cons c body ih =>
    obtain ⟨hc, hbody⟩ := not_or.mp (mt List.mem_cons.mpr hbody)
    have hinside : (c != '\n') = true := bne_iff_ne.mpr (Ne.symm hc)
    rw [List.cons_append, gapEnd, if_pos rfl, hinside, ih hbody, Pos.after_cons]

theorem gapEnd_gap (h : IsGap rest g) (p : Pos) :
    gapEnd false p (g ++ rest) = gapEnd false (p.after g) rest := by
  induction h generalizing p with
  | nil => rfl
  | blank hc _ ih =>
    rw [List.cons_append, gapEnd, if_neg (by decide), if_pos hc, ih, Pos.after_cons]
  | comment hbody hend _ ih =>
    rw [List.cons_append, List.append_assoc, gapEnd, if_neg (by decide), if_neg (by decide),
      if_pos rfl, gapEnd_comment hbody hend, ih, Pos.after_cons, Pos.after_append]

theorem gapEnd_of_beginsNoGap (h : BeginsNoGap rest) (p : Pos) :
    gapEnd false p rest = ⟨p, rest⟩ := by
  cases rest with
  | nil => rfl
  | cons c rest =>
    obtain ⟨hblank, hhash⟩ := beginsNoGap_cons.mp h
    simp [gapEnd, hblank, hhash]

/-- What is skipped before a token is a gap, and what is left begins no gap. -/
theorem exists_isGap (p : Pos) (cs : List Char) :
    ∃ g rest, cs = g ++ rest ∧ gapEnd false p cs = ⟨p.after g, rest⟩ ∧ IsGap rest g ∧
      BeginsNoGap rest := by
  match cs with
  | [] => exact ⟨[], [], rfl, rfl, .nil, beginsNoGap_nil⟩
  | c :: cs =>
    rw [gapEnd, if_neg (by decide)]
    by_cases hblank : isBlank c = true
    · obtain ⟨g, rest, rfl, hend, hg, hrest⟩ := exists_isGap (p.next c) cs
      rw [if_pos hblank]
      exact ⟨c :: g, rest, rfl, hend, .blank hblank hg, hrest⟩
    rw [if_neg hblank]
    by_cases hhash : c = '#'
    · -- the comment is all that stands before the next newline; the rest of the gap follows
      subst hhash
      have hlength := (List.dropWhile_suffix (· != '\n') (l := cs)).length_le
      have hbody : '\n' ∉ cs.takeWhile (· != '\n') := fun h => by simpa using mem_takeWhile _ h
      have hstop : ∀ c ∈ (cs.dropWhile (· != '\n')).head?, c = '\n' := fun c hc => by
        simpa using head?_dropWhile_eq_false c hc
      have hskip := gapEnd_comment hbody hstop (p.next '#')
      obtain ⟨g, rest, hcs, hend, hg, hrest⟩ := exists_isGap
        ((p.next '#').after (cs.takeWhile (· != '\n'))) (cs.dropWhile (· != '\n'))
      rw [List.takeWhile_append_dropWhile] at hskip
      refine ⟨'#' :: (cs.takeWhile (· != '\n') ++ g), rest, ?_, ?_, .comment hbody ?_ hg, hrest⟩
      · rw [List.cons_append, List.append_assoc, ← hcs, List.takeWhile_append_dropWhile]
      · rw [if_pos rfl, hskip, hend, Pos.after_cons, Pos.after_append]
      · rwa [← hcs]
    · rw [if_neg hhash]
      have hbegins : BeginsNoGap (c :: cs) := beginsNoGap_cons.mpr ⟨by simpa using hblank, hhash⟩
      exact ⟨[], c :: cs, rfl, rfl, .nil, hbegins⟩
termination_by cs.length

/-- A gap is skipped whole: the token after it is the one that is found where the gap ends. -/
theorem token_gap (h : IsGap rest g) (p : Pos) :
    token ⟨p, g ++ rest⟩ = token ⟨p.after g, rest⟩ := by
  rw [token, token, pastGap, pastGap, gapEnd_gap h]

/-- The longest lexeme is found where it begins. -/
theorem token_of_isLongest {t : Token} (h : t.IsLongest rest) :
    token ⟨t.pos, t.chars ++ rest⟩ = (.ok t, ⟨t.pos.after t.chars, rest⟩) := by
  have hgap := gapEnd_of_beginsNoGap h.beginsNoGap t.pos
  obtain ⟨c, cs, hchars, -, -, hl⟩ := lexeme_of_isLongest h
  rw [hchars] at hl hgap ⊢
  rw [token, pastGap, hgap, List.cons_append, tokenHere]
  simp only [hl]

/-- What is found is the end of the input, after a gap that goes on to it, or the longest
lexeme after a gap. -/
theorem token_cases {s r : Scan} {t : Token} (h : s.token = (.ok t, r)) :
    (IsGap [] s.rest ∧ t = .endAt (s.pos.after s.rest)) ∨
      ∃ g cs, s.rest = g ++ (t.chars ++ cs) ∧ IsGap (t.chars ++ cs) g ∧
        t.pos = s.pos.after g ∧ t.IsLongest cs ∧ r = ⟨t.pos.after t.chars, cs⟩ := by
  obtain ⟨g, rest, hrest, hend, hg, hbegins⟩ := exists_isGap s.pos s.rest
  rw [token, pastGap, hend, tokenHere] at h
  cases rest with
  | nil =>
    cases h
    rw [hrest, List.append_nil]
    exact .inl ⟨hg, rfl⟩
  | cons c cs =>
    obtain ⟨hblank, hhash⟩ := beginsNoGap_cons.mp hbegins
    dsimp only at h
    cases hl : lexeme c cs with
    | error f =>
      rw [hl] at h
      cases f <;> cases h
    | ok l =>
      rw [hl] at h
      cases h
      obtain ⟨hlongest, hchars⟩ := isLongest_of_lexeme hblank hhash hl (s.pos.after g)
      have htext : l.taken ++ l.rest = c :: cs := lexeme_taken_append_rest hl
      refine .inr ⟨g, l.rest, ?_, ?_, rfl, hlongest, ?_⟩
      · rw [hchars, htext, hrest]
      · rwa [hchars, htext]
      · rw [hchars]

theorem token_last {s r : Scan} {t : Token} (h : s.token = (.ok t, r))
    (ht : t.kind = .endOfInput) : IsGap [] s.rest ∧ t = .endAt (s.pos.after s.rest) := by
  rcases token_cases h with hlast | ⟨g, cs, -, -, -, hlongest, -⟩
  · exact hlast
  · exact absurd ht hlongest.ne_endOfInput

theorem token_more {s r : Scan} {t : Token} (h : s.token = (.ok t, r))
    (ht : t.kind ≠ .endOfInput) :
    ∃ g cs, s.rest = g ++ (t.chars ++ cs) ∧ IsGap (t.chars ++ cs) g ∧ t.pos = s.pos.after g ∧
      t.IsLongest cs ∧ r = ⟨t.pos.after t.chars, cs⟩ := by
  rcases token_cases h with ⟨-, hend⟩ | hmore
  · rw [hend] at ht
    exact absurd rfl ht
  · exact hmore

end Scan

end GnLang
