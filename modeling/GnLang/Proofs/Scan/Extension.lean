/-
Texts that go on after a newline.

A newline belongs to no word, number or operator, and it ends a comment.  So when a text
that has tokens goes on after a newline, these tokens stay what they are, and what follows
is scanned as if it stood alone: `Scan.Yields.newline`, and `keepsTokens_of_scanTokens`
for whole texts.

The other way round, tokens that a text can spell have a text: `exists_spells`.
-/
import Mathlib.Data.List.Forall2
import GnLang.Proofs.Scan.Spells

namespace GnLang

namespace Scan

/-! ### Tokens -/

/-- A text that goes on after a newline begins as it did, or with the newline. -/
theorem head?_append_newline {cs ds : List Char} :
    ∀ c ∈ (cs ++ '\n' :: ds).head?, c ∈ cs.head? ∨ c = '\n' := by
  intro c hc
  cases cs with
  | nil => exact .inr (Option.some.inj hc).symm
  | cons d cs => exact .inl hc

/-- A token before the end of the text does not depend on what follows a newline. -/
theorem token_newline {s r : Scan} {t : Token} (h : s.token = (.ok t, r))
    (ht : t.kind ≠ .endOfInput) (ds : List Char) :
    token ⟨s.pos, s.rest ++ '\n' :: ds⟩ = (.ok t, ⟨r.pos, r.rest ++ '\n' :: ds⟩) := by
  obtain ⟨g, cs, hrest, hg, hp, hlongest, rfl⟩ := token_more h ht
  have hgap : IsGap (t.chars ++ cs ++ '\n' :: ds) g := hg.of_next head?_append_newline
  have hlonger : t.IsLongest (cs ++ '\n' :: ds) := by
    refine hlongest.of_next (fun c hc => ?_) (by simp)
    exact (head?_append_newline c hc).imp_right fun hnewline => .inl (by rw [hnewline]; rfl)
  rw [hrest, List.append_assoc, token_gap hgap, ← hp, List.append_assoc]
  exact token_of_isLongest hlonger

/-- A gap goes on over a newline, and what follows the newline is scanned alone. -/
theorem token_gap_newline {rest g : List Char} (hg : IsGap rest g) (p : Pos)
    (ds : List Char) : token ⟨p, g ++ '\n' :: ds⟩ = token ⟨(p.after g).next '\n', ds⟩ := by
  have hgap : IsGap ('\n' :: ds) g := hg.of_next fun c hc => .inr (Option.some.inj hc).symm
  rw [token_gap hgap]
  exact token_gap (.blank rfl .nil) _

/-- The tokens that are found stay what they are when more text follows a newline. -/
theorem Reaches.newline {s r : Scan} {w : List Token} (h : Reaches s w r) (ds : List Char) :
    Reaches ⟨s.pos, s.rest ++ '\n' :: ds⟩ w ⟨r.pos, r.rest ++ '\n' :: ds⟩ := by
  induction h with
  | here => exact .here
  | more ht hk _ ih => exact .more (token_newline ht hk ds) hk ih

/-- A text ends at the same place, however much of it has been read. -/
theorem Reaches.after_rest {s r : Scan} {w : List Token} (h : Reaches s w r) :
    r.pos.after r.rest = s.pos.after s.rest := by
  induction h with
  | here => rfl
  | more ht hk _ ih =>
    obtain ⟨g, cs, hrest, -, hp, -, rfl⟩ := token_more ht hk
    rw [ih, hrest, Pos.after_append, Pos.after_append, ← hp]

/-- The end of the input is placed after all characters. -/
theorem Yields.eq_endAt {s : Scan} {w : List Token} {e : Token} (h : s.Yields (w ++ [e])) :
    e = .endAt (s.pos.after s.rest) := by
  obtain ⟨w', r, r', e', hw, hend, he, heq⟩ := h.exists_reaches
  obtain ⟨-, hlast⟩ := List.append_inj' heq rfl
  cases hlast
  rw [(token_last hend he).2, hw.after_rest]

/-- So do all tokens of a text, and what follows the newline is scanned alone. -/
theorem Yields.newline {s : Scan} {w : List Token} {e : Token} (h : s.Yields (w ++ [e]))
    (ds : List Char) (us : List Token) :
    Yields ⟨s.pos, s.rest ++ '\n' :: ds⟩ us ↔
      ∃ v, us = w ++ v ∧ Yields ⟨(s.pos.after s.rest).next '\n', ds⟩ v := by
  obtain ⟨w', r, r', e', hw, hend, he, heq⟩ := h.exists_reaches
  obtain ⟨rfl, -⟩ := List.append_inj' heq rfl
  refine (hw.newline ds).yields_iff.trans ?_
  have hnext : token ⟨r.pos, r.rest ++ '\n' :: ds⟩ =
      token ⟨(s.pos.after s.rest).next '\n', ds⟩ := by
    rw [token_gap_newline (token_last hend he).1, hw.after_rest]
  have halone : ∀ v, Yields ⟨r.pos, r.rest ++ '\n' :: ds⟩ v ↔
      Yields ⟨(s.pos.after s.rest).next '\n', ds⟩ v :=
    fun v => ⟨fun hv => hv.of_token_eq hnext.symm, fun hv => hv.of_token_eq hnext⟩
  simp only [halone]

/-- Wherever a text stands, it has the same tokens.  If its new place is related to its old
one, in a way that characters do not change, then so are the places of the tokens. -/
theorem Yields.exists_move {R : Pos → Pos → Prop}
    (hnext : ∀ {p q : Pos} (c : Char), R p q → R (p.next c) (q.next c)) {s : Scan}
    {ts : List Token} (h : s.Yields ts) :
    ∀ {q}, R s.pos q → ∃ us, Yields ⟨q, s.rest⟩ us ∧
      List.Forall₂ (fun t u => t.SameLexeme u ∧ R t.pos u.pos) ts us := by
  have hafter : ∀ {p q} (cs : List Char), R p q → R (p.after cs) (q.after cs) := by
    intro p q cs hpq
    induction cs generalizing p q with
    | nil => exact hpq
    | cons c cs ih => exact ih (hnext c hpq)
  induction h with
  | @last s r t ht hk =>
    intro q hq
    obtain ⟨hg, rfl⟩ := token_last ht hk
    exact ⟨_, yields_gap hg q, .cons ⟨⟨rfl, rfl⟩, hafter _ hq⟩ .nil⟩
  | @more s r t ts ht hk _ ih =>
    intro q hq
    obtain ⟨g, cs, hrest, hg, hp, hlongest, rfl⟩ := token_more ht hk
    let u : Token := ⟨t.kind, t.text, q.after g⟩
    have hsame : t.SameLexeme u := ⟨rfl, rfl⟩
    have hplace : R t.pos u.pos := by
      rw [hp]
      exact hafter g hq
    obtain ⟨us, hus, hall⟩ := ih (hafter t.chars hplace)
    rw [hrest]
    exact ⟨u :: us, .cons_of_gap (t := u) hg rfl (hlongest.move hsame) hus,
      .cons ⟨hsame, hplace⟩ hall⟩

/-! ### Texts of given tokens -/

theorem exists_spells_token {t : Token} (ht : t.Spellable) (p : Pos) :
    ∃ cs u, Spells Clear p cs [u] ∧ t.SameLexeme u := by
  cases ht with
  | mark m q =>
    exact ⟨m.chars, .mark m p, spells_mark fun _ hnext _ => hnext.notEquals, rfl, rfl⟩
  | @word name q h => exact ⟨name.toList, .word name p, spells_word h, rfl, rfl⟩
  | quoted q h => exact ⟨_, .quoted _ p, spells_quoted h, rfl, rfl⟩
  | @digits text n q h => exact ⟨text.toList, .digits text p, spells_digits h, rfl, rfl⟩

/-- Tokens have a text wherever it begins: they are spelled with a blank after each. -/
theorem exists_spells {c : List Token} (hc : ∀ t ∈ c, t.Spellable) :
    ∀ p, ∃ cs w, Spells (fun _ => True) p cs w ∧ List.Forall₂ Token.SameLexeme c w := by
  induction c with
  | nil => exact fun p => ⟨[], [], spells_nil, .nil⟩
  | cons t c ih =>
    intro p
    obtain ⟨ht, hc⟩ := List.forall_mem_cons.mp hc
    obtain ⟨cs, u, hu, hsame⟩ := exists_spells_token ht p
    have hblank : Spells (fun _ => True) p (cs ++ [' ']) [u] := hu.before_blank (by decide)
    obtain ⟨ds, w, hw, hsames⟩ := ih hc (p.after (cs ++ [' ']))
    exact ⟨_, _, hblank.append hw fun _ _ => trivial, .cons hsame hsames⟩

end Scan

/-! ### Whole texts -/

/-- Whatever follows the text on a new line, the tokens are `w` and then those of what
follows, scanned from `q` on. -/
def KeepsTokens (source : String) (w : List Token) (q : Pos) : Prop :=
  ∀ more us, scanTokens (source ++ "\n" ++ more) = .ok us ↔
    ∃ v, us = w ++ v ∧ Scan.Yields ⟨q, more.toList⟩ v

theorem ofString_newline (source more : String) :
    Scan.ofString (source ++ "\n" ++ more) = ⟨.start, source.toList ++ '\n' :: more.toList⟩ := by
  rw [Scan.ofString, String.toList_append, String.toList_append, List.append_assoc]
  rfl

/-- The tokens of a text, the end of the input apart, are kept, and what follows stands at
the start of the line after it. -/
theorem keepsTokens_of_scanTokens {source : String} {w : List Token} {e : Token}
    (h : scanTokens source = .ok (w ++ [e])) :
    KeepsTokens source w ((Pos.start.after source.toList).next '\n') := by
  intro more us
  rw [scanTokens_eq_ok, ofString_newline]
  exact (scanTokens_eq_ok.mp h).newline more.toList us

theorem exists_keepsTokens {source : String} {ts : List Token}
    (h : scanTokens source = .ok ts) :
    ∃ w e q, ts = w ++ [e] ∧ e.kind = .endOfInput ∧ KeepsTokens source w q := by
  obtain ⟨w, p, rfl, -⟩ := scanTokens_eq_append h
  exact ⟨w, .endAt p, _, rfl, rfl, keepsTokens_of_scanTokens h⟩

end GnLang
