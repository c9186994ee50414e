/-
The order of tokens.

Reading a character leads to a later place, so the tokens of a text are found at later and
later places.

* `Pos.lt_iff`, `Pos.lt_after` — the order, and that reading on leads forward;
* `sorted_of_scanTokens` — no token of a text stands where another one does, and their
  places are in order.
-/
import GnLang.Proofs.Scan.Tokens
import Mathlib.Order.Basic

namespace GnLang

namespace Pos

/-- Places are in the order of their lines, and on one line in that of their columns. -/
instance : PartialOrder Pos where
  le p q := p.line < q.line ∨ p.line = q.line ∧ p.col ≤ q.col
  lt p q := p.line < q.line ∨ p.line = q.line ∧ p.col < q.col
  le_refl _ := .inr ⟨rfl, Int.le_refl _⟩
  le_trans p q r hpq hqr := by omega
  lt_iff_le_not_ge p q := by omega
  le_antisymm := by
    rintro ⟨l, c⟩ ⟨l', c'⟩ h h'
    simp only [mk.injEq] at h h' ⊢
    omega

theorem lt_iff {p q : Pos} : p < q ↔ p.line < q.line ∨ p.line = q.line ∧ p.col < q.col :=
  Iff.rfl

theorem lt_next (p : Pos) (c : Char) : p < p.next c := by
  rw [lt_iff, next]
  split
  · exact .inl (Int.lt_succ p.line)
  · exact .inr ⟨rfl, Int.lt_succ p.col⟩

theorem le_after (p : Pos) (cs : List Char) : p ≤ p.after cs := by
  induction cs generalizing p with
  | nil => exact le_rfl
  | cons c cs ih => exact (p.lt_next c).le.trans (ih (p.next c))

theorem lt_after (p : Pos) {cs : List Char} (h : cs ≠ []) : p < p.after cs := by
  cases cs with
  | nil => exact absurd rfl h
  | cons c cs => exact (p.lt_next c).trans_le ((p.next c).le_after cs)

end Pos

theorem Token.IsLongest.chars_ne_nil {t : Token} {rest : List Char} (h : t.IsLongest rest) :
    t.chars ≠ [] := by
  obtain ⟨c, cs, hchars, -⟩ := lexeme_of_isLongest h
  rw [hchars]
  exact List.cons_ne_nil c cs

/-- The tokens from `s` on stand at `s` or later, and every one of them later than those
before it. -/
theorem Scan.Yields.sorted {s : Scan} {ts : List Token} (h : s.Yields ts) :
    (∀ t ∈ ts, s.pos ≤ t.pos) ∧ ts.Pairwise (·.pos < ·.pos) := by
  induction h with
  | @last s r t ht hk =>
    obtain ⟨-, rfl⟩ := token_last ht hk
    exact ⟨List.forall_mem_singleton.mpr (s.pos.le_after s.rest), List.pairwise_singleton _ _⟩
  | @more s r t ts ht hk _ ih =>
    obtain ⟨hle, hsorted⟩ := ih
    obtain ⟨g, cs, -, -, hpos, hlongest, rfl⟩ := token_more ht hk
    have hstart : s.pos ≤ t.pos := hpos ▸ s.pos.le_after g
    have hlater : ∀ u ∈ ts, t.pos < u.pos := fun u hu =>
      (t.pos.lt_after hlongest.chars_ne_nil).trans_le (hle u hu)
    exact ⟨List.forall_mem_cons.mpr ⟨hstart, fun u hu => hstart.trans (hlater u hu).le⟩,
      List.pairwise_cons.mpr ⟨hlater, hsorted⟩⟩

/-- Every token of a text stands later than those before it. -/
theorem sorted_of_scanTokens {source : String} {ts : List Token}
    (h : scanTokens source = .ok ts) : ts.Pairwise (·.pos < ·.pos) :=
  (scanTokens_eq_ok.mp h).sorted.2

end GnLang
