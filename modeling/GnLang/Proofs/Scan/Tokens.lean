/-
The tokens of a text, one after the other.

`Scan.Yields s ts` says that the tokens from `s` to the end of the input are `ts`.  It is
the relation that scanning computes (`Scan.tokensOnto_eq_ok`), without the list of the
tokens that have already been found.

* `Scan.Reaches s w r` — the tokens `w` are found from `s` on, and `r` is left;
* `Scan.Yields.eq_append` — the end of the input comes last and only there;
* `Scan.Yields.isLongest` — any other token is the longest lexeme where it stands;
* `scanTokens_eq_ok` — the tokens of a whole text.
-/
import GnLang.Proofs.Except
import GnLang.Proofs.Scan.Gap

namespace GnLang

namespace Scan

/-- The tokens from `s` to the end of the input. -/
inductive Yields : Scan → List Token → Prop where
  | last {s r : Scan} {t : Token} :
      s.token = (.ok t, r) → t.kind = .endOfInput → Yields s [t]
  | more {s r : Scan} {t : Token} {ts : List Token} :
      s.token = (.ok t, r) → t.kind ≠ .endOfInput → Yields r ts → Yields s (t :: ts)

theorem yields_cons {s : Scan} {t : Token} {ts : List Token} :
    s.Yields (t :: ts) ↔ s.token.1 = .ok t ∧
      if t.kind = .endOfInput then ts = [] else s.token.2.Yields ts := by
  constructor
  · intro h
    cases h with
    | last h ht =>
      rw [h, if_pos ht]
      exact ⟨rfl, rfl⟩
    | more h ht hts =>
      rw [h, if_neg ht]
      exact ⟨rfl, hts⟩
  · rintro ⟨h, hts⟩
    by_cases ht : t.kind = .endOfInput
    · rw [if_pos ht] at hts
      subst hts
      exact .last (Prod.ext h rfl) ht
    · rw [if_neg ht] at hts
      exact .more (Prod.ext h rfl) ht hts

/-- Tokens are compared with those of a text one by one. -/
instance decidableYields : (ts : List Token) → (s : Scan) → Decidable (s.Yields ts)
  | [], _ => .isFalse fun h => by cases h
  | _ :: ts, s =>
    have := decidableYields ts s.token.2
    decidable_of_iff' _ yields_cons

theorem tokensOnto_of_last {s r : Scan} {t : Token} (h : s.token = (.ok t, r))
    (ht : t.kind = .endOfInput) (done : List Token) :
    s.tokensOnto done = .ok (t :: done).reverse := by
  rw [tokensOnto]
  split
  · rename_i h'
    rw [h] at h'
    cases h'
  · rename_i h'
    rw [h] at h'
    cases h'
    rw [dif_pos ht]

theorem tokensOnto_of_more {s r : Scan} {t : Token} (h : s.token = (.ok t, r))
    (ht : t.kind ≠ .endOfInput) (done : List Token) :
    s.tokensOnto done = r.tokensOnto (t :: done) := by
  rw [tokensOnto]
  split
  · rename_i h'
    rw [h] at h'
    cases h'
  · rename_i h'
    rw [h] at h'
    cases h'
    rw [dif_neg ht]

theorem Yields.tokensOnto {s : Scan} {ts : List Token} (h : s.Yields ts) :
    ∀ done, s.tokensOnto done = .ok (done.reverse ++ ts) := by
  induction h with
  | last ht hk =>
    intro done
    rw [tokensOnto_of_last ht hk, List.reverse_cons]
  | more ht hk _ ih =>
    intro done
    rw [tokensOnto_of_more ht hk, ih, List.reverse_cons, List.append_assoc,
      List.singleton_append]

theorem tokensOnto_eq_ok {s : Scan} {done us : List Token} :
    s.tokensOnto done = .ok us ↔ ∃ ts, s.Yields ts ∧ us = done.reverse ++ ts := by
  constructor
  · intro h
    fun_induction Scan.tokensOnto done s with
    | case1 done s e r he => cases h
    | case2 done s t r ht hk =>
      cases h
      exact ⟨[t], .last ht hk, List.reverse_cons⟩
    | case3 done s t r ht hk ih =>
      obtain ⟨ts, hts, rfl⟩ := ih h
      exact ⟨t :: ts, .more ht hk hts, by simp⟩
  · rintro ⟨ts, hts, rfl⟩
    exact hts.tokensOnto done

theorem Yields.eq_append {s : Scan} {ts : List Token} (h : s.Yields ts) :
    ∃ w p, ts = w ++ [.endAt p] ∧ ∀ t ∈ w, t.kind ≠ .endOfInput := by
  induction h with
  | @last s r t ht hk =>
    obtain ⟨-, rfl⟩ := token_last ht hk
    exact ⟨[], _, rfl, by simp⟩
  | @more s r t ts _ hk _ ih =>
    obtain ⟨w, p, rfl, hw⟩ := ih
    exact ⟨t :: w, p, rfl, List.forall_mem_cons.mpr ⟨hk, hw⟩⟩

/-- Where a token is found, it is the first, and the others are those of what is left. -/
theorem yields_iff_of_more {s r : Scan} {t : Token} (h : s.token = (.ok t, r))
    (ht : t.kind ≠ .endOfInput) {us : List Token} :
    s.Yields us ↔ ∃ v, us = t :: v ∧ r.Yields v := by
  constructor
  · intro hus
    cases hus with
    | last h' hk =>
      cases h.symm.trans h'
      exact absurd hk ht
    | more h' _ hv =>
      cases h.symm.trans h'
      exact ⟨_, rfl, hv⟩
  · rintro ⟨v, rfl, hv⟩
    exact .more h ht hv

theorem not_yields_of_error {s r : Scan} {e : ParseError} (h : s.token = (.error e, r))
    (us : List Token) : ¬ s.Yields us := by
  intro hus
  cases hus with
  | last h' _ | more h' _ _ => cases h.symm.trans h'

/-- From `s` on the tokens `w` are found, none of them the end of the input, and `r` is
left. -/
inductive Reaches : Scan → List Token → Scan → Prop where
  | here {s : Scan} : Reaches s [] s
  | more {s s' r : Scan} {t : Token} {w : List Token} :
      s.token = (.ok t, s') → t.kind ≠ .endOfInput → Reaches s' w r → Reaches s (t :: w) r

/-- The tokens that are found are the first of all, and the others are those of what is
left. -/
theorem Reaches.yields_iff {s r : Scan} {w us : List Token} (h : Reaches s w r) :
    s.Yields us ↔ ∃ v, us = w ++ v ∧ r.Yields v := by
  induction h generalizing us with
  | here => simp
  | more ht hk _ ih =>
    rw [yields_iff_of_more ht hk]
    simp only [ih]
    constructor
    · rintro ⟨_, rfl, v, rfl, hv⟩
      exact ⟨v, rfl, hv⟩
    · rintro ⟨v, rfl, hv⟩
      exact ⟨_, rfl, v, rfl, hv⟩

theorem Yields.exists_reaches {s : Scan} {ts : List Token} (h : s.Yields ts) :
    ∃ w r r' e, Reaches s w r ∧ r.token = (.ok e, r') ∧ e.kind = .endOfInput ∧
      ts = w ++ [e] := by
  induction h with
  | @last s r t ht hk => exact ⟨[], s, r, t, .here, ht, hk, rfl⟩
  | @more s r t ts ht hk _ ih =>
    obtain ⟨w, r', r'', e, hw, he, hend, rfl⟩ := ih
    exact ⟨t :: w, r', r'', e, .more ht hk hw, he, hend, rfl⟩

/-- Scanning depends only on what is left after blanks and comments. -/
theorem Yields.of_token_eq {s s' : Scan} {ts : List Token} (h : s.Yields ts)
    (heq : s'.token = s.token) : s'.Yields ts := by
  cases h with
  | last ht hk => exact .last (heq.trans ht) hk
  | more ht hk hts => exact .more (heq.trans ht) hk hts

/-- A token is scanned where its characters are the longest lexeme. -/
theorem Yields.cons_of_isLongest {t : Token} {rest : List Char} {ts : List Token}
    (ht : t.IsLongest rest) (h : Yields ⟨t.pos.after t.chars, rest⟩ ts) :
    Yields ⟨t.pos, t.chars ++ rest⟩ (t :: ts) :=
  .more (token_of_isLongest ht) ht.ne_endOfInput h

/-- A gap up to the end yields the end of the input. -/
theorem yields_gap {g : List Char} (hg : IsGap [] g) (p : Pos) :
    Yields ⟨p, g⟩ [.endAt (p.after g)] := by
  have hend : Yields ⟨p.after g, []⟩ [.endAt (p.after g)] := .last rfl rfl
  have := hend.of_token_eq (token_gap hg p)
  rwa [List.append_nil] at this

/-- Where nothing is left, nothing but the end of the input is found. -/
theorem Yields.eq_endAt_of_nil {p : Pos} {ts : List Token} (h : Yields ⟨p, []⟩ ts) :
    ts = [.endAt p] := by
  have hend : Yields ⟨p, []⟩ [.endAt p] := .last rfl rfl
  exact Except.ok.inj ((h.tokensOnto []).symm.trans (hend.tokensOnto []))

/-- A gap and then the longest lexeme yield its token. -/
theorem Yields.cons_of_gap {p : Pos} {g cs : List Char} {t : Token} {ts : List Token}
    (hg : IsGap (t.chars ++ cs) g) (hp : t.pos = p.after g) (ht : t.IsLongest cs)
    (h : Yields ⟨t.pos.after t.chars, cs⟩ ts) :
    Yields ⟨p, g ++ (t.chars ++ cs)⟩ (t :: ts) := by
  refine (Yields.cons_of_isLongest ht h).of_token_eq ?_
  rw [hp]
  exact token_gap hg p

theorem Yields.isLongest {s : Scan} {ts : List Token} (h : s.Yields ts) :
    ∀ t ∈ ts, t.kind ≠ .endOfInput → ∃ rest, t.IsLongest rest := by
  induction h with
  | last _ hk => exact List.forall_mem_singleton.mpr fun hne => absurd hk hne
  | more ht hk _ ih =>
    obtain ⟨_, cs, _, _, _, hlongest, _⟩ := token_more ht hk
    exact List.forall_mem_cons.mpr ⟨fun _ => ⟨cs, hlongest⟩, ih⟩

theorem Yields.isGenuine {s : Scan} {ts : List Token} (h : s.Yields ts) :
    ∀ t ∈ ts, t.IsGenuine := by
  intro t ht
  by_cases hk : t.kind = .endOfInput
  · rw [Token.IsGenuine, hk]
    trivial
  · obtain ⟨rest, hlongest⟩ := h.isLongest t ht hk
    exact hlongest.isGenuine

end Scan

theorem scanTokens_eq_ok {source : String} {ts : List Token} :
    scanTokens source = .ok ts ↔ (Scan.ofString source).Yields ts := by
  rw [scanTokens, Scan.tokensOnto_eq_ok]
  constructor
  · rintro ⟨ts, hts, rfl⟩
    exact hts
  · intro h
    exact ⟨ts, h, rfl⟩

theorem scanTokens_eq_append {source : String} {ts : List Token}
    (h : scanTokens source = .ok ts) :
    ∃ w p, ts = w ++ [.endAt p] ∧ ∀ t ∈ w, t.kind ≠ .endOfInput :=
  (scanTokens_eq_ok.mp h).eq_append

theorem isGenuine_of_scanTokens {source : String} {ts : List Token}
    (h : scanTokens source = .ok ts) : ∀ t ∈ ts, t.IsGenuine :=
  (scanTokens_eq_ok.mp h).isGenuine

end GnLang
