/-
What a rule makes of tokens when it is not known what follows them.

A rule that is given the tokens `u`, with more to follow, comes to one of three ends, and
which one it is does not depend on what follows:

* it succeeds, and leaves an end of `u` unread;
* it fails for a reason that nothing to follow can remove (`Refuses`);
* it uses up all of `u` and waits for more (`Waits`): if the input ends there, the rule
  succeeds or says that the input stopped too early, and there are tokens after which it
  succeeds.

`Decided` says that one of the three is the case.  It holds of one rule after another if
the second rule, given nothing, waits for more (`Decided.bind`), and of a repetition if it
holds of its rounds (`foresees_repeats`).
-/
import GnLang.Proofs.Grammar.Progress
import GnLang.Proofs.Scan.Tokens

namespace GnLang

/-- The failure says that the input stopped too early. -/
def Failure.IsIncomplete (f : Failure) : Prop := ∃ text p, f = .parse ⟨.incomplete text, p⟩

namespace Grammar

open Rule Token

variable {α β : Type}

/-- Tokens of a text, the end of the input apart. -/
def Proper (u : List Token) : Prop := ∀ t ∈ u, t.kind ≠ .endOfInput ∧ t.IsGenuine

theorem Proper.of_suffix {q u : List Token} (h : Proper u) (hq : q <:+ u) : Proper q :=
  fun t ht => h t (hq.subset ht)

theorem proper_of_scanTokens {source : String} {w : List Token} {e : Token}
    (hts : scanTokens source = .ok (w ++ [e])) : Proper w := by
  obtain ⟨w', p, heq, hw⟩ := scanTokens_eq_append hts
  obtain ⟨rfl, -⟩ := List.append_inj' heq rfl
  exact fun t ht => ⟨hw t ht, isGenuine_of_scanTokens hts t (List.mem_append_left _ ht)⟩

/-- The failures that nothing to follow can remove, with the tokens that were left: a token
stands where no token of its kind can, or what has been read is too deep or too large. -/
inductive Refusal : Failure → List Token → Prop where
  | unexpected {expected : String} {t : Token} {rest : List Token} :
      t.kind ≠ .endOfInput → Refusal (.parse (.unexpected expected t)) (t :: rest)
  | leftOver {t : Token} {rest : List Token} :
      t.kind ≠ .endOfInput → Refusal (.parse (.leftOver t)) (t :: rest)
  | tooDeep {n : Int} {p : Pos} {rest : List Token} :
      Refusal (.parse ⟨.tooDeep n, p⟩) rest
  | outOfRange {text : String} {p : Pos} {rest : List Token} :
      Refusal (.parse ⟨.mismatch "64-bit integer" text, p⟩) rest

theorem Refusal.not_isIncomplete {f : Failure} {q : List Token} (h : Refusal f q) :
    ¬ f.IsIncomplete := by
  rintro ⟨text, p, hf⟩
  cases h with
  | unexpected ht => simp [ParseError.unexpected, ht] at hf
  | leftOver ht => simp [ParseError.leftOver] at hf
  | tooDeep => simp at hf
  | outOfRange => simp at hf

/-- Whatever follows the tokens, the rule refuses them. -/
def Refuses (r : Rule α) (u : List Token) : Prop :=
  ∀ v, ∃ f q, r (u ++ v) = (.error f, q ++ v) ∧ Refusal f q

variable (s : Setting)

/-- The rule uses up the tokens, and what it answers is left to what follows.  It can be
completed before any token of a kind in `stops`, and then the next token is of a kind in
`starts`. -/
structure Waits (starts stops : TokenKind → Prop) (r : Rule α) (u : List Token) : Prop where
  consumes : ∀ v, (r (u ++ v)).2 <:+ v
  atEnd : ∀ e : Token, e.kind = .endOfInput →
    (∃ x, r (u ++ [e]) = (.ok x, [e])) ∨
      ∃ expected, r (u ++ [e]) = (.error (.parse (.unexpected expected e)), [e])
  completes : ∃ c x, (∀ t ∈ c, t.Spellable) ∧ ∀ v, stops (front s v).kind →
    starts (front s (c ++ v)).kind ∧ r (u ++ (c ++ v)) = (.ok x, v)

/-- What the rule makes of the tokens is decided, or is up to what follows them. -/
inductive Decided (stops : TokenKind → Prop) (r : Rule α) (u : List Token) : Prop where
  | settles {x : α} {q : List Token} :
      q <:+ u → (∀ v, r (u ++ v) = (.ok x, q ++ v)) → Decided stops r u
  | refuses : Refuses r u → Decided stops r u
  | waits : Waits s (fun _ => True) stops r u → Decided stops r u

/-- What the rule makes of any tokens of a text is decided, or is up to what follows. -/
def Foresees (stops : TokenKind → Prop) (r : Rule α) : Prop :=
  ∀ u, Proper u → Decided s stops r u

/-- The rule can answer `x`, provided that anything may follow it. -/
def CanAnswer (stops : TokenKind → Prop) (r : Rule α) (x : α) : Prop :=
  ∀ k, stops k → ∃ ts rest, r ts = (.ok x, rest)

variable {s} {S T P Q : TokenKind → Prop} {r r' : Rule α} {f : α → Rule β} {u u' : List Token}

/-! ### Weaker statements -/

theorem Waits.mono (h : Waits s S P r u) (hS : ∀ k, S k → T k) (hQ : ∀ k, Q k → P k) :
    Waits s T Q r u := by
  refine ⟨h.consumes, h.atEnd, ?_⟩
  obtain ⟨c, x, hc, hx⟩ := h.completes
  refine ⟨c, x, hc, fun v hv => ?_⟩
  obtain ⟨hstarts, hr⟩ := hx v (hQ _ hv)
  exact ⟨hS _ hstarts, hr⟩

theorem Waits.decided (h : Waits s S P r u) : Decided s P r u :=
  .waits (h.mono (fun _ _ => trivial) fun _ => id)

theorem Decided.mono (h : Decided s P r u) (hQ : ∀ k, Q k → P k) : Decided s Q r u := by
  cases h with
  | settles hq hr => exact .settles hq hr
  | refuses hr => exact .refuses hr
  | waits hr => exact .waits (hr.mono (fun _ => id) hQ)

/-- A rule that goes on as another does on an end of the tokens is decided with it. -/
theorem Decided.of_eq (hu : u' <:+ u) (heq : ∀ v, r (u ++ v) = r' (u' ++ v))
    (h : Decided s P r' u') : Decided s P r u := by
  cases h with
  | settles hq hr => exact .settles (hq.trans hu) fun v => (heq v).trans (hr v)
  | refuses hr =>
    refine .refuses fun v => ?_
    rw [heq v]
    exact hr v
  | waits hr =>
    refine .waits ⟨fun v => ?_, fun e he => ?_, ?_⟩
    · rw [heq v]
      exact hr.consumes v
    · rw [heq [e]]
      exact hr.atEnd e he
    · obtain ⟨c, x, hc, hx⟩ := hr.completes
      refine ⟨c, x, hc, fun v hv => ?_⟩
      rw [heq (c ++ v)]
      exact hx v hv

/-! ### Chains of steps -/

theorem waits_pure (x : α) (h : ∀ k, P k → S k) : Waits s S P (pure x : Rule α) [] := by
  refine ⟨fun v => List.suffix_refl v, fun e _ => .inl ⟨x, rfl⟩, [], x, List.forall_mem_nil _, ?_⟩
  intro v hv
  exact ⟨h _ hv, rfl⟩

theorem decided_pure (x : α) (u : List Token) : Decided s P (pure x : Rule α) u :=
  .settles (List.suffix_refl u) fun _ => rfl

theorem Waits.bind (hr : Waits s S P r u) (hf : ∀ x, CanAnswer P r x → Waits s T Q (f x) [])
    (hT : ∀ k, T k → P k) : Waits s S Q (r >>= f) u := by
  refine ⟨fun v => ?_, fun e he => ?_, ?_⟩
  · have hmid := hr.consumes v
    rw [bind_apply]
    rcases h : r (u ++ v) with ⟨_ | x, mid⟩ <;> rw [h] at hmid
    · exact hmid
    · exact ((hf x fun _ _ => ⟨_, _, h⟩).consumes mid).trans hmid
  · rcases hr.atEnd e he with ⟨x, h⟩ | ⟨expected, h⟩
    · rw [bind_of_ok h]
      exact (hf x fun _ _ => ⟨_, _, h⟩).atEnd e he
    · exact .inr ⟨expected, bind_of_error h⟩
  · -- what completes the first rule, and then what completes the second
    obtain ⟨c, x, hc, h⟩ := hr.completes
    have hx : CanAnswer P r x := fun k hk => ⟨_, _, (h [⟨k, "", .unknown⟩] hk).2⟩
    obtain ⟨c', y, hc', h'⟩ := (hf x hx).completes
    refine ⟨c ++ c', y, List.forall_mem_append.mpr ⟨hc, hc'⟩, fun v hv => ?_⟩
    obtain ⟨hstarts', hy⟩ := h' v hv
    obtain ⟨hstarts, hok⟩ := h (c' ++ v) (hT _ hstarts')
    rw [List.append_assoc]
    exact ⟨hstarts, (bind_of_ok hok).trans hy⟩

/-- One rule after another is decided.  If the first settles, the second has the tokens it
left; if the first waits, so must the second, which has none. -/
theorem Decided.bind (hr : Decided s P r u)
    (hf : ∀ x t q, t :: q <:+ u → (∀ v, r (u ++ v) = (.ok x, t :: q ++ v)) →
      Decided s Q (f x) (t :: q))
    (hnil : ∀ x, CanAnswer P r x → Waits s T Q (f x) []) (hT : ∀ k, T k → P k) :
    Decided s Q (r >>= f) u := by
  cases hr with
  | @settles x q hq hr =>
    refine Decided.of_eq hq (fun v => bind_of_ok (hr v)) ?_
    -- with nothing left to the second rule, it is up to what follows after all
    cases q with
    | nil => exact (hnil x fun _ _ => ⟨_, _, hr []⟩).decided
    | cons t q => exact hf x t q hq hr
  | refuses hr =>
    refine .refuses fun v => ?_
    obtain ⟨e, q, h, he⟩ := hr v
    exact ⟨e, q, bind_of_error h, he⟩
  | waits hr => exact .waits (hr.bind hnil hT)

theorem Foresees.bind (hr : Foresees s P r)
    (hf : ∀ x t q, CanAnswer P r x → Proper (t :: q) → Decided s Q (f x) (t :: q))
    (hnil : ∀ x, CanAnswer P r x → Waits s T Q (f x) []) (hT : ∀ k, T k → P k) :
    Foresees s Q (r >>= f) := by
  intro u hu
  refine (hr u hu).bind (fun x t q hq h => ?_) hnil hT
  exact hf x t q (fun _ _ => ⟨_, _, h []⟩) (hu.of_suffix hq)

theorem Decided.map (hr : Decided s P r u) (g : α → β) :
    Decided s P (do let x ← r; pure (g x)) u :=
  hr.bind (T := P) (fun x t q _ _ => decided_pure (g x) (t :: q))
    (fun x _ => waits_pure (g x) fun _ => id) fun _ => id

/-! ### Steps that can fail -/

theorem decided_failAt {t : Token} (ht : t.kind ≠ .endOfInput) (expected : String)
    (u : List Token) : Decided s P (failAt s expected : Rule α) (t :: u) :=
  .refuses fun _ => ⟨_, t :: u, rfl, .unexpected ht⟩

/-- A token of the right kind is taken, and any other is refused. -/
theorem decided_expect {k : TokenKind} {t : Token} (ht : t.kind ≠ .endOfInput)
    (expected : String) {f : Token → Rule β} (h : t.kind = k → Decided s P (f t) u) :
    Decided s P (expect s [k] expected >>= f) (t :: u) := by
  by_cases hk : t.kind = k
  · refine (h hk).of_eq (List.suffix_cons t u) fun v => ?_
    subst hk
    exact bind_of_ok (expect_cons s ht expected (u ++ v))
  · have herror : ∀ ts, expect s [k] expected (t :: ts) =
        (.error (.parse (.unexpected expected t)), t :: ts) := by
      intro ts
      rw [expect_apply, front_cons, if_neg hk, failAt_apply, front_cons]
    exact .refuses fun v => ⟨_, t :: u, bind_of_error (herror (u ++ v)), .unexpected ht⟩

theorem waits_expect {t : Token} (ht : t.kind ≠ .endOfInput) (hspell : t.Spellable)
    (expected : String) :
    Waits s (· = t.kind) (fun _ => True) (expect s [t.kind] expected) [] := by
  refine ⟨advances_expect s _ _, fun e he => .inr ⟨expected, ?_⟩, [t], t, ?_, ?_⟩
  · rw [List.nil_append, expect_apply, front_cons, if_neg (by rw [he]; exact ht.symm),
      failAt_apply, front_cons]
  · exact List.forall_mem_singleton.mpr hspell
  · intro v _
    exact ⟨rfl, expect_cons s ht expected v⟩

/-- What a mark closes is decided up to and including the mark. -/
theorem Foresees.closed {m : Symbol} (hr : Foresees s P r) (hm : P (.symbol m))
    (expected : String) :
    Foresees s (fun _ => True)
      (do let x ← r; let _ ← expect s [.symbol m] expected; pure x) := by
  have hmark := waits_expect (s := s) (t := mark m .unknown) (by simp) (.mark m _) expected
  refine hr.bind (T := (· = .symbol m)) (fun x t q _ hq => ?_) (fun x _ => ?_) ?_
  · exact decided_expect (hq t List.mem_cons_self).1 expected fun _ => decided_pure x q
  · exact hmark.bind (fun _ _ => waits_pure (S := fun _ => True) x fun _ => id) fun _ _ => trivial
  · rintro k rfl
    exact hm

theorem foresees_enter {inside : Option Inside} {body : Inside → Rule α}
    (h : ∀ rules, inside = some rules → Foresees s P (body rules)) :
    Foresees s P (enter s inside body) := by
  intro u hu
  cases inside with
  | none => exact .refuses fun v => ⟨_, u, rfl, .tooDeep⟩
  | some rules => exact h rules rfl u hu

/-! ### Repetitions -/

/-- A repetition is decided if its rounds are and it waits for more where it is given
nothing.  The induction is on the number of tokens, which every round lessens. -/
theorem foresees_repeats {ρ σ : Type} {round : σ → Rule (ρ ⊕ σ)} {close : σ → ρ}
    (hconsuming : Consuming round)
    (hround : ∀ a t u, Proper (t :: u) → Decided s P (round a) (t :: u))
    (hnil : ∀ a, Waits s Q Q (repeats round close a) []) (hQ : ∀ k, Q k → P k) (a : σ) :
    Foresees s Q (repeats round close a) := by
  intro u
  induction hn : u.length using Nat.strongRecOn generalizing a u with
  | ind n ih =>
    intro hu
    subst hn
    cases u with
    | nil => exact (hnil a).decided
    | cons t u =>
      rw [repeats_eq hconsuming]
      refine (hround a t u hu).bind (T := Q) (fun x t' q hq hr => ?_) (fun x _ => ?_) hQ
      · cases x with
        | inl x => exact decided_pure x (t' :: q)
        | inr b =>
          -- the round answers alike whatever follows, so it has consumed one of these tokens
          have hlt := hconsuming a b (t :: u) (t' :: q) (by simpa using hr [])
          exact ih _ hlt b (t' :: q) rfl (hu.of_suffix hq)
      · cases x with
        | inl x => exact waits_pure x fun _ => id
        | inr b => exact hnil b

end Grammar

end GnLang
