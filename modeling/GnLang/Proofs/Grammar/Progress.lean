/-
How far a rule gets.

A rule only ever takes tokens off the front, whether it succeeds or fails, and every
rule but the lists of statements takes at least one when it succeeds:

* `Rule.Advances` — what is left is an end of what there was;
* `Rule.Progresses` — and a success leaves less than there was;
* `Rule.Begins` — and the token that a phrase begins with is taken even by a failure.

All are put together from the parts of a rule.  `progresses_insideOf` gathers them for
the rules of every nesting, which makes `repeats_eq` apply to all repetitions.
-/
import GnLang.Proofs.Grammar.Repetition

namespace GnLang

namespace Rule

variable {α β ρ σ : Type}

/-- Whatever the rule answers, it leaves an end of the tokens it was given. -/
def Advances (r : Rule α) : Prop := ∀ ts, (r ts).2 <:+ ts

/-- The rule advances, and when it succeeds it leaves fewer tokens than it was given. -/
structure Progresses (r : Rule α) : Prop where
  advances : r.Advances
  consumes : ∀ x ts rest, r ts = (.ok x, rest) → rest.length < ts.length

/-- The rule progresses, and a token of kind `k` that it begins with is taken even if what
follows makes the rule fail. -/
structure Begins (k : TokenKind) (r : Rule α) : Prop where
  progresses : r.Progresses
  takes : ∀ t ts, t.kind = k → (r (t :: ts)).2 <:+ ts

theorem advances_pure (x : α) : (pure x : Rule α).Advances :=
  fun ts => List.suffix_refl ts

theorem advances_fail (e : Failure) : (fail e : Rule α).Advances :=
  fun ts => List.suffix_refl ts

theorem advances_answer (a : Except Failure α) : (answer a).Advances :=
  fun ts => List.suffix_refl ts

theorem advances_ofExcept (a : Except Node.Fault α) : (ofExcept a).Advances :=
  advances_answer _

theorem Advances.bind {r : Rule α} {f : α → Rule β} (hr : r.Advances)
    (hf : ∀ x, (f x).Advances) : (r >>= f).Advances := by
  intro ts
  rw [bind_apply]
  have hmid := hr ts
  rcases h : r ts with ⟨_ | x, mid⟩
  · rw [h] at hmid
    exact hmid
  · rw [h] at hmid
    exact (hf x mid).trans hmid

theorem Advances.ite {c : Prop} [Decidable c] {r r' : Rule α} (hr : r.Advances)
    (hr' : r'.Advances) : (if c then r else r').Advances := by
  split
  · exact hr
  · exact hr'

theorem Advances.length_le {r : Rule α} (h : r.Advances) {ts rest : List Token}
    {a : Except Failure α} (hr : r ts = (a, rest)) : rest.length ≤ ts.length := by
  have := (h ts).length_le
  rwa [hr] at this

theorem Progresses.bind {r : Rule α} {f : α → Rule β} (hr : r.Progresses)
    (hf : ∀ x, (f x).Advances) : (r >>= f).Progresses := by
  refine ⟨hr.advances.bind hf, ?_⟩
  intro y ts rest h
  obtain ⟨x, mid, hx, hy⟩ := bind_eq_ok.mp h
  exact Nat.lt_of_le_of_lt ((hf x).length_le hy) (hr.consumes x ts mid hx)

theorem Begins.bind {k : TokenKind} {r : Rule α} {f : α → Rule β} (hr : r.Begins k)
    (hf : ∀ x, (f x).Advances) : (r >>= f).Begins k := by
  refine ⟨hr.progresses.bind hf, fun t ts ht => ?_⟩
  have hmid := hr.takes t ts ht
  rw [bind_apply]
  rcases h : r (t :: ts) with ⟨_ | x, mid⟩ <;> rw [h] at hmid
  · exact hmid
  · exact (hf x mid).trans hmid

/-- It does not matter which part of a rule consumes the token. -/
theorem Advances.bind_progresses {r : Rule α} {f : α → Rule β} (hr : r.Advances)
    (hf : ∀ x, (f x).Progresses) : (r >>= f).Progresses := by
  refine ⟨hr.bind fun x => (hf x).advances, ?_⟩
  intro y ts rest h
  obtain ⟨x, mid, hx, hy⟩ := bind_eq_ok.mp h
  exact Nat.lt_of_lt_of_le ((hf x).consumes y mid rest hy) (hr.length_le hx)

theorem Progresses.ite {c : Prop} [Decidable c] {r r' : Rule α} (hr : r.Progresses)
    (hr' : r'.Progresses) : (if c then r else r').Progresses := by
  split
  · exact hr
  · exact hr'

theorem progresses_fail (e : Failure) : (fail e : Rule α).Progresses :=
  ⟨advances_fail e, fun _ _ _ h => absurd h fail_ne_ok⟩

theorem Advances.repeatOnto {round : σ → Rule (ρ ⊕ σ)} {close : σ → ρ}
    (h : ∀ a, (round a).Advances) {rounds : List Token} :
    ∀ a, (repeatOnto round close rounds a).Advances := by
  induction rounds with
  | nil =>
    intro a
    refine (h a).bind fun x => ?_
    cases x with
    | inl x => exact advances_pure x
    | inr b => exact advances_pure (close b)
  | cons _ rounds ih =>
    intro a
    refine (h a).bind fun x => ?_
    cases x with
    | inl x => exact advances_pure x
    | inr b => exact ih b

theorem Advances.repeats {round : σ → Rule (ρ ⊕ σ)} {close : σ → ρ}
    (h : ∀ a, (round a).Advances) (a : σ) : (repeats round close a).Advances :=
  fun ts => Advances.repeatOnto h a ts

end Rule

namespace Grammar

open Rule

variable (s : Setting) {α β : Type}

/-! ### Steps -/

theorem advances_takeFront : (takeFront s).Advances := by
  intro ts
  by_cases ht : (front s ts).kind = .endOfInput
  · simp [takeFront, ht]
  · simpa [takeFront, ht] using List.tail_suffix ts

theorem advances_skip : (skip s).Advances :=
  (advances_takeFront s).bind fun _ => advances_pure ()

theorem advances_failAt (expected : String) : (failAt s expected : Rule α).Advances :=
  fun ts => List.suffix_refl ts

theorem advances_look : (look s).Advances := fun ts => List.suffix_refl ts

theorem advances_follower : follower.Advances := fun ts => List.suffix_refl ts

theorem advances_isAt (kinds : List TokenKind) : (isAt s kinds).Advances :=
  fun ts => List.suffix_refl ts

theorem advances_expect (kinds : List TokenKind) (expected : String) :
    (expect s kinds expected).Advances :=
  (advances_isAt s kinds).bind fun _ =>
    (advances_takeFront s).ite (advances_failAt s expected)

theorem progresses_expect {k : TokenKind} (hk : k ≠ .endOfInput) (expected : String) :
    (expect s [k] expected).Progresses := by
  refine ⟨advances_expect s [k] expected, ?_⟩
  intro t ts rest h
  obtain ⟨rfl, -⟩ := (expect_eq_ok s hk).mp h
  simp

/-- A rule begins with the token that its first step expects. -/
theorem begins_expect_bind {k : TokenKind} (hk : k ≠ .endOfInput) (expected : String)
    {f : Token → Rule α} (hf : ∀ t, (f t).Advances) :
    (expect s [k] expected >>= f).Begins k := by
  refine ⟨(progresses_expect s hk expected).bind hf, ?_⟩
  rintro t ts rfl
  rw [bind_of_ok (expect_cons s hk expected ts)]
  exact hf t ts

theorem progresses_failAt (expected : String) :
    (failAt s expected : Rule α).Progresses :=
  ⟨advances_failAt s expected, fun _ _ _ h => absurd h (failAt_ne_ok s)⟩

theorem advances_enter {inside : Option Inside} {body : Inside → Rule α}
    (h : ∀ rules, inside = some rules → (body rules).Advances) :
    (enter s inside body).Advances := by
  cases inside with
  | none => exact (advances_look s).bind fun _ => advances_fail _
  | some rules => exact h rules rfl

theorem progresses_enter {inside : Option Inside} {body : Inside → Rule α}
    (h : ∀ rules, inside = some rules → (body rules).Progresses) :
    (enter s inside body).Progresses := by
  cases inside with
  | none => exact (advances_look s).bind_progresses fun _ => progresses_fail _
  | some rules => exact h rules rfl

/-! ### Rounds -/

theorem advances_elementRound {item : Rule Node} (h : item.Advances) (done : List Node) :
    (elementRound s item done).Advances := by
  refine (advances_isAt s _).bind fun _ => (advances_pure _).ite ?_
  refine (advances_isAt s _).bind fun _ => (advances_failAt s _).ite ?_
  refine h.bind fun x => (advances_isAt s _).bind fun _ => ?_
  exact ((advances_skip s).bind fun _ => advances_pure _).ite (advances_pure _)

theorem advances_argumentRound {item : Rule Node} (h : item.Advances) (done : List Node) :
    (argumentRound s item done).Advances := by
  refine (advances_isAt s _).bind fun _ => (advances_pure _).ite ?_
  refine h.bind fun x => (advances_isAt s _).bind fun _ => ?_
  exact ((advances_skip s).bind fun _ => advances_pure _).ite (advances_pure _)

theorem advances_chainRound {operand : Rule Node} (h : operand.Advances) (left : Node) :
    (chainRound s operand left).Advances := by
  refine (advances_look s).bind fun t => Advances.ite ?_ (advances_pure _)
  refine (advances_skip s).bind fun _ => h.bind fun right => ?_
  exact (advances_ofExcept _).bind fun _ => advances_pure _

theorem advances_statementRound {statement : Rule Node} (h : statement.Advances)
    (done : List Node) : (statementRound s statement done).Advances := by
  refine (advances_isAt s _).bind fun _ => Advances.ite ?_ (advances_pure _)
  exact h.bind fun x => advances_pure _

theorem consuming_elementRound {item : Rule Node} (h : item.Progresses) :
    Consuming (elementRound s item) := by
  intro done b ts rest hr
  rcases elementRound_eq_ok.mp hr with ⟨-, hinl, -⟩ | ⟨-, -, x, mid, hx, -, rfl⟩
  · cases hinl
  · exact Nat.lt_of_le_of_lt (afterComma_suffix s mid).length_le (h.consumes x ts mid hx)

theorem consuming_argumentRound {item : Rule Node} (h : item.Progresses) :
    Consuming (argumentRound s item) := by
  intro done b ts rest hr
  rcases argumentRound_eq_ok.mp hr with
    ⟨-, hinl, -⟩ | ⟨-, x, mid, hx, ⟨-, -, rfl⟩ | ⟨-, hinl, -⟩⟩
  -- only the round that has read a comma goes on
  · cases hinl
  · exact Nat.lt_of_le_of_lt (List.tail_suffix mid).length_le (h.consumes x ts mid hx)
  · cases hinl

theorem consuming_chainRound {operand : Rule Node} (h : operand.Progresses) :
    Consuming (chainRound s operand) := by
  intro left b ts rest hr
  rcases chainRound_eq_ok.mp hr with ⟨-, hinl, -⟩ | ⟨-, right, x, hright, -, -⟩
  · cases hinl
  · exact Nat.lt_of_lt_of_le (h.consumes right ts.tail rest hright)
      (List.tail_suffix ts).length_le

theorem consuming_statementRound {statement : Rule Node} (h : statement.Progresses) :
    Consuming (statementRound s statement) := by
  intro done b ts rest hr
  rcases statementRound_eq_ok.mp hr with ⟨-, hinl, -⟩ | ⟨-, x, hx, -⟩
  · cases hinl
  · exact h.consumes x ts rest hx

/-! ### Rules -/

theorem begins_identifier : (identifier s).Begins .ident :=
  begins_expect_bind s (by simp) _ fun _ => advances_pure _

theorem begins_string : (string s).Begins .string :=
  begins_expect_bind s (by simp) _ fun _ => advances_pure _

theorem begins_scopeAccess : (scopeAccess s).Begins .ident := by
  refine begins_expect_bind s (by simp) _ fun _ => ?_
  refine (advances_expect s _ _).bind fun _ => ?_
  exact (advances_expect s _ _).bind fun _ => advances_pure _

theorem progresses_unsigned (negative : Bool) (p : Pos) :
    (unsigned s negative p).Progresses :=
  (progresses_expect s (by simp) _).bind fun _ => advances_answer _

theorem progresses_integer : (integer s).Progresses := by
  rw [integer_eq]
  refine (advances_look s).bind_progresses fun start => ?_
  refine (advances_isAt s _).bind_progresses fun _ => Progresses.ite ?_ ?_
  · exact (advances_skip s).bind_progresses fun _ => progresses_unsigned s true start.pos
  · exact progresses_unsigned s false start.pos

/-! ### Nesting -/

/-- What the rules for the inside of a nesting must satisfy for those around it. -/
structure InsideProgresses (rules : Inside) : Prop where
  unary : rules.unary.Progresses
  expression : rules.expression.Progresses
  statements : rules.statements.Advances

section

variable {inside : Option Inside} (h : ∀ rules, inside = some rules → InsideProgresses rules)

include h

theorem begins_bracketedList : (bracketedList s inside).Begins (.symbol .lbrack) := by
  rw [bracketedList_eq]
  refine begins_expect_bind s (by simp) _ fun _ => ?_
  refine (advances_enter s fun rules hr => ?_).bind fun _ => advances_pure _
  refine (Advances.repeats (advances_elementRound s (h rules hr).expression.advances) _).bind
    fun _ => ?_
  exact (advances_expect s _ _).bind fun _ => advances_pure _

theorem begins_block : (block s inside).Begins (.symbol .lbrace) := by
  refine begins_expect_bind s (by simp) _ fun _ => ?_
  refine (advances_enter s fun rules hr => ?_).bind fun _ => advances_pure _
  refine (h rules hr).statements.bind fun _ => ?_
  exact (advances_expect s _ _).bind fun _ => advances_pure _

theorem begins_call : (call s inside).Begins .ident := by
  rw [call_eq]
  refine begins_expect_bind s (by simp) _ fun name => ?_
  refine (advances_expect s _ _).bind fun opening => ?_
  refine Advances.bind (advances_enter s fun rules hr => ?_) fun args => ?_
  · refine (Advances.repeats
      (advances_argumentRound s (h rules hr).expression.advances) _).bind fun _ => ?_
    exact (advances_expect s _ _).bind fun _ => advances_pure _
  · refine (advances_isAt s _).bind fun _ => Advances.ite ?_ (advances_pure _)
    exact (begins_block s h).progresses.advances.bind fun _ => advances_pure _

theorem begins_arrayAccess : (arrayAccess s inside).Begins .ident := by
  refine begins_expect_bind s (by simp) _ fun _ => ?_
  refine (advances_expect s _ _).bind fun _ => ?_
  refine (advances_enter s fun rules hr => ?_).bind fun _ => advances_pure _
  refine (h rules hr).expression.advances.bind fun _ => ?_
  exact (advances_expect s _ _).bind fun _ => advances_pure _

theorem begins_parenthesized : (parenthesized s inside).Begins (.symbol .lparen) := by
  refine begins_expect_bind s (by simp) _ fun _ => advances_enter s fun rules hr => ?_
  refine (h rules hr).expression.advances.bind fun _ => ?_
  exact (advances_expect s _ _).bind fun _ => advances_pure _

theorem progresses_primary : (primary s inside).Progresses := by
  refine (advances_look s).bind_progresses fun t => ?_
  split
  · exact (begins_bracketedList s h).progresses
  · exact (begins_string s).progresses
  · refine advances_follower.bind_progresses fun k => ?_
    split
    · exact (begins_call s h).progresses
    · exact (begins_arrayAccess s h).progresses
    · exact (begins_scopeAccess s).progresses
    · exact (begins_identifier s).progresses
  · exact (begins_parenthesized s h).progresses
  · exact progresses_integer s
  · exact progresses_integer s
  · exact progresses_failAt s _

theorem progresses_unary : (unary s inside).Progresses := by
  refine (advances_look s).bind_progresses fun t => Progresses.ite ?_ (progresses_primary s h)
  -- a skip at the end of the tokens consumes nothing, so the operand has to
  refine (advances_skip s).bind_progresses fun _ => ?_
  refine (progresses_enter s fun rules hr => ?_).bind fun x => advances_ofExcept _
  exact (h rules hr).unary

theorem progresses_expression : (expression s inside).Progresses := by
  rw [expression_eq]
  refine (progresses_unary s h).bind fun left => Advances.repeats ?_ left
  exact advances_chainRound s (progresses_unary s h).advances

theorem begins_target : (target s inside).Begins .ident := by
  refine ⟨?_, fun t ts ht => ?_⟩
  · refine (advances_isAt s _).bind_progresses fun _ => Progresses.ite ?_ (progresses_failAt s _)
    refine advances_follower.bind_progresses fun k => ?_
    split
    · exact (begins_arrayAccess s h).progresses
    · exact (begins_scopeAccess s).progresses
    · exact (begins_identifier s).progresses
  · -- the word has only been looked at; each of the three rules takes it
    rw [target, isAt_bind, run_ite, front_cons, if_pos (decide_eq_true ht), follower_bind]
    generalize secondKind (t :: ts) = k
    split
    · exact (begins_arrayAccess s h).takes t ts ht
    · exact (begins_scopeAccess s).takes t ts ht
    · exact (begins_identifier s).takes t ts ht

theorem begins_assignment : (assignment s inside).Begins .ident := by
  refine (begins_target s h).bind fun left => (advances_look s).bind fun t => ?_
  refine Advances.ite ?_ (advances_failAt s _)
  refine (advances_skip s).bind fun _ => ?_
  exact (progresses_expression s h).advances.bind fun value => advances_ofExcept _

theorem begins_statement : (statement s inside).Begins .ident := by
  refine ⟨?_, fun t ts ht => ?_⟩
  · refine (advances_isAt s _).bind_progresses fun _ => ?_
    refine advances_follower.bind_progresses fun _ => ?_
    exact (begins_call s h).progresses.ite (begins_assignment s h).progresses
  · rw [statement, isAt_bind, follower_bind, run_ite]
    split
    · exact (begins_call s h).takes t ts ht
    · exact (begins_assignment s h).takes t ts ht

theorem advances_statements : (statements s inside).Advances := by
  rw [statements_eq]
  exact Advances.repeats (advances_statementRound s (begins_statement s h).progresses.advances) _

end

/-- The rules of every nesting progress: those for one nesting more are made of those for
one nesting less. -/
theorem progresses_insideOf (d : Nat) {rules : Inside} (hr : insideOf s d = some rules) :
    InsideProgresses rules := by
  induction d generalizing rules with
  | zero => cases hr
  | succ d ih =>
    cases hr
    exact ⟨progresses_unary s fun _ => ih, progresses_expression s fun _ => ih,
      advances_statements s fun _ => ih⟩

/-! ### Repetitions at a depth -/

/-- The items of a list literal, with `d` nestings to open. -/
def elementsAt (d : Nat) : List Node → Rule (List Node) :=
  repeats (elementRound s (expression s (insideOf s d))) List.reverse

/-- The arguments of a call, with `d` nestings to open. -/
def argumentsAt (d : Nat) : List Node → Rule (List Node) :=
  repeats (argumentRound s (expression s (insideOf s d))) List.reverse

/-- Operators and operands, with `d` nestings to open. -/
def chainAt (d : Nat) : Node → Rule Node :=
  repeats (chainRound s (unary s (insideOf s d))) id

/-- Statements, with `d` nestings to open. -/
def statementsAt (d : Nat) : List Node → Rule (List Node) :=
  repeats (statementRound s (statement s (insideOf s d))) List.reverse

theorem elementsAt_eq (d : Nat) (done : List Node) : elementsAt s d done =
    elementRound s (expression s (insideOf s d)) done >>= Sum.elim pure (elementsAt s d) :=
  repeats_eq (consuming_elementRound s
    (progresses_expression s fun _ => progresses_insideOf s d)) done

theorem argumentsAt_eq (d : Nat) (done : List Node) : argumentsAt s d done =
    argumentRound s (expression s (insideOf s d)) done >>= Sum.elim pure (argumentsAt s d) :=
  repeats_eq (consuming_argumentRound s
    (progresses_expression s fun _ => progresses_insideOf s d)) done

theorem chainAt_eq (d : Nat) (left : Node) : chainAt s d left =
    chainRound s (unary s (insideOf s d)) left >>= Sum.elim pure (chainAt s d) :=
  repeats_eq (consuming_chainRound s
    (progresses_unary s fun _ => progresses_insideOf s d)) left

theorem statementsAt_eq (d : Nat) (done : List Node) : statementsAt s d done =
    statementRound s (statement s (insideOf s d)) done >>= Sum.elim pure (statementsAt s d) :=
  repeats_eq (consuming_statementRound s
    (begins_statement s fun _ => progresses_insideOf s d).progresses) done

end Grammar

end GnLang
