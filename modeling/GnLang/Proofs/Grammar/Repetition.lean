/-
Repetitions without their rounds.

The repetitions of the grammar count their rounds by a list of tokens, so that they end
whatever is repeated.  When every round that goes on consumes a token the count does not
matter, and a repetition is the iteration of one round:

* `Rule.repeats_eq` — a repetition is a round, and then, if the round did not end it, the
  repetition of what the round handed on;
* `elements_remaining`, `arguments_remaining`, `chain_remaining`, `repeated_remaining` —
  the repetitions of the grammar as iterations of `elementRound`, `argumentRound`,
  `chainRound` and `statementRound`.
-/
import GnLang.Proofs.Grammar.Run

namespace GnLang

namespace Rule

variable {ρ σ : Type}

/-- Runs `round` on `a` and then on whatever it hands on, at most once more for each of
the tokens `rounds`; `close` makes a result of what is handed on at the very end. -/
def repeatOnto (round : σ → Rule (ρ ⊕ σ)) (close : σ → ρ) : List Token → σ → Rule ρ
  | [], a => do
    match ← round a with
    | .inl x => pure x
    | .inr b => pure (close b)
  | _ :: rounds, a => do
    match ← round a with
    | .inl x => pure x
    | .inr b => repeatOnto round close rounds b

/-- The iteration of `round` from `a` on, with as many rounds as there are tokens. -/
def repeats (round : σ → Rule (ρ ⊕ σ)) (close : σ → ρ) (a : σ) : Rule ρ := do
  repeatOnto round close (← remaining) a

/-- A round that goes on has consumed a token. -/
def Consuming (round : σ → Rule (ρ ⊕ σ)) : Prop :=
  ∀ a b ts rest, round a ts = (.ok (.inr b), rest) → rest.length < ts.length

variable {round : σ → Rule (ρ ⊕ σ)} {close : σ → ρ}

theorem repeats_apply (a : σ) (ts : List Token) :
    repeats round close a ts = repeatOnto round close ts a ts := rfl

/-- Spare rounds change nothing.  The induction is on the rounds, both lists of which
lose one for each token that a round consumes. -/
theorem repeatOnto_rounds (h : Consuming round) (rounds : List Token) :
    ∀ (rounds' : List Token) {ts : List Token} (a : σ), ts.length ≤ rounds.length →
      ts.length ≤ rounds'.length →
      repeatOnto round close rounds a ts = repeatOnto round close rounds' a ts := by
  induction rounds with
  | nil =>
    intro rounds' ts a hts _
    obtain rfl : ts = [] := List.length_eq_zero_iff.mp (Nat.le_zero.mp hts)
    -- no token is left to consume, so the first round is the last
    cases rounds' with
    | nil => rfl
    | cons _ rounds' =>
      rw [repeatOnto, repeatOnto, bind_apply, bind_apply]
      rcases hr : round a [] with ⟨_ | x | b, mid⟩
      · rfl
      · rfl
      · exact absurd (h a b [] mid hr) (Nat.not_lt_zero _)
  | cons _ rounds ih =>
    intro rounds' ts a hts hts'
    cases rounds' with
    | nil =>
      obtain rfl : ts = [] := List.length_eq_zero_iff.mp (Nat.le_zero.mp hts')
      rw [repeatOnto, repeatOnto, bind_apply, bind_apply]
      rcases hr : round a [] with ⟨_ | x | b, mid⟩
      · rfl
      · rfl
      · exact absurd (h a b [] mid hr) (Nat.not_lt_zero _)
    | cons _ rounds' =>
      rw [repeatOnto, repeatOnto, bind_apply, bind_apply]
      rcases hr : round a ts with ⟨_ | x | b, mid⟩
      · rfl
      · rfl
      · -- the round has consumed a token, so that the counts suffice for what is left
        have hconsumed : mid.length < ts.length := h a b ts mid hr
        simp only [List.length_cons] at hts hts'
        exact ih rounds' b (by omega) (by omega)

theorem repeats_eq (h : Consuming round) (a : σ) :
    repeats round close a = round a >>= Sum.elim pure (repeats round close) := by
  funext ts
  rw [repeats_apply, repeatOnto_rounds h ts (default :: ts) a (Nat.le_refl _) (by simp),
    repeatOnto, bind_apply, bind_apply]
  rcases hr : round a ts with ⟨_ | x | b, mid⟩
  · rfl
  · rfl
  · -- the count is that of `ts` on the left and that of `mid` on the right
    exact repeatOnto_rounds h ts mid b (Nat.le_of_lt (h a b ts mid hr)) (Nat.le_refl _)

end Rule

namespace Grammar

open Rule

variable (s : Setting)

/-- One round of the items of a list literal. -/
def elementRound (item : Rule Node) (done : List Node) : Rule (List Node ⊕ List Node) := do
  if ← isAt s [.symbol .rbrack] then pure (.inl done.reverse)
  else if ← isAt s [.endOfInput] then failAt s "']' to close list"
  else
    let x ← item
    if ← isAt s [.symbol .comma] then
      skip s
      pure (.inr (x :: done))
    else pure (.inr (x :: done))

/-- One round of the arguments of a call. -/
def argumentRound (item : Rule Node) (done : List Node) :
    Rule (List Node ⊕ List Node) := do
  if ← isAt s [.symbol .rparen] then pure (.inl done.reverse)
  else
    let x ← item
    if ← isAt s [.symbol .comma] then
      skip s
      pure (.inr (x :: done))
    else pure (.inl (x :: done).reverse)

/-- One operator and the operand after it. -/
def chainRound (operand : Rule Node) (left : Node) : Rule (Node ⊕ Node) := do
  let t ← look s
  if t.kind.isBinary then
    skip s
    let right ← operand
    let left ← Rule.ofExcept (Node.binary? left t.text right left.pos)
    pure (.inr left)
  else pure (.inl left)

/-- One statement, if a word begins it. -/
def statementRound (statement : Rule Node) (done : List Node) :
    Rule (List Node ⊕ List Node) := do
  if ← isAt s [.ident] then
    let x ← statement
    pure (.inr (x :: done))
  else pure (.inl done.reverse)

theorem elements_eq_repeatOnto (item : Rule Node) (rounds : List Token) :
    ∀ done : List Node, elements s item rounds done =
      repeatOnto (elementRound s item) List.reverse rounds done := by
  induction rounds with
  | nil =>
    intro done
    simp only [elements, repeatOnto, elementRound, bind_assoc, ite_bind, failAt_bind, pure_bind]
  | cons _ rounds ih =>
    intro done
    simp only [elements, repeatOnto, elementRound, bind_assoc, ite_bind, failAt_bind, pure_bind,
      ih]

theorem arguments_eq_repeatOnto (item : Rule Node) (rounds : List Token) :
    ∀ done : List Node, arguments s item rounds done =
      repeatOnto (argumentRound s item) List.reverse rounds done := by
  induction rounds with
  | nil =>
    intro done
    simp only [arguments, repeatOnto, argumentRound, bind_assoc, ite_bind, pure_bind]
  | cons _ rounds ih =>
    intro done
    simp only [arguments, repeatOnto, argumentRound, bind_assoc, ite_bind, pure_bind, ih]

theorem chain_eq_repeatOnto (operand : Rule Node) (rounds : List Token) :
    ∀ left : Node, chain s operand rounds left =
      repeatOnto (chainRound s operand) id rounds left := by
  induction rounds with
  | nil =>
    intro left
    simp only [chain, repeatOnto, chainRound, bind_assoc, ite_bind, pure_bind, id]
  | cons _ rounds ih =>
    intro left
    simp only [chain, repeatOnto, chainRound, bind_assoc, ite_bind, pure_bind, ih]

theorem repeated_eq_repeatOnto (statement : Rule Node) (rounds : List Token) :
    ∀ done : List Node, repeated s statement rounds done =
      repeatOnto (statementRound s statement) List.reverse rounds done := by
  induction rounds with
  | nil =>
    intro done
    simp only [repeated, repeatOnto, statementRound, bind_assoc, ite_bind, pure_bind]
  | cons _ rounds ih =>
    intro done
    simp only [repeated, repeatOnto, statementRound, bind_assoc, ite_bind, pure_bind, ih]

theorem elements_remaining (item : Rule Node) (done : List Node) :
    (do elements s item (← remaining) done) =
      repeats (elementRound s item) List.reverse done := by
  funext ts
  rw [remaining_bind, elements_eq_repeatOnto, repeats_apply]

theorem arguments_remaining (item : Rule Node) (done : List Node) :
    (do arguments s item (← remaining) done) =
      repeats (argumentRound s item) List.reverse done := by
  funext ts
  rw [remaining_bind, arguments_eq_repeatOnto, repeats_apply]

theorem chain_remaining (operand : Rule Node) (left : Node) :
    (do chain s operand (← remaining) left) = repeats (chainRound s operand) id left := by
  funext ts
  rw [remaining_bind, chain_eq_repeatOnto, repeats_apply]

theorem repeated_remaining (statement : Rule Node) (done : List Node) :
    (do repeated s statement (← remaining) done) =
      repeats (statementRound s statement) List.reverse done := by
  funext ts
  rw [remaining_bind, repeated_eq_repeatOnto, repeats_apply]

/-! ### What a round answers -/

variable {s} {item : Rule Node} {done : List Node} {ts rest : List Token}

/-- The tokens after a comma, if one stands at the front. -/
def afterComma (s : Setting) (ts : List Token) : List Token :=
  if (front s ts).kind = .symbol .comma then ts.tail else ts

theorem afterComma_suffix (s : Setting) (ts : List Token) : afterComma s ts <:+ ts := by
  rw [afterComma]
  split
  · exact List.tail_suffix ts
  · exact List.suffix_refl ts

theorem elementRound_eq_ok {r : List Node ⊕ List Node} :
    elementRound s item done ts = (.ok r, rest) ↔
      (front s ts).kind = .symbol .rbrack ∧ r = .inl done.reverse ∧ rest = ts ∨
      (front s ts).kind ≠ .symbol .rbrack ∧ (front s ts).kind ≠ .endOfInput ∧
        ∃ x mid, item ts = (.ok x, mid) ∧ r = .inr (x :: done) ∧ rest = afterComma s mid := by
  -- with or without a comma, the round goes on with the same items
  have hcomma : ∀ (x : Node) (mid : List Token),
      (do if ← isAt s [.symbol .comma] then
            skip s
            pure (.inr (x :: done))
          else pure (.inr (x :: done)) : Rule (List Node ⊕ List Node)) mid =
        (.ok (.inr (x :: done)), afterComma s mid) := by
    intro x mid
    rw [isAt_bind, run_ite, afterComma]
    by_cases hc : (front s mid).kind = .symbol .comma
    · simp only [hc, decide_true, if_true]
      rw [skip_bind_of_front s (by simp [hc]), pure_apply]
    · simp only [hc, decide_false, if_false, Bool.false_eq_true, pure_apply]
  rw [elementRound, isAt_bind, run_ite]
  by_cases h₁ : (front s ts).kind = .symbol .rbrack
  · simp [h₁, pure_eq_ok]
  · rw [if_neg (by simpa using h₁), isAt_bind, run_ite]
    by_cases h₂ : (front s ts).kind = .endOfInput
    · simp [h₂, failAt_ne_ok]
    · rw [if_neg (by simpa using h₂), bind_eq_ok]
      simp only [h₁, h₂, hcomma, Prod.mk.injEq, Except.ok.injEq, false_and, false_or, ne_eq,
        not_false_eq_true, true_and, @eq_comm _ r, @eq_comm _ rest]

theorem argumentRound_eq_ok {r : List Node ⊕ List Node} :
    argumentRound s item done ts = (.ok r, rest) ↔
      (front s ts).kind = .symbol .rparen ∧ r = .inl done.reverse ∧ rest = ts ∨
      (front s ts).kind ≠ .symbol .rparen ∧ ∃ x mid, item ts = (.ok x, mid) ∧
        ((front s mid).kind = .symbol .comma ∧ r = .inr (x :: done) ∧ rest = mid.tail ∨
          (front s mid).kind ≠ .symbol .comma ∧ r = .inl (x :: done).reverse ∧
            rest = mid) := by
  rw [argumentRound, isAt_bind, run_ite]
  by_cases h : (front s ts).kind = .symbol .rparen
  · simp [h, pure_eq_ok]
  · rw [if_neg (by simpa using h), bind_eq_ok]
    simp only [h, false_and, false_or, not_false_eq_true, true_and, ne_eq]
    refine exists_congr fun x => exists_congr fun mid => and_congr_right fun _ => ?_
    rw [isAt_bind, run_ite]
    by_cases hc : (front s mid).kind = .symbol .comma
    · simp only [hc, decide_true, if_true]
      rw [skip_bind_of_front s (by simp [hc]), pure_eq_ok]
      simp
    · simp [hc, pure_eq_ok]

theorem chainRound_eq_ok {operand : Rule Node} {left : Node} {r : Node ⊕ Node} :
    chainRound s operand left ts = (.ok r, rest) ↔
      (front s ts).kind.isBinary = false ∧ r = .inl left ∧ rest = ts ∨
      (front s ts).kind.isBinary = true ∧ ∃ right x, operand ts.tail = (.ok right, rest) ∧
        Node.binary? left (front s ts).text right left.pos = .ok x ∧ r = .inr x := by
  rw [chainRound, look_bind, run_ite]
  by_cases h : (front s ts).kind.isBinary = true
  · have hend := ne_endOfInput_of_operator (.inr (.inl h))
    rw [if_pos h, skip_bind_of_front s hend]
    simp only [h, bind_eq_ok, ofExcept_eq_ok, pure_eq_ok]
    constructor
    · rintro ⟨right, mid, hright, x, _, ⟨hx, rfl⟩, rfl, rfl⟩
      exact .inr ⟨trivial, right, x, hright, hx, rfl⟩
    · rintro (⟨hf, -⟩ | ⟨-, right, x, hright, hx, rfl⟩)
      · exact absurd hf (by decide)
      · exact ⟨right, rest, hright, x, rest, ⟨hx, rfl⟩, rfl, rfl⟩
  · rw [if_neg h, pure_eq_ok]
    simp [h, eq_comm]

theorem statementRound_eq_ok {r : List Node ⊕ List Node} :
    statementRound s item done ts = (.ok r, rest) ↔
      (front s ts).kind ≠ .ident ∧ r = .inl done.reverse ∧ rest = ts ∨
      (front s ts).kind = .ident ∧ ∃ x, item ts = (.ok x, rest) ∧ r = .inr (x :: done) := by
  rw [statementRound, isAt_bind, run_ite]
  by_cases h : (front s ts).kind = .ident
  · simp only [h, decide_true, if_true, bind_eq_ok, pure_eq_ok]
    constructor
    · rintro ⟨x, mid, hx, rfl, rfl⟩
      exact .inr ⟨trivial, x, hx, rfl⟩
    · rintro (⟨hf, -⟩ | ⟨-, x, hx, rfl⟩)
      · exact absurd rfl hf
      · exact ⟨x, rest, hx, rfl, rfl⟩
  · simp [h, pure_eq_ok]

/-! ### Rules that repeat -/

variable (s)

variable (inside : Option Inside)

/-- The items of a list literal and its closing bracket. -/
def listInside (rules : Inside) : Rule (List Node) := do
  let xs ← repeats (elementRound s rules.expression) List.reverse []
  let _ ← expect s [.symbol .rbrack] "']' to close list"
  pure xs

/-- The arguments of a call and the closing parenthesis. -/
def callInside (rules : Inside) : Rule (List Node) := do
  let args ← repeats (argumentRound s rules.expression) List.reverse []
  let _ ← expect s [.symbol .rparen] "')' to close call arguments"
  pure args

/-- What follows the closing parenthesis of a call: its body, or nothing. -/
def callEnd (name opening : Token) (args : List Node) : Rule Node := do
  if ← isAt s [.symbol .lbrace] then
    let body ← block s inside
    pure (.call name.text (.list args opening.pos) (some body) name.pos)
  else pure (.call name.text (.list args opening.pos) none name.pos)

theorem listInside_eq (rules : Inside) : listInside s rules = (do
    let xs ← elements s rules.expression (← remaining) []
    let _ ← expect s [.symbol .rbrack] "']' to close list"
    pure xs) := by
  rw [listInside, ← elements_remaining, bind_assoc]

theorem callInside_eq (rules : Inside) : callInside s rules = (do
    let args ← arguments s rules.expression (← remaining) []
    let _ ← expect s [.symbol .rparen] "')' to close call arguments"
    pure args) := by
  rw [callInside, ← arguments_remaining, bind_assoc]

theorem bracketedList_eq : bracketedList s inside = (do
    let opening ← expect s [.symbol .lbrack] "'['"
    let xs ← enter s inside (listInside s)
    pure (.list xs opening.pos)) := by
  simp only [bracketedList, ← listInside_eq]

theorem call_eq : call s inside = (do
    let name ← expect s [.ident] "function name"
    let opening ← expect s [.symbol .lparen] "'('"
    let args ← enter s inside (callInside s)
    callEnd s inside name opening args) := by
  simp only [call, callEnd, ← callInside_eq]

theorem expression_eq : expression s inside = (do
    let left ← unary s inside
    repeats (chainRound s (unary s inside)) id left) := by
  simp only [expression, ← chain_remaining]

theorem statements_eq : statements s inside =
    repeats (statementRound s (statement s inside)) List.reverse [] := by
  simp only [statements, ← repeated_remaining]

end Grammar

end GnLang
