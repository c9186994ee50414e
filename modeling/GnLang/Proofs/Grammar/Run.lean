/-
What the steps of a rule answer.

A rule is a chain of small steps.  Here each step is run on a list of tokens:

* `Rule.bind_eq_ok` — a chain succeeds if each of its parts does, one after the other;
* `isAt_bind`, `look_bind`, `skip_bind`, … — steps that cannot fail;
* `expect_eq_ok`, `enter_eq_ok` — steps that can.

With them a rule is opened by rewriting, and no later proof looks inside a step.
-/
import GnLang.Parser

namespace GnLang

namespace Rule

variable {α β : Type}

theorem bind_eq_ok {r : Rule α} {f : α → Rule β} {ts rest : List Token} {y : β} :
    (r >>= f) ts = (.ok y, rest) ↔
      ∃ x mid, r ts = (.ok x, mid) ∧ f x mid = (.ok y, rest) := by
  rw [bind_apply]
  rcases h : r ts with ⟨_ | x, mid⟩
  · simp
  · constructor
    · intro hf
      exact ⟨x, mid, rfl, hf⟩
    · rintro ⟨x', mid', hr, hf⟩
      cases hr
      exact hf

theorem bind_of_ok {r : Rule α} {f : α → Rule β} {ts mid : List Token} {x : α}
    (h : r ts = (.ok x, mid)) : (r >>= f) ts = f x mid := by
  rw [bind_apply, h]

theorem bind_of_error {r : Rule α} {f : α → Rule β} {ts mid : List Token} {e : Failure}
    (h : r ts = (.error e, mid)) : (r >>= f) ts = (.error e, mid) := by
  rw [bind_apply, h]

theorem pure_eq_ok {x y : α} {ts rest : List Token} :
    (pure x : Rule α) ts = (.ok y, rest) ↔ y = x ∧ rest = ts := by
  rw [pure_apply, Prod.mk.injEq, Except.ok.injEq, eq_comm, @eq_comm _ ts]

theorem fail_apply (e : Failure) (ts : List Token) :
    (fail e : Rule α) ts = (.error e, ts) := rfl

theorem fail_ne_ok {e : Failure} {ts rest : List Token} {y : α} :
    (fail e : Rule α) ts ≠ (.ok y, rest) := by
  rw [fail_apply]
  simp

theorem answer_eq_ok {a : Except Failure α} {ts rest : List Token} {y : α} :
    answer a ts = (.ok y, rest) ↔ a = .ok y ∧ rest = ts := by
  rw [answer, Prod.mk.injEq, @eq_comm _ ts]

theorem ofExcept_ok (x : α) : ofExcept (.ok x) = pure x := rfl

theorem ofExcept_error (f : Node.Fault) : (ofExcept (.error f) : Rule α) = fail (.node f) := rfl

theorem ofExcept_eq_ok {a : Except Node.Fault α} {ts rest : List Token} {y : α} :
    ofExcept a ts = (.ok y, rest) ↔ a = .ok y ∧ rest = ts := by
  cases a with
  | error f =>
    rw [ofExcept_error, fail_apply]
    simp
  | ok x => rw [ofExcept_ok, pure_eq_ok, Except.ok.injEq, eq_comm]

theorem remaining_bind (f : List Token → Rule β) (ts : List Token) :
    (remaining >>= f) ts = f ts ts := rfl

theorem ite_bind {c : Prop} [Decidable c] (r r' : Rule α) (f : α → Rule β) :
    (if c then r else r') >>= f = if c then r >>= f else r' >>= f := by
  split <;> rfl

theorem run_ite {c : Prop} [Decidable c] (r r' : Rule α) (ts : List Token) :
    (if c then r else r') ts = if c then r ts else r' ts := by
  split <;> rfl

end Rule

namespace Grammar

open Rule

variable (s : Setting) {α β : Type}

@[simp] theorem front_nil : front s [] = .endAt s.endPos := rfl

@[simp] theorem front_cons (t : Token) (ts : List Token) : front s (t :: ts) = t := rfl

theorem secondKind_cons (t : Token) (ts : List Token) :
    secondKind (t :: ts) = (front s ts).kind := by
  cases ts <;> rfl

/-- No operator is the end of the input, so an operator that has been seen can be skipped. -/
theorem ne_endOfInput_of_operator {k : TokenKind}
    (h : k.isUnary = true ∨ k.isBinary = true ∨ k.isAssign = true) : k ≠ .endOfInput := by
  rintro rfl
  rcases h with h | h | h <;> exact absurd h (by decide)

/-! ### Steps that cannot fail -/

theorem look_bind (f : Token → Rule β) (ts : List Token) :
    (look s >>= f) ts = f (front s ts) ts := rfl

theorem follower_bind (f : TokenKind → Rule β) (ts : List Token) :
    (follower >>= f) ts = f (secondKind ts) ts := rfl

theorem isAt_bind (k : TokenKind) (f : Bool → Rule β) (ts : List Token) :
    (isAt s [k] >>= f) ts = f (decide ((front s ts).kind = k)) ts := by
  have h : isAt s [k] ts = (.ok (decide ((front s ts).kind = k)), ts) := by
    by_cases hk : (front s ts).kind = k <;> simp [isAt, hk]
  exact bind_of_ok h

theorem takeFront_cons {t : Token} (ht : t.kind ≠ .endOfInput) (ts : List Token) :
    takeFront s (t :: ts) = (.ok t, ts) := by
  simp [takeFront, ht]

theorem skip_bind {t : Token} (ht : t.kind ≠ .endOfInput) (f : Unit → Rule β)
    (ts : List Token) : (skip s >>= f) (t :: ts) = f () ts := by
  rw [skip, bind_assoc, bind_of_ok (takeFront_cons s ht ts), pure_bind]

/-- A token can be skipped once its kind has been seen. -/
theorem skip_bind_of_front {ts : List Token} (ht : (front s ts).kind ≠ .endOfInput)
    (f : Unit → Rule β) : (skip s >>= f) ts = f () ts.tail := by
  cases ts with
  | nil => exact absurd rfl ht
  | cons t ts => exact skip_bind s ht f ts

/-! ### Steps that can fail -/

theorem failAt_apply (expected : String) (ts : List Token) :
    (failAt s expected : Rule α) ts =
      (.error (.parse (.unexpected expected (front s ts))), ts) := rfl

theorem failAt_bind (expected : String) (f : α → Rule β) :
    (failAt s expected : Rule α) >>= f = failAt s expected := rfl

theorem failAt_ne_ok {expected : String} {ts rest : List Token} {y : α} :
    (failAt s expected : Rule α) ts ≠ (.ok y, rest) := by
  rw [failAt_apply]
  simp

theorem expect_apply (k : TokenKind) (expected : String) (ts : List Token) :
    expect s [k] expected ts =
      if (front s ts).kind = k then takeFront s ts else failAt s expected ts := by
  rw [expect, isAt_bind, run_ite]
  simp

theorem expect_cons {t : Token} (ht : t.kind ≠ .endOfInput) (expected : String)
    (ts : List Token) : expect s [t.kind] expected (t :: ts) = (.ok t, ts) := by
  rw [expect_apply, front_cons, if_pos rfl, takeFront_cons s ht]

theorem expect_eq_ok {k : TokenKind} (hk : k ≠ .endOfInput) {expected : String}
    {ts rest : List Token} {t : Token} :
    expect s [k] expected ts = (.ok t, rest) ↔ ts = t :: rest ∧ t.kind = k := by
  constructor
  · intro h
    rw [expect_apply] at h
    split at h
    · rename_i hf
      -- past the last token stands the end of the input, which is not of kind `k`
      cases ts with
      | nil => exact absurd hf.symm hk
      | cons u ts =>
        rw [takeFront_cons s (by rw [← front_cons s u ts, hf]; exact hk)] at h
        cases h
        exact ⟨rfl, hf⟩
    · exact absurd h (failAt_ne_ok s)
  · rintro ⟨rfl, rfl⟩
    exact expect_cons s hk expected rest

theorem enter_none (body : Inside → Rule α) (ts : List Token) :
    enter s none body ts =
      (.error (.parse ⟨.tooDeep s.limit, (front s ts).pos⟩), ts) := rfl

theorem enter_some (rules : Inside) (body : Inside → Rule α) :
    enter s (some rules) body = body rules := rfl

/-- A number, after its sign if it has one. -/
def unsigned (negative : Bool) (p : Pos) : Rule Node := do
  let t ← expect s [.number] "integer literal"
  answer (integerOf negative p t.text)

theorem integer_eq : integer s = (do
    let start ← look s
    if ← isAt s [.symbol .sub] then
      skip s
      unsigned s true start.pos
    else unsigned s false start.pos) := by
  funext ts
  rw [integer, look_bind, look_bind, isAt_bind, isAt_bind, run_ite, run_ite]
  by_cases h : (front s ts).kind = .symbol .sub
  · simp [h, unsigned]
  · simp [h, unsigned]

theorem insideOf_succ (d : Nat) :
    insideOf s (d + 1) = some ⟨unary s (insideOf s d), expression s (insideOf s d),
      statements s (insideOf s d)⟩ := rfl

end Grammar

end GnLang
