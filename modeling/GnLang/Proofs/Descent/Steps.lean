/-
Steps that work on a parser do what rules of the grammar do, and keep the parser in order.

`Descent.Follows m r d` says that the step `m`, taken on the parser `d`, is not stuck, answers
what the rule `r` answers to the tokens that are left, and leaves the tokens that `r` leaves.
Nothing else has changed afterwards: neither the tokens nor the limit, nor the count of the open
nestings; and if there is an answer, the count never exceeded the limit.

* `Descent.Follows.bind` — one step after another;
* `Descent.FollowsAll` — the same for every parser with so many nestings to open;
* `Descent.followsAll_advance`, … — the steps that look at tokens or move over them;
* `Descent.followsAll_nested` — a nesting.
-/
import GnLang.Descent
import GnLang.Proofs.Grammar.Run

namespace GnLang.Descent

open Grammar

variable {α β : Type} {d d' d'' : Descent}

/-! ### Steps -/

theorem after_bind (m : Step α) (f : α → Step β) (d : Descent) :
    (m >>= f).after d =
      match m.after d with
      | some (.ok x, d') => (f x).after d'
      | some (.error e, d') => some (.error e, d')
      | none => none := by
  rw [Step.after, ExceptT.run_bind, StateT.run_bind]
  change (Step.after m d).bind _ = _
  rcases m.after d with _ | ⟨_ | x, d'⟩ <;> rfl

/-- The parser has only moved on over its tokens. -/
structure Keeps (d d' : Descent) : Prop where
  tokens : d'.tokens = d.tokens
  limit : d'.limit = d.limit
  depth : d'.depth = d.depth
  le : d.position ≤ d'.position
  le_length : d.position ≤ d.tokens.length → d'.position ≤ d.tokens.length

theorem Keeps.refl (d : Descent) : Keeps d d := ⟨rfl, rfl, rfl, Nat.le_refl _, id⟩

theorem Keeps.trans (h : Keeps d d') (h' : Keeps d' d'') : Keeps d d'' := by
  refine ⟨h'.tokens.trans h.tokens, h'.limit.trans h.limit, h'.depth.trans h.depth,
    Nat.le_trans h.le h'.le, fun hd => ?_⟩
  rw [← h.tokens]
  exact h'.le_length (by rw [h.tokens]; exact h.le_length hd)

/-- The step answers what the rule answers, and both leave the same tokens. -/
def Follows (m : Step α) (r : Rule α) (d : Descent) : Prop :=
  ∃ a d', m.after d = some (a, d') ∧ r d.rest = (a, d'.rest) ∧ Keeps d d' ∧
    ∀ x, a = .ok x → d.deepest ≤ d.limit → d'.deepest ≤ d'.limit

theorem follows_pure (x : α) (d : Descent) : Follows (pure x) (pure x) d :=
  ⟨.ok x, d, rfl, rfl, .refl d, fun _ _ h => h⟩

theorem Follows.bind {m : Step α} {r : Rule α} {f : α → Step β} {g : α → Rule β}
    (hm : Follows m r d)
    (hf : ∀ x d', Keeps d d' → r d.rest = (.ok x, d'.rest) → Follows (f x) (g x) d') :
    Follows (m >>= f) (r >>= g) d := by
  obtain ⟨a, d', hafter, hrest, hkeeps, hdeep⟩ := hm
  rw [Follows, after_bind, hafter, Rule.bind_apply, hrest]
  cases a with
  | error e => exact ⟨.error e, d', rfl, rfl, hkeeps, fun x h => by cases h⟩
  | ok x =>
    obtain ⟨a, d'', hafter', hrest', hkeeps', hdeep'⟩ := hf x d' hkeeps hrest
    exact ⟨a, d'', hafter', hrest', hkeeps.trans hkeeps', fun y hy h =>
      hdeep' y hy (hdeep x rfl h)⟩

theorem Follows.ite {c : Prop} [Decidable c] {m m' : Step α} {r r' : Rule α}
    (h : Follows m r d) (h' : Follows m' r' d) :
    Follows (if c then m else m') (if c then r else r') d := by
  split
  · exact h
  · exact h'

/-! ### Parsers that fit -/

/-- The parser has what a rule needs to know, stands among its tokens or at their end, and may
open so many nestings. -/
structure Fits (s : Setting) (nestings : Nat) (d : Descent) : Prop where
  setting : d.setting = s
  le_length : d.position ≤ d.tokens.length
  depth : d.depth + nestings = d.limit

variable {s : Setting} {b : Nat}

theorem Fits.keeps (h : d.Fits s b) (hkeeps : Keeps d d') : d'.Fits s b := by
  refine ⟨?_, ?_, ?_⟩
  · rw [← h.setting, Parser.setting, Parser.setting, hkeeps.tokens, hkeeps.limit]
  · rw [hkeeps.tokens]
    exact hkeeps.le_length h.le_length
  · rw [hkeeps.depth, hkeeps.limit, h.depth]

theorem Fits.front (h : d.Fits s b) : d.front = Grammar.front s d.rest := by
  rw [Parser.front, h.setting]

theorem Fits.limit (h : d.Fits s b) : (s.limit : Int) = d.limit := by
  rw [← h.setting, Parser.setting]

/-- Wherever a parser fits, the step follows the rule. -/
def FollowsAll (s : Setting) (b : Nat) (m : Step α) (r : Rule α) : Prop :=
  ∀ d, d.Fits s b → Follows m r d

variable {m m' : Step α} {r r' : Rule α}

theorem followsAll_pure (x : α) : FollowsAll s b (pure x) (pure x) :=
  fun d _ => follows_pure x d

theorem FollowsAll.bind {f : α → Step β} {g : α → Rule β} (hm : FollowsAll s b m r)
    (hf : ∀ x, FollowsAll s b (f x) (g x)) : FollowsAll s b (m >>= f) (r >>= g) :=
  fun d hd => (hm d hd).bind fun x d' hkeeps _ => hf x d' (hd.keeps hkeeps)

theorem FollowsAll.ite {c : Prop} [Decidable c] (h : FollowsAll s b m r)
    (h' : FollowsAll s b m' r') : FollowsAll s b (if c then m else m') (if c then r else r') :=
  fun d hd => (h d hd).ite (h' d hd)

theorem followsAll_look : FollowsAll s b look (Grammar.look s) := fun d hd =>
  ⟨.ok d.front, d, rfl, by rw [Grammar.look, hd.front], .refl d, fun _ _ h => h⟩

theorem followsAll_follower : FollowsAll s b follower Grammar.follower := fun d _ =>
  ⟨.ok _, d, rfl, rfl, .refl d, fun _ _ h => h⟩

theorem followsAll_isAt (kinds : List TokenKind) :
    FollowsAll s b (isAt kinds) (Grammar.isAt s kinds) := fun d hd =>
  ⟨.ok _, d, rfl, by rw [Grammar.isAt, hd.front], .refl d, fun _ _ h => h⟩

theorem followsAll_failAt (expected : String) :
    FollowsAll s b (failAt expected : Step α) (Grammar.failAt s expected) := fun d hd =>
  ⟨.error _, d, rfl, by rw [Grammar.failAt, hd.front], .refl d, fun _ _ h => h⟩

theorem after_advance (d : Descent) :
    advance.after d = some (.ok d.front,
      if d.front.kind = .endOfInput then d else { d with position := d.position + 1 }) := by
  change (if d.front.kind = .endOfInput then pure d.front else _ : Step Token).after d = _
  split <;> rfl

/-- The token that is moved over is one of the tokens, for past them stands the end of the
input. -/
theorem followsAll_advance : FollowsAll s b advance (takeFront s) := by
  intro d hd
  refine ⟨_, _, after_advance d, ?_, ?_, fun _ _ h => ?_⟩
  · rw [takeFront, ← hd.front]
    split
    · rfl
    · rw [Parser.rest, List.tail_drop]
      rfl
  · split
    · exact .refl d
    next hkind =>
      refine ⟨rfl, rfl, rfl, Nat.le_succ _, fun _ => ?_⟩
      rcases Nat.lt_or_ge d.position d.tokens.length with hlt | hge
      · exact hlt
      · rw [hd.front, show d.rest = [] from List.drop_eq_nil_of_le hge] at hkind
        exact absurd rfl hkind
  · split <;> exact h

theorem followsAll_skip : FollowsAll s b skip (Grammar.skip s) :=
  followsAll_advance.bind fun _ => followsAll_pure ()

theorem followsAll_expect (kinds : List TokenKind) (expected : String) :
    FollowsAll s b (expect kinds expected) (Grammar.expect s kinds expected) :=
  (followsAll_isAt kinds).bind fun _ => followsAll_advance.ite (followsAll_failAt expected)

theorem followsAll_ended : FollowsAll s b ended (Grammar.ended s) := by
  refine followsAll_look.bind fun t => (followsAll_pure ()).ite fun d _ => ?_
  exact ⟨.error _, d, rfl, rfl, .refl d, fun _ h => by cases h⟩

theorem followsAll_answer (a : Except Failure α) :
    FollowsAll s b (answer a) (Rule.answer a) := fun d _ =>
  ⟨a, d, rfl, rfl, .refl d, fun _ _ h => h⟩

theorem followsAll_check (a : Except Node.Fault α) :
    FollowsAll s b (check a) (Rule.ofExcept a) := followsAll_answer _

/-! ### Nestings -/

/-- The rules for the inside of a nesting follow those of the grammar. -/
structure InsideFollows (s : Setting) (b : Nat) (rules : Inside) : Prop where
  unary : FollowsAll s b rules.unary (Grammar.unary s (Grammar.insideOf s b))
  expression : FollowsAll s b rules.expression (Grammar.expression s (Grammar.insideOf s b))
  statements : FollowsAll s b rules.statements (Grammar.statements s (Grammar.insideOf s b))

/-- There are such rules, if one more nesting may be opened at all. -/
def Mirrors (s : Setting) (b : Nat) (inside : Option Inside) : Prop :=
  ∀ b', b = b' + 1 → ∃ rules, inside = some rules ∧ InsideFollows s b' rules

/-- Whatever is done inside a nesting, the nesting is no longer counted afterwards. -/
theorem after_nested (inside : Option Inside) (body : Inside → Step α) (d : Descent) :
    (nested inside body).after d =
      ((permit >>= fun _ => byRules inside body).after d.raised).map fun (a, d') =>
        (a, d'.lowered) := by
  change (Step.after (permit >>= fun _ => byRules inside body) d.raised).bind _ = _
  rcases (permit >>= fun _ => byRules inside body).after d.raised with _ | ⟨a, d'⟩ <;> rfl

theorem after_permit (d : Descent) :
    permit.after d = some (if d.limit < d.depth then
      .error (.parse ⟨.tooDeep d.limit, d.front.pos⟩) else .ok (), d) := by
  change (if d.limit < d.depth then throw _ else pure () : Step Unit).after d = _
  split <;> rfl

/-- The inside of a nesting is entered exactly if the count does not exceed the limit. -/
theorem followsAll_nested {inside : Option Inside} {body : Inside → Step α}
    {body' : Grammar.Inside → Rule α} (h : Mirrors s b inside)
    (hbody : ∀ b' rules, InsideFollows s b' rules →
      FollowsAll s b' (body rules) (body' ⟨Grammar.unary s (Grammar.insideOf s b'),
        Grammar.expression s (Grammar.insideOf s b'),
        Grammar.statements s (Grammar.insideOf s b')⟩)) :
    FollowsAll s b (nested inside body) (enter s (Grammar.insideOf s b) body') := by
  intro d hd
  have hdepth := hd.depth
  rw [Follows, after_nested, after_bind, after_permit]
  cases b with
  | zero =>
    -- no nesting may be opened: the count exceeds the limit, and the failure undoes the count
    have hdeep : d.raised.limit < d.raised.depth := by
      simp only [raised]
      omega
    rw [if_pos hdeep]
    refine ⟨_, _, rfl, ?_, ⟨rfl, rfl, rfl, Nat.le_refl _, id⟩, fun _ h => by cases h⟩
    change (Except.error _, d.rest) = (Except.error _, d.rest)
    rw [hd.limit, ← hd.front]
    rfl
  | succ b =>
    have hfits : d.raised.Fits s b := by
      refine ⟨hd.setting, hd.le_length, ?_⟩
      simp only [raised]
      omega
    have hdeep : ¬ d.raised.limit < d.raised.depth := by
      have := hfits.depth
      omega
    obtain ⟨rules, rfl, hrules⟩ := h b rfl
    obtain ⟨a, d', hafter, hrest, hkeeps, hdeepest⟩ := hbody b rules hrules _ hfits
    rw [if_neg hdeep]
    refine ⟨a, d'.lowered, ?_, hrest, ?_, fun x hx hle => ?_⟩
    · change Option.map _ ((body rules).after d.raised) = _
      rw [hafter]
      rfl
    · refine ⟨hkeeps.tokens, hkeeps.limit, ?_, hkeeps.le, hkeeps.le_length⟩
      change d'.depth - 1 = d.depth
      rw [hkeeps.depth]
      rfl
    · refine hdeepest x hx ?_
      simp only [raised] at hdeep ⊢
      omega

end GnLang.Descent
