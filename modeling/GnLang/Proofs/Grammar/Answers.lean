/-
What a rule answers when it succeeds.

One statement for each rule: the rule succeeds exactly if the tokens at the front are the
ones it asks for and the rules it uses succeed on the tokens between them.  Soundness
reads these statements from left to right, completeness from right to left, and neither
opens a rule.
-/
import GnLang.Proofs.Grammar.Progress

namespace GnLang.Grammar

open Rule

variable {s : Setting} {d : Nat} {ts rest : List Token} {x : Node}

theorem enter_insideOf_eq_ok {α : Type} {body : Inside → Rule α} {a : α} :
    enter s (insideOf s d) body ts = (.ok a, rest) ↔
      ∃ e, d = e + 1 ∧ body ⟨unary s (insideOf s e), expression s (insideOf s e),
        statements s (insideOf s e)⟩ ts = (.ok a, rest) := by
  cases d with
  | zero => simp [insideOf, enter_none]
  | succ d => simp [insideOf_succ, enter_some]

/-! ### Words, strings and numbers -/

theorem identifier_eq_ok :
    identifier s ts = (.ok x, rest) ↔
      ∃ t : Token, ts = t :: rest ∧ t.kind = .ident ∧ x = .identifier t.text t.pos := by
  rw [identifier, bind_eq_ok]
  constructor
  · rintro ⟨t, mid, ht, hx⟩
    obtain ⟨rfl, hk⟩ := (expect_eq_ok s (by simp)).mp ht
    obtain ⟨rfl, rfl⟩ := pure_eq_ok.mp hx
    exact ⟨t, rfl, hk, rfl⟩
  · rintro ⟨t, rfl, hk, rfl⟩
    exact ⟨t, rest, (expect_eq_ok s (by simp)).mpr ⟨rfl, hk⟩, rfl⟩

theorem string_eq_ok :
    string s ts = (.ok x, rest) ↔
      ∃ t : Token, ts = t :: rest ∧ t.kind = .string ∧ x = .string t.text t.pos := by
  rw [string, bind_eq_ok]
  constructor
  · rintro ⟨t, mid, ht, hx⟩
    obtain ⟨rfl, hk⟩ := (expect_eq_ok s (by simp)).mp ht
    obtain ⟨rfl, rfl⟩ := pure_eq_ok.mp hx
    exact ⟨t, rfl, hk, rfl⟩
  · rintro ⟨t, rfl, hk, rfl⟩
    exact ⟨t, rest, (expect_eq_ok s (by simp)).mpr ⟨rfl, hk⟩, rfl⟩

theorem scopeAccess_eq_ok :
    scopeAccess s ts = (.ok x, rest) ↔
      ∃ t u v : Token, ts = t :: u :: v :: rest ∧ t.kind = .ident ∧ u.kind = .symbol .dot ∧
        v.kind = .ident ∧ x = .scopeAccess t.text v.text t.pos := by
  simp only [scopeAccess, bind_eq_ok, pure_eq_ok,
    expect_eq_ok s (k := .ident) (by simp), expect_eq_ok s (k := .symbol .dot) (by simp)]
  constructor
  · rintro ⟨t, _, ⟨rfl, ht⟩, u, _, ⟨rfl, hu⟩, v, _, ⟨rfl, hv⟩, rfl, rfl⟩
    exact ⟨t, u, v, rfl, ht, hu, hv, rfl⟩
  · rintro ⟨t, u, v, rfl, ht, hu, hv, rfl⟩
    exact ⟨t, _, ⟨rfl, ht⟩, u, _, ⟨rfl, hu⟩, v, _, ⟨rfl, hv⟩, rfl, rfl⟩

theorem unsigned_eq_ok {negative : Bool} {p : Pos} :
    unsigned s negative p ts = (.ok x, rest) ↔
      ∃ t : Token, ts = t :: rest ∧ t.kind = .number ∧
        integerOf negative p t.text = .ok x := by
  simp only [unsigned, bind_eq_ok, answer_eq_ok, expect_eq_ok s (k := .number) (by simp)]
  constructor
  · rintro ⟨t, _, ⟨rfl, ht⟩, hx, rfl⟩
    exact ⟨t, rfl, ht, hx⟩
  · rintro ⟨t, rfl, ht, hx⟩
    exact ⟨t, _, ⟨rfl, ht⟩, hx, rfl⟩

theorem integer_cons (t : Token) (ts : List Token) :
    integer s (t :: ts) =
      if t.kind = .symbol .sub then unsigned s true t.pos ts
      else unsigned s false t.pos (t :: ts) := by
  rw [integer_eq, look_bind, isAt_bind, run_ite, front_cons]
  by_cases ht : t.kind = .symbol .sub
  · rw [if_pos (decide_eq_true ht), if_pos ht, skip_bind s (by simp [ht])]
  · rw [if_neg (by simpa using ht), if_neg ht]

theorem integer_eq_ok :
    integer s ts = (.ok x, rest) ↔
      (∃ t : Token, ts = t :: rest ∧ t.kind = .number ∧
        integerOf false t.pos t.text = .ok x) ∨
      ∃ m t : Token, ts = m :: t :: rest ∧ m.kind = .symbol .sub ∧ t.kind = .number ∧
        integerOf true m.pos t.text = .ok x := by
  cases ts with
  | nil =>
    have hnil : integer s [] = unsigned s false s.endPos [] := by
      rw [integer_eq]
      rfl
    rw [hnil, unsigned_eq_ok]
    simp
  | cons m ts =>
    rw [integer_cons]
    by_cases h : m.kind = .symbol .sub
    · rw [if_pos h, unsigned_eq_ok]
      constructor
      · rintro ⟨t, rfl, ht, hx⟩
        exact .inr ⟨m, t, rfl, h, ht, hx⟩
      · rintro (⟨t, hts, ht, -⟩ | ⟨m', t, hts, -, ht, hx⟩)
        · obtain ⟨rfl, -⟩ := List.cons.inj hts
          rw [h] at ht
          cases ht
        · obtain ⟨rfl, rfl⟩ := List.cons.inj hts
          exact ⟨t, rfl, ht, hx⟩
    · rw [if_neg h, unsigned_eq_ok]
      constructor
      · rintro ⟨t, hts, ht, hx⟩
        obtain ⟨rfl, rfl⟩ := List.cons.inj hts
        exact .inl ⟨m, rfl, ht, hx⟩
      · rintro (⟨t, hts, ht, hx⟩ | ⟨m', t, hts, hm, -, -⟩)
        · obtain ⟨rfl, rfl⟩ := List.cons.inj hts
          exact ⟨m, rfl, ht, hx⟩
        · obtain ⟨rfl, -⟩ := List.cons.inj hts
          exact absurd hm h

/-! ### Repetitions -/

theorem elementsAt_eq_ok {done xs : List Node} :
    elementsAt s d done ts = (.ok xs, rest) ↔
      (front s ts).kind = .symbol .rbrack ∧ xs = done.reverse ∧ rest = ts ∨
      (front s ts).kind ≠ .symbol .rbrack ∧ (front s ts).kind ≠ .endOfInput ∧
        ∃ x mid, expression s (insideOf s d) ts = (.ok x, mid) ∧
          elementsAt s d (x :: done) (afterComma s mid) = (.ok xs, rest) := by
  rw [elementsAt_eq, bind_eq_ok]
  constructor
  · rintro ⟨r, mid, hround, hrest⟩
    rcases elementRound_eq_ok.mp hround with ⟨hk, rfl, rfl⟩ | ⟨hk, hend, x, mid', hx, rfl, rfl⟩
    · obtain ⟨rfl, rfl⟩ := pure_eq_ok.mp hrest
      exact .inl ⟨hk, rfl, rfl⟩
    · exact .inr ⟨hk, hend, x, mid', hx, hrest⟩
  · rintro (⟨hk, rfl, rfl⟩ | ⟨hk, hend, x, mid, hx, hrest⟩)
    · exact ⟨_, _, elementRound_eq_ok.mpr (.inl ⟨hk, rfl, rfl⟩), rfl⟩
    · exact ⟨_, _, elementRound_eq_ok.mpr (.inr ⟨hk, hend, x, mid, hx, rfl, rfl⟩), hrest⟩

theorem argumentsAt_eq_ok {done xs : List Node} :
    argumentsAt s d done ts = (.ok xs, rest) ↔
      (front s ts).kind = .symbol .rparen ∧ xs = done.reverse ∧ rest = ts ∨
      (front s ts).kind ≠ .symbol .rparen ∧
        ∃ x mid, expression s (insideOf s d) ts = (.ok x, mid) ∧
          ((front s mid).kind = .symbol .comma ∧
              argumentsAt s d (x :: done) mid.tail = (.ok xs, rest) ∨
            (front s mid).kind ≠ .symbol .comma ∧ xs = (x :: done).reverse ∧ rest = mid) := by
  rw [argumentsAt_eq, bind_eq_ok]
  constructor
  · rintro ⟨r, mid, hround, hrest⟩
    rcases argumentRound_eq_ok.mp hround with
      ⟨hk, rfl, rfl⟩ | ⟨hk, x, mid', hx, ⟨hc, rfl, rfl⟩ | ⟨hc, rfl, rfl⟩⟩
    · obtain ⟨rfl, rfl⟩ := pure_eq_ok.mp hrest
      exact .inl ⟨hk, rfl, rfl⟩
    · exact .inr ⟨hk, x, mid', hx, .inl ⟨hc, hrest⟩⟩
    · obtain ⟨rfl, rfl⟩ := pure_eq_ok.mp hrest
      exact .inr ⟨hk, x, _, hx, .inr ⟨hc, rfl, rfl⟩⟩
  · rintro (⟨hk, rfl, rfl⟩ | ⟨hk, x, mid, hx, ⟨hc, hrest⟩ | ⟨hc, rfl, rfl⟩⟩)
    · exact ⟨_, _, argumentRound_eq_ok.mpr (.inl ⟨hk, rfl, rfl⟩), rfl⟩
    · exact ⟨_, _, argumentRound_eq_ok.mpr (.inr ⟨hk, x, mid, hx, .inl ⟨hc, rfl, rfl⟩⟩), hrest⟩
    · exact ⟨_, _, argumentRound_eq_ok.mpr (.inr ⟨hk, x, _, hx, .inr ⟨hc, rfl, rfl⟩⟩), rfl⟩

theorem chainAt_eq_ok {left : Node} :
    chainAt s d left ts = (.ok x, rest) ↔
      (front s ts).kind.isBinary = false ∧ x = left ∧ rest = ts ∨
      (front s ts).kind.isBinary = true ∧
        ∃ right y mid, unary s (insideOf s d) ts.tail = (.ok right, mid) ∧
          Node.binary? left (front s ts).text right left.pos = .ok y ∧
          chainAt s d y mid = (.ok x, rest) := by
  rw [chainAt_eq, bind_eq_ok]
  constructor
  · rintro ⟨r, mid, hround, hrest⟩
    rcases chainRound_eq_ok.mp hround with ⟨hk, rfl, rfl⟩ | ⟨hk, right, y, hright, hy, rfl⟩
    · obtain ⟨rfl, rfl⟩ := pure_eq_ok.mp hrest
      exact .inl ⟨hk, rfl, rfl⟩
    · exact .inr ⟨hk, right, y, mid, hright, hy, hrest⟩
  · rintro (⟨hk, rfl, rfl⟩ | ⟨hk, right, y, mid, hright, hy, hrest⟩)
    · exact ⟨_, _, chainRound_eq_ok.mpr (.inl ⟨hk, rfl, rfl⟩), rfl⟩
    · exact ⟨_, _, chainRound_eq_ok.mpr (.inr ⟨hk, right, y, hright, hy, rfl⟩), hrest⟩

theorem statementsAt_eq_ok {done xs : List Node} :
    statementsAt s d done ts = (.ok xs, rest) ↔
      (front s ts).kind ≠ .ident ∧ xs = done.reverse ∧ rest = ts ∨
      (front s ts).kind = .ident ∧
        ∃ x mid, statement s (insideOf s d) ts = (.ok x, mid) ∧
          statementsAt s d (x :: done) mid = (.ok xs, rest) := by
  rw [statementsAt_eq, bind_eq_ok]
  constructor
  · rintro ⟨r, mid, hround, hrest⟩
    rcases statementRound_eq_ok.mp hround with ⟨hk, rfl, rfl⟩ | ⟨hk, x, hx, rfl⟩
    · obtain ⟨rfl, rfl⟩ := pure_eq_ok.mp hrest
      exact .inl ⟨hk, rfl, rfl⟩
    · exact .inr ⟨hk, x, mid, hx, hrest⟩
  · rintro (⟨hk, rfl, rfl⟩ | ⟨hk, x, mid, hx, hrest⟩)
    · exact ⟨_, _, statementRound_eq_ok.mpr (.inl ⟨hk, rfl, rfl⟩), rfl⟩
    · exact ⟨_, _, statementRound_eq_ok.mpr (.inr ⟨hk, x, hx, rfl⟩), hrest⟩

/-! ### Nestings -/

theorem bracketedList_eq_ok :
    bracketedList s (insideOf s d) ts = (.ok x, rest) ↔
      ∃ (e : Nat) (t u : Token) (mid : List Token) (xs : List Node), d = e + 1 ∧
        ts = t :: mid ∧ t.kind = .symbol .lbrack ∧
        elementsAt s e [] mid = (.ok xs, u :: rest) ∧ u.kind = .symbol .rbrack ∧
        x = .list xs t.pos := by
  simp only [bracketedList_eq, listInside, bind_eq_ok, pure_eq_ok, enter_insideOf_eq_ok,
    expect_eq_ok s (k := .symbol .lbrack) (by simp),
    expect_eq_ok s (k := .symbol .rbrack) (by simp)]
  constructor
  · rintro ⟨t, _, ⟨rfl, ht⟩, xs, _, ⟨e, rfl, _, _, hxs, u, _, ⟨rfl, hu⟩, rfl, rfl⟩, rfl, rfl⟩
    exact ⟨e, t, u, _, xs, rfl, rfl, ht, hxs, hu, rfl⟩
  · rintro ⟨e, t, u, mid, xs, rfl, rfl, ht, hxs, hu, rfl⟩
    exact ⟨t, mid, ⟨rfl, ht⟩, xs, _, ⟨e, rfl, _, _, hxs, u, _, ⟨rfl, hu⟩, rfl, rfl⟩, rfl, rfl⟩

theorem block_eq_ok :
    block s (insideOf s d) ts = (.ok x, rest) ↔
      ∃ (e : Nat) (t u : Token) (mid : List Token) (xs : List Node), d = e + 1 ∧
        ts = t :: mid ∧ t.kind = .symbol .lbrace ∧
        statementsAt s e [] mid = (.ok xs, u :: rest) ∧ u.kind = .symbol .rbrace ∧
        x = .list xs t.pos := by
  simp only [block, statements_eq, bind_eq_ok, pure_eq_ok, enter_insideOf_eq_ok,
    expect_eq_ok s (k := .symbol .lbrace) (by simp),
    expect_eq_ok s (k := .symbol .rbrace) (by simp)]
  constructor
  · rintro ⟨t, _, ⟨rfl, ht⟩, xs, _, ⟨e, rfl, _, _, hxs, u, _, ⟨rfl, hu⟩, rfl, rfl⟩, rfl, rfl⟩
    exact ⟨e, t, u, _, xs, rfl, rfl, ht, hxs, hu, rfl⟩
  · rintro ⟨e, t, u, mid, xs, rfl, rfl, ht, hxs, hu, rfl⟩
    exact ⟨t, mid, ⟨rfl, ht⟩, xs, _, ⟨e, rfl, _, _, hxs, u, _, ⟨rfl, hu⟩, rfl, rfl⟩, rfl, rfl⟩

theorem callEnd_eq_ok {name opening : Token} {args : List Node} :
    callEnd s (insideOf s d) name opening args ts = (.ok x, rest) ↔
      ((front s ts).kind ≠ .symbol .lbrace ∧ rest = ts ∧
        x = .call name.text (.list args opening.pos) none name.pos) ∨
      ∃ body, block s (insideOf s d) ts = (.ok body, rest) ∧
        x = .call name.text (.list args opening.pos) (some body) name.pos := by
  rw [callEnd, isAt_bind, run_ite]
  by_cases h : (front s ts).kind = .symbol .lbrace
  · rw [if_pos (decide_eq_true h), bind_eq_ok]
    constructor
    · rintro ⟨body, mid, hbody, hx⟩
      obtain ⟨rfl, rfl⟩ := pure_eq_ok.mp hx
      exact .inr ⟨body, hbody, rfl⟩
    · rintro (⟨hk, -⟩ | ⟨body, hbody, rfl⟩)
      · exact absurd h hk
      · exact ⟨body, rest, hbody, rfl⟩
  · rw [if_neg (by simpa using h), pure_eq_ok]
    constructor
    · rintro ⟨rfl, rfl⟩
      exact .inl ⟨h, rfl, rfl⟩
    · rintro (⟨-, rfl, rfl⟩ | ⟨body, hbody, -⟩)
      · exact ⟨rfl, rfl⟩
      · -- a body begins with the brace that is not there
        obtain ⟨e, t, u, mid, xs, -, rfl, ht, -⟩ := block_eq_ok.mp hbody
        exact absurd ht h

theorem call_eq_ok :
    call s (insideOf s d) ts = (.ok x, rest) ↔
      ∃ (e : Nat) (t u v : Token) (mid mid' : List Token) (args : List Node), d = e + 1 ∧
        ts = t :: u :: mid ∧ t.kind = .ident ∧ u.kind = .symbol .lparen ∧
        argumentsAt s e [] mid = (.ok args, v :: mid') ∧ v.kind = .symbol .rparen ∧
        callEnd s (insideOf s d) t u args mid' = (.ok x, rest) := by
  simp only [call_eq, callInside, bind_eq_ok, pure_eq_ok, enter_insideOf_eq_ok,
    expect_eq_ok s (k := .ident) (by simp), expect_eq_ok s (k := .symbol .lparen) (by simp),
    expect_eq_ok s (k := .symbol .rparen) (by simp)]
  constructor
  · rintro ⟨t, _, ⟨rfl, ht⟩, u, _, ⟨rfl, hu⟩, args, _,
      ⟨e, rfl, _, _, hargs, v, _, ⟨rfl, hv⟩, rfl, rfl⟩, hx⟩
    exact ⟨e, t, u, v, _, _, args, rfl, rfl, ht, hu, hargs, hv, hx⟩
  · rintro ⟨e, t, u, v, mid, mid', args, rfl, rfl, ht, hu, hargs, hv, hx⟩
    exact ⟨t, _, ⟨rfl, ht⟩, u, _, ⟨rfl, hu⟩, args, _,
      ⟨e, rfl, _, _, hargs, v, _, ⟨rfl, hv⟩, rfl, rfl⟩, hx⟩

theorem arrayAccess_eq_ok :
    arrayAccess s (insideOf s d) ts = (.ok x, rest) ↔
      ∃ (e : Nat) (t u v : Token) (mid : List Token) (i : Node), d = e + 1 ∧
        ts = t :: u :: mid ∧ t.kind = .ident ∧ u.kind = .symbol .lbrack ∧
        expression s (insideOf s e) mid = (.ok i, v :: rest) ∧ v.kind = .symbol .rbrack ∧
        x = .arrayAccess t.text i t.pos := by
  simp only [arrayAccess, bind_eq_ok, pure_eq_ok, enter_insideOf_eq_ok,
    expect_eq_ok s (k := .ident) (by simp), expect_eq_ok s (k := .symbol .lbrack) (by simp),
    expect_eq_ok s (k := .symbol .rbrack) (by simp)]
  constructor
  · rintro ⟨t, _, ⟨rfl, ht⟩, u, _, ⟨rfl, hu⟩, i, _,
      ⟨e, rfl, _, _, hi, v, _, ⟨rfl, hv⟩, rfl, rfl⟩, rfl, rfl⟩
    exact ⟨e, t, u, v, _, i, rfl, rfl, ht, hu, hi, hv, rfl⟩
  · rintro ⟨e, t, u, v, mid, i, rfl, rfl, ht, hu, hi, hv, rfl⟩
    exact ⟨t, _, ⟨rfl, ht⟩, u, _, ⟨rfl, hu⟩, i, _,
      ⟨e, rfl, _, _, hi, v, _, ⟨rfl, hv⟩, rfl, rfl⟩, rfl, rfl⟩

theorem parenthesized_eq_ok :
    parenthesized s (insideOf s d) ts = (.ok x, rest) ↔
      ∃ (e : Nat) (t u : Token) (mid : List Token), d = e + 1 ∧
        ts = t :: mid ∧ t.kind = .symbol .lparen ∧
        expression s (insideOf s e) mid = (.ok x, u :: rest) ∧ u.kind = .symbol .rparen := by
  simp only [parenthesized, bind_eq_ok, pure_eq_ok, enter_insideOf_eq_ok,
    expect_eq_ok s (k := .symbol .lparen) (by simp),
    expect_eq_ok s (k := .symbol .rparen) (by simp)]
  constructor
  · rintro ⟨t, _, ⟨rfl, ht⟩, e, rfl, _, _, hx, u, _, ⟨rfl, hu⟩, rfl, rfl⟩
    exact ⟨e, t, u, _, rfl, rfl, ht, hx, hu⟩
  · rintro ⟨e, t, u, mid, rfl, rfl, ht, hx, hu⟩
    exact ⟨t, mid, ⟨rfl, ht⟩, e, rfl, x, _, hx, u, _, ⟨rfl, hu⟩, rfl, rfl⟩

/-! ### Operands and expressions -/

variable (inside : Option Inside)

theorem target_cons (t : Token) (ts : List Token) :
    target s inside (t :: ts) =
      if t.kind = .ident then
        match (front s ts).kind with
        | .symbol .lbrack => arrayAccess s inside (t :: ts)
        | .symbol .dot => scopeAccess s (t :: ts)
        | _ => identifier s (t :: ts)
      else failAt s "assignment target" (t :: ts) := by
  rw [target, isAt_bind, run_ite, follower_bind, secondKind_cons s, front_cons]
  by_cases ht : t.kind = .ident
  · rw [if_pos (decide_eq_true ht), if_pos ht]
    cases (front s ts).kind with
    | symbol m => cases m <;> rfl
    | _ => rfl
  · rw [if_neg (by simpa using ht), if_neg ht]

theorem statement_nil : statement s inside [] = failAt s "assignment target" [] := rfl

theorem statement_cons (t : Token) (ts : List Token) :
    statement s inside (t :: ts) =
      if t.kind = .ident ∧ (front s ts).kind = .symbol .lparen then
        call s inside (t :: ts)
      else assignment s inside (t :: ts) := by
  rw [statement, isAt_bind, follower_bind, secondKind_cons s, run_ite, front_cons]
  by_cases ht : t.kind = .ident <;> simp [ht]

theorem primary_cons (t : Token) (ts : List Token) :
    primary s inside (t :: ts) =
      match t.kind with
      | .symbol .lbrack => bracketedList s inside (t :: ts)
      | .string => string s (t :: ts)
      | .ident =>
        if (front s ts).kind = .symbol .lparen then call s inside (t :: ts)
        else target s inside (t :: ts)
      | .symbol .lparen => parenthesized s inside (t :: ts)
      | .number | .symbol .sub => integer s (t :: ts)
      | _ => failAt s "expression" (t :: ts) := by
  rw [primary, look_bind, front_cons, target_cons]
  cases ht : t.kind with
  | symbol m => cases m <;> rfl
  | ident =>
    dsimp only
    rw [follower_bind, secondKind_cons s]
    cases (front s ts).kind with
    | symbol m => cases m <;> rfl
    | _ => rfl
  | _ => rfl

theorem unary_cons (t : Token) (ts : List Token) :
    unary s inside (t :: ts) =
      if t.kind.isUnary then
        (do let x ← enter s inside fun rules => rules.unary
            ofExcept (Node.unary? t.text x t.pos)) ts
      else primary s inside (t :: ts) := by
  rw [unary, look_bind, run_ite, front_cons]
  by_cases ht : t.kind.isUnary = true
  · rw [if_pos ht, if_pos ht, skip_bind s (ne_endOfInput_of_operator (.inl ht))]
  · rw [if_neg ht, if_neg ht]

variable {inside}

theorem unary_eq_ok :
    unary s (insideOf s d) ts = (.ok x, rest) ↔
      (front s ts).kind.isUnary = false ∧ primary s (insideOf s d) ts = (.ok x, rest) ∨
      ∃ (e : Nat) (t : Token) (mid : List Token) (y : Node), d = e + 1 ∧ ts = t :: mid ∧
        t.kind.isUnary = true ∧ unary s (insideOf s e) mid = (.ok y, rest) ∧
        Node.unary? t.text y t.pos = .ok x := by
  cases ts with
  | nil =>
    constructor
    · intro hx
      exact .inl ⟨rfl, hx⟩
    · rintro (⟨-, hx⟩ | ⟨e, t, mid, y, -, hts, -⟩)
      · exact hx
      · cases hts
  | cons t ts =>
    rw [unary_cons, front_cons]
    by_cases h : t.kind.isUnary = true
    · rw [if_pos h]
      simp only [bind_eq_ok, enter_insideOf_eq_ok, ofExcept_eq_ok]
      constructor
      · rintro ⟨y, _, ⟨e, rfl, hy⟩, hx, rfl⟩
        exact .inr ⟨e, t, ts, y, rfl, rfl, h, hy, hx⟩
      · rintro (⟨hk, -⟩ | ⟨e, t', mid, y, rfl, hts, -, hy, hx⟩)
        · rw [h] at hk
          cases hk
        · obtain ⟨rfl, rfl⟩ := List.cons.inj hts
          exact ⟨y, rest, ⟨e, rfl, hy⟩, hx, rfl⟩
    · rw [if_neg h]
      constructor
      · intro hx
        exact .inl ⟨by simpa using h, hx⟩
      · rintro (⟨-, hx⟩ | ⟨e, t', mid, y, -, hts, ht, -, -⟩)
        · exact hx
        · obtain ⟨rfl, -⟩ := List.cons.inj hts
          exact absurd ht h

theorem expression_eq_ok :
    expression s (insideOf s d) ts = (.ok x, rest) ↔
      ∃ left mid, unary s (insideOf s d) ts = (.ok left, mid) ∧
        chainAt s d left mid = (.ok x, rest) := by
  rw [expression_eq, bind_eq_ok]
  rfl

/-! ### Statements -/

theorem assignment_eq_ok :
    assignment s (insideOf s d) ts = (.ok x, rest) ↔
      ∃ left t mid value, target s (insideOf s d) ts = (.ok left, t :: mid) ∧
        t.kind.isAssign = true ∧ expression s (insideOf s d) mid = (.ok value, rest) ∧
        Node.assignment? left t.text value left.pos = .ok x := by
  rw [assignment, bind_eq_ok]
  constructor
  · rintro ⟨left, after, hleft, hx⟩
    rw [look_bind, run_ite] at hx
    split at hx
    · rename_i ht
      -- the operator is a token of its own, not the end that stands past the last token
      cases after with
      | nil => exact absurd ht (by simp [Token.endAt, TokenKind.isAssign])
      | cons t mid =>
        rw [front_cons] at ht hx
        rw [skip_bind s (ne_endOfInput_of_operator (.inr (.inr ht)))] at hx
        obtain ⟨value, _, hvalue, hx⟩ := bind_eq_ok.mp hx
        obtain ⟨hnode, rfl⟩ := ofExcept_eq_ok.mp hx
        exact ⟨left, t, mid, value, hleft, ht, hvalue, hnode⟩
    · exact absurd hx (failAt_ne_ok s)
  · rintro ⟨left, t, mid, value, hleft, ht, hvalue, hx⟩
    refine ⟨left, t :: mid, hleft, ?_⟩
    rw [look_bind, front_cons, run_ite, if_pos ht,
      skip_bind s (ne_endOfInput_of_operator (.inr (.inr ht))), bind_of_ok hvalue]
    exact ofExcept_eq_ok.mpr ⟨hx, rfl⟩

theorem ended_eq_ok {u : Unit} :
    ended s ts = (.ok u, rest) ↔ (front s ts).kind = .endOfInput ∧ rest = ts := by
  rw [ended, look_bind, run_ite]
  split
  · rename_i hk
    simp [hk, pure_eq_ok]
  · rename_i hk
    simp [hk, fail_ne_ok]

theorem program_eq_ok :
    program s d ts = (.ok x, rest) ↔
      ∃ xs, statementsAt s d [] ts = (.ok xs, rest) ∧ (front s rest).kind = .endOfInput ∧
        x = .list xs (front s ts).pos := by
  simp only [program, statementList, statements_eq, look_bind, bind_eq_ok, pure_eq_ok,
    ended_eq_ok]
  constructor
  · rintro ⟨_, _, ⟨xs, _, hxs, rfl, rfl⟩, _, _, ⟨hk, rfl⟩, rfl, rfl⟩
    exact ⟨xs, hxs, hk, rfl⟩
  · rintro ⟨xs, hxs, hk, rfl⟩
    exact ⟨_, rest, ⟨xs, rest, hxs, rfl, rfl⟩, (), rest, ⟨hk, rfl⟩, rfl, rfl⟩

theorem loneExpression_eq_ok :
    loneExpression s d ts = (.ok x, rest) ↔
      expression s (insideOf s d) ts = (.ok x, rest) ∧
        (front s rest).kind = .endOfInput := by
  simp only [loneExpression, bind_eq_ok, pure_eq_ok, ended_eq_ok]
  constructor
  · rintro ⟨_, _, hx, _, _, ⟨hk, rfl⟩, rfl, rfl⟩
    exact ⟨hx, hk⟩
  · rintro ⟨hx, hk⟩
    exact ⟨x, rest, hx, (), rest, ⟨hk, rfl⟩, rfl, rfl⟩

end GnLang.Grammar
