/-
Rules look at one token more than they consume.

A rule that succeeds has decided what it makes of its tokens by these tokens and the one it
leaves at the front.  No token behind that one is looked at: where the same tokens stand, the
rule does the same again, whatever follows them and wherever the input ends.

`Rule.Local r r'` says so of two rules, which are one rule under two settings.  It holds of one
rule after another (`LocalAt.bind`), since the second begins with the token that the first left.
Only the kind of the second token is seen too early; but the rules that are chosen by it consume
the first (`local_follower_bind`).

* `local_insideOf` — the rules of every nesting are local;
* `Parser.parse_of_agrees` — so is each rule that a parser can be asked to run: on two token
  lists that agree from its position on, up to the token it leaves, it does the same.
-/
import GnLang.Proofs.Grammar.Progress

namespace GnLang

namespace Rule

variable {α β ρ σ : Type}

/-- If the first rule succeeds on the tokens and leaves some, the second succeeds alike wherever
those it consumes and the next one stand. -/
def LocalAt (r r' : Rule α) (ts : List Token) : Prop :=
  ∀ x t v, r ts = (.ok x, t :: v) →
    ∃ u, ts = u ++ t :: v ∧ ∀ v', r' (u ++ t :: v') = (.ok x, t :: v')

/-- The same on whatever tokens. -/
def Local (r r' : Rule α) : Prop := ∀ ts, LocalAt r r' ts

variable {r r' : Rule α} {f g : α → Rule β} {ts : List Token}

/-- A rule that fails is left out. -/
theorem local_of_ne_ok (h : ∀ ts x rest, r ts ≠ (.ok x, rest)) : Local r r' :=
  fun ts x t v hr => absurd hr (h ts x (t :: v))

theorem local_fail (e : Failure) : Local (fail e : Rule α) r' :=
  local_of_ne_ok fun _ _ _ => fail_ne_ok

theorem local_answer (a : Except Failure α) : Local (answer a) (answer a) := by
  intro ts x t v h
  obtain ⟨rfl, rfl⟩ := answer_eq_ok.mp h
  exact ⟨[], rfl, fun _ => rfl⟩

theorem local_pure (x : α) : Local (pure x : Rule α) (pure x) := local_answer (.ok x)

theorem local_ofExcept (a : Except Node.Fault α) : Local (ofExcept a) (ofExcept a) :=
  local_answer _

/-- The first rule leaves the token that the second begins with: one that the second consumes,
or the one that both leave. -/
theorem LocalAt.bind (hr : LocalAt r r' ts)
    (hf : ∀ x mid, r ts = (.ok x, mid) → LocalAt (f x) (g x) mid) :
    LocalAt (r >>= f) (r' >>= g) ts := by
  intro y t v h
  obtain ⟨x, mid, hx, hy⟩ := bind_eq_ok.mp h
  obtain ⟨w, rfl, hw⟩ := hf x mid hx y t v hy
  cases w with
  | nil =>
    obtain ⟨u, rfl, hu⟩ := hr x t v hx
    exact ⟨u, rfl, fun v' => (bind_of_ok (hu v')).trans (hw v')⟩
  | cons a w =>
    obtain ⟨u, rfl, hu⟩ := hr x a (w ++ t :: v) hx
    refine ⟨u ++ a :: w, (List.append_assoc u (a :: w) (t :: v)).symm, fun v' => ?_⟩
    rw [List.append_assoc]
    exact (bind_of_ok (hu (w ++ t :: v'))).trans (hw v')

theorem Local.bind (hr : Local r r') (hf : ∀ x, Local (f x) (g x)) :
    Local (r >>= f) (r' >>= g) :=
  fun ts => (hr ts).bind fun x mid _ => hf x mid

theorem Local.ite {c : Prop} [Decidable c] {q q' : Rule α} (hr : Local r r')
    (hq : Local q q') : Local (if c then r else q) (if c then r' else q') := by
  split
  · exact hr
  · exact hq

/-- The rounds of a repetition are counted by all tokens that are left, also by those that are
not looked at.  But the count does not matter, for each round consumes a token. -/
theorem Local.repeats {round round' : σ → Rule (ρ ⊕ σ)} {close : σ → ρ}
    (hround : Consuming round) (hround' : Consuming round')
    (h : ∀ a, Local (round a) (round' a)) (a : σ) :
    Local (repeats round close a) (repeats round' close a) := by
  intro ts
  -- the induction is on the number of tokens, since what follows a round has fewer
  induction hn : ts.length using Nat.strongRecOn generalizing ts a with
  | ind n ih =>
    subst hn
    rw [repeats_eq hround, repeats_eq hround']
    refine (h a ts).bind fun y mid hy => ?_
    cases y with
    | inl x => exact local_pure x mid
    | inr b => exact ih mid.length (hround a b ts mid hy) b mid rfl

end Rule

namespace Grammar

open Rule

variable {α : Type} (s s' : Setting)

/-! ### Steps -/

theorem local_look : Local (look s) (look s') := by
  intro ts x t v h
  cases h
  exact ⟨[], rfl, fun _ => rfl⟩

theorem local_isAt (kinds : List TokenKind) : Local (isAt s kinds) (isAt s' kinds) := by
  intro ts x t v h
  cases h
  exact ⟨[], rfl, fun _ => rfl⟩

theorem takeFront_endOfInput {t : Token} (ht : t.kind = .endOfInput) (ts : List Token) :
    takeFront s (t :: ts) = (.ok t, t :: ts) := by
  simp [takeFront, ht]

theorem local_takeFront : Local (takeFront s) (takeFront s') := by
  intro ts x t v h
  cases ts with
  | nil => cases h
  | cons a ts =>
    by_cases ha : a.kind = .endOfInput
    · rw [takeFront_endOfInput s ha] at h
      cases h
      exact ⟨[], rfl, fun v' => takeFront_endOfInput s' ha v'⟩
    · rw [takeFront_cons s ha] at h
      cases h
      exact ⟨[x], rfl, fun v' => takeFront_cons s' ha (t :: v')⟩

theorem local_skip : Local (skip s) (skip s') :=
  (local_takeFront s s').bind fun _ => local_pure ()

theorem local_failAt (expected : String) {r' : Rule α} : Local (failAt s expected) r' :=
  local_of_ne_ok fun _ _ _ => failAt_ne_ok s

theorem local_expect (kinds : List TokenKind) (expected : String) :
    Local (expect s kinds expected) (expect s' kinds expected) :=
  (local_isAt s s' kinds).bind fun _ => (local_takeFront s s').ite (local_failAt s expected)

theorem local_ended : Local (ended s) (ended s') :=
  (local_look s s').bind fun _ => (local_pure ()).ite (local_fail _)

/-- The second of the tokens decides, but it is not behind the token that is left in the end. -/
theorem local_follower_bind {f g : TokenKind → Rule α} (hprogress : ∀ k, (f k).Progresses)
    (h : ∀ k, Local (f k) (g k)) : Local (follower >>= f) (follower >>= g) := by
  intro ts x t v hr
  rw [follower_bind] at hr
  have hlt := (hprogress _).consumes x ts (t :: v) hr
  obtain ⟨u, rfl, hu⟩ := h _ ts x t v hr
  refine ⟨u, rfl, fun v' => ?_⟩
  have hsecond : secondKind (u ++ t :: v') = secondKind (u ++ t :: v) := by
    match u with
    | [] => exact absurd hlt (Nat.lt_irrefl _)
    | [_] => rfl
    | _ :: _ :: _ => rfl
  rw [follower_bind, hsecond]
  exact hu v'

/-! ### Words, strings and numbers -/

theorem local_identifier : Local (identifier s) (identifier s') :=
  (local_expect s s' _ _).bind fun _ => local_pure _

theorem local_string : Local (string s) (string s') :=
  (local_expect s s' _ _).bind fun _ => local_pure _

theorem local_scopeAccess : Local (scopeAccess s) (scopeAccess s') := by
  refine (local_expect s s' _ _).bind fun _ => (local_expect s s' _ _).bind fun _ => ?_
  exact (local_expect s s' _ _).bind fun _ => local_pure _

theorem local_integer : Local (integer s) (integer s') := by
  rw [integer_eq, integer_eq]
  have hunsigned : ∀ negative p, Local (unsigned s negative p) (unsigned s' negative p) :=
    fun _ _ => (local_expect s s' _ _).bind fun _ => local_answer _
  refine (local_look s s').bind fun start => (local_isAt s s' _).bind fun _ => ?_
  exact ((local_skip s s').bind fun _ => hunsigned true start.pos).ite
    (hunsigned false start.pos)

/-! ### Rounds -/

section

variable {item item' : Rule Node} (h : Local item item')

include h

theorem local_elementRound (done : List Node) :
    Local (elementRound s item done) (elementRound s' item' done) := by
  refine (local_isAt s s' _).bind fun _ => (local_pure _).ite ?_
  refine (local_isAt s s' _).bind fun _ => (local_failAt s _).ite ?_
  refine h.bind fun x => (local_isAt s s' _).bind fun _ => ?_
  exact ((local_skip s s').bind fun _ => local_pure _).ite (local_pure _)

theorem local_argumentRound (done : List Node) :
    Local (argumentRound s item done) (argumentRound s' item' done) := by
  refine (local_isAt s s' _).bind fun _ => (local_pure _).ite ?_
  refine h.bind fun x => (local_isAt s s' _).bind fun _ => ?_
  exact ((local_skip s s').bind fun _ => local_pure _).ite (local_pure _)

theorem local_chainRound (left : Node) :
    Local (chainRound s item left) (chainRound s' item' left) := by
  refine (local_look s s').bind fun t => Local.ite ?_ (local_pure _)
  refine (local_skip s s').bind fun _ => h.bind fun right => ?_
  exact (local_ofExcept _).bind fun _ => local_pure _

theorem local_statementRound (done : List Node) :
    Local (statementRound s item done) (statementRound s' item' done) :=
  (local_isAt s s' _).bind fun _ => (h.bind fun _ => local_pure _).ite (local_pure _)

end

/-! ### Nestings -/

/-- What the rules for the inside of a nesting must satisfy, under the two settings, for those
around it. -/
structure LocalInside (rules rules' : Inside) : Prop where
  unary : Local rules.unary rules'.unary
  expression : Local rules.expression rules'.expression
  statements : Local rules.statements rules'.statements
  progresses : InsideProgresses rules
  progresses' : InsideProgresses rules'

theorem local_listInside {rules rules' : Inside} (h : LocalInside rules rules') :
    Local (listInside s rules) (listInside s' rules') := by
  refine (Local.repeats (consuming_elementRound s h.progresses.expression)
    (consuming_elementRound s' h.progresses'.expression)
    (local_elementRound s s' h.expression) []).bind fun _ => ?_
  exact (local_expect s s' _ _).bind fun _ => local_pure _

theorem local_callInside {rules rules' : Inside} (h : LocalInside rules rules') :
    Local (callInside s rules) (callInside s' rules') := by
  refine (Local.repeats (consuming_argumentRound s h.progresses.expression)
    (consuming_argumentRound s' h.progresses'.expression)
    (local_argumentRound s s' h.expression) []).bind fun _ => ?_
  exact (local_expect s s' _ _).bind fun _ => local_pure _

section

variable {inside inside' : Option Inside} (h : Option.Rel LocalInside inside inside')

include h

theorem insideProgresses_left (rules : Inside) (hr : inside = some rules) :
    InsideProgresses rules := by
  subst hr
  cases h with
  | some h => exact h.progresses

theorem insideProgresses_right (rules : Inside) (hr : inside' = some rules) :
    InsideProgresses rules := by
  subst hr
  cases h with
  | some h => exact h.progresses'

theorem local_enter {body body' : Inside → Rule α}
    (hbody : ∀ rules rules', LocalInside rules rules' → Local (body rules) (body' rules')) :
    Local (enter s inside body) (enter s' inside' body') := by
  cases h with
  | none => exact (local_look s s').bind fun _ => local_fail _
  | some h => exact hbody _ _ h

theorem local_bracketedList : Local (bracketedList s inside) (bracketedList s' inside') := by
  rw [bracketedList_eq, bracketedList_eq]
  refine (local_expect s s' _ _).bind fun _ => ?_
  exact (local_enter s s' h fun _ _ => local_listInside s s').bind fun _ => local_pure _

theorem local_block : Local (block s inside) (block s' inside') := by
  refine (local_expect s s' _ _).bind fun _ => ?_
  refine (local_enter s s' h fun rules rules' hr => ?_).bind fun _ => local_pure _
  exact hr.statements.bind fun _ => (local_expect s s' _ _).bind fun _ => local_pure _

/-- A call without a body has looked for one at the token it leaves. -/
theorem local_call : Local (call s inside) (call s' inside') := by
  rw [call_eq, call_eq]
  refine (local_expect s s' _ _).bind fun name => (local_expect s s' _ _).bind fun opening => ?_
  refine (local_enter s s' h fun _ _ => local_callInside s s').bind fun args => ?_
  refine (local_isAt s s' _).bind fun _ => Local.ite ?_ (local_pure _)
  exact (local_block s s' h).bind fun _ => local_pure _

theorem local_arrayAccess : Local (arrayAccess s inside) (arrayAccess s' inside') := by
  refine (local_expect s s' _ _).bind fun _ => (local_expect s s' _ _).bind fun _ => ?_
  refine (local_enter s s' h fun rules rules' hr => ?_).bind fun _ => local_pure _
  exact hr.expression.bind fun _ => (local_expect s s' _ _).bind fun _ => local_pure _

theorem local_parenthesized :
    Local (parenthesized s inside) (parenthesized s' inside') := by
  refine (local_expect s s' _ _).bind fun _ => local_enter s s' h fun rules rules' hr => ?_
  exact hr.expression.bind fun _ => (local_expect s s' _ _).bind fun _ => local_pure _

/-! ### Expressions -/

theorem local_primary : Local (primary s inside) (primary s' inside') := by
  have hprogress := insideProgresses_left h
  refine (local_look s s').bind fun t => ?_
  split
  · exact local_bracketedList s s' h
  · exact local_string s s'
  · refine local_follower_bind (fun k => ?_) fun k => ?_
    · split
      · exact (begins_call s hprogress).progresses
      · exact (begins_arrayAccess s hprogress).progresses
      · exact (begins_scopeAccess s).progresses
      · exact (begins_identifier s).progresses
    · split
      · exact local_call s s' h
      · exact local_arrayAccess s s' h
      · exact local_scopeAccess s s'
      · exact local_identifier s s'
  · exact local_parenthesized s s' h
  · exact local_integer s s'
  · exact local_integer s s'
  · exact local_failAt s _

theorem local_unary : Local (unary s inside) (unary s' inside') := by
  refine (local_look s s').bind fun t => Local.ite ?_ (local_primary s s' h)
  refine (local_skip s s').bind fun _ => ?_
  exact (local_enter s s' h fun _ _ hr => hr.unary).bind fun _ => local_ofExcept _

theorem local_expression : Local (expression s inside) (expression s' inside') := by
  rw [expression_eq, expression_eq]
  refine (local_unary s s' h).bind fun left => ?_
  exact .repeats (consuming_chainRound s (progresses_unary s (insideProgresses_left h)))
    (consuming_chainRound s' (progresses_unary s' (insideProgresses_right h)))
    (local_chainRound s s' (local_unary s s' h)) left

/-! ### Statements -/

theorem local_target : Local (target s inside) (target s' inside') := by
  have hprogress := insideProgresses_left h
  refine (local_isAt s s' _).bind fun _ => Local.ite ?_ (local_failAt s _)
  refine local_follower_bind (fun k => ?_) fun k => ?_
  · split
    · exact (begins_arrayAccess s hprogress).progresses
    · exact (begins_scopeAccess s).progresses
    · exact (begins_identifier s).progresses
  · split
    · exact local_arrayAccess s s' h
    · exact local_scopeAccess s s'
    · exact local_identifier s s'

theorem local_assignment : Local (assignment s inside) (assignment s' inside') := by
  refine (local_target s s' h).bind fun left => (local_look s s').bind fun t => ?_
  refine Local.ite ?_ (local_failAt s _)
  refine (local_skip s s').bind fun _ => ?_
  exact (local_expression s s' h).bind fun _ => local_ofExcept _

theorem local_statement : Local (statement s inside) (statement s' inside') := by
  have hprogress := insideProgresses_left h
  refine (local_isAt s s' _).bind fun _ => local_follower_bind (fun _ => ?_) fun _ => ?_
  · exact (begins_call s hprogress).progresses.ite (begins_assignment s hprogress).progresses
  · exact (local_call s s' h).ite (local_assignment s s' h)

theorem local_statements : Local (statements s inside) (statements s' inside') := by
  rw [statements_eq, statements_eq]
  exact .repeats
    (consuming_statementRound s (begins_statement s (insideProgresses_left h)).progresses)
    (consuming_statementRound s' (begins_statement s' (insideProgresses_right h)).progresses)
    (local_statementRound s s' (local_statement s s' h)) []

theorem local_statementList :
    Local (statementList s inside) (statementList s' inside') :=
  (local_look s s').bind fun _ => (local_statements s s' h).bind fun _ => local_pure _

end

/-! ### Levels -/

/-- The rules of every nesting are local: those for one nesting more are made of those for one
nesting less. -/
theorem local_insideOf (d : Nat) : Option.Rel LocalInside (insideOf s d) (insideOf s' d) := by
  induction d with
  | zero => exact .none
  | succ d ih =>
    exact .some ⟨local_unary s s' ih, local_expression s s' ih, local_statements s s' ih,
      progresses_insideOf s (d + 1) rfl, progresses_insideOf s' (d + 1) rfl⟩

theorem local_program (d : Nat) : Local (program s d) (program s' d) :=
  (local_statementList s s' (local_insideOf s s' d)).bind fun _ =>
    (local_ended s s').bind fun _ => local_pure _

end Grammar

/-! ### Rules by name -/

namespace Parser

open Grammar

/-- A parser's rules depend on its tokens by the place of the end of the input only. -/
theorem local_rule (p : Parser) (ts : List Token) (name : RuleName) :
    Rule.Local (p.rule name) ({ p with tokens := ts }.rule name) := by
  have h := local_insideOf p.setting { p with tokens := ts }.setting (p.limit - p.depth)
  cases name with
  | program => exact local_program _ _ _
  | statementList => exact local_statementList _ _ h
  | statement => exact local_statement _ _ h
  | assignment => exact local_assignment _ _ h
  | target => exact local_target _ _ h
  | block => exact local_block _ _ h
  | expression => exact local_expression _ _ h
  | unary => exact local_unary _ _ h
  | primary => exact local_primary _ _ h
  | bracketedList => exact local_bracketedList _ _ h
  | parenthesized => exact local_parenthesized _ _ h
  | call => exact local_call _ _ h
  | arrayAccess => exact local_arrayAccess _ _ h
  | scopeAccess => exact local_scopeAccess _ _
  | identifier => exact local_identifier _ _
  | string => exact local_string _ _
  | integer => exact local_integer _ _

section

variable {tokens ts u v : List Token} {t : Token} {i : Nat} (h : tokens.drop i = u ++ t :: v)

include h

/-- The position is told by the number of tokens that are left. -/
theorem length_sub_of_drop : tokens.length - (t :: v).length = i + u.length := by
  have hlength := congrArg List.length h
  rw [List.length_drop, List.length_append, List.length_cons] at hlength
  rw [List.length_cons]
  omega

/-- What stands from `i` on begins with the same tokens if they are at the same indices. -/
theorem drop_of_agrees (hsame : ∀ j, i ≤ j → j ≤ i + u.length → ts[j]? = tokens[j]?) :
    ts.drop i = u ++ t :: ts.drop (i + u.length + 1) := by
  have htake : (ts.drop i).take (u.length + 1) = (tokens.drop i).take (u.length + 1) := by
    refine List.ext_getElem? fun j => ?_
    rw [List.getElem?_take, List.getElem?_take, List.getElem?_drop, List.getElem?_drop]
    split
    · exact hsame (i + j) (by omega) (by omega)
    · rfl
  rw [h, List.take_length_add_append] at htake
  calc ts.drop i
    _ = (ts.drop i).take (u.length + 1) ++ (ts.drop i).drop (u.length + 1) :=
      (List.take_append_drop _ _).symm
    _ = u ++ t :: ts.drop (i + u.length + 1) := by
      rw [htake, List.drop_drop, List.append_assoc]
      rfl

end

variable {p p' : Parser} {name : RuleName} {x : Node} {ts : List Token}

/-- **Rules look at most one token past what they consume.**  If a rule succeeds and leaves the
parser at one of its tokens, then on every list that holds the same tokens from the position on,
up to and including that one, it makes the same tree of them and leaves the parser at the same
position. -/
theorem parse_of_agrees (h : p.parse name = (.ok x, p')) (hleft : p'.position < p.tokens.length)
    (hsame : ∀ i, p.position ≤ i → i ≤ p'.position → ts[i]? = p.tokens[i]?) :
    { p with tokens := ts }.parse name = (.ok x, { p' with tokens := ts }) := by
  rcases hrule : p.rule name p.rest with ⟨answer, rest⟩
  rw [parse, run, hrule] at h
  obtain ⟨rfl, rfl⟩ := Prod.mk.inj h
  cases rest with
  | nil => exact absurd hleft (Nat.lt_irrefl _)
  | cons t v =>
    obtain ⟨u, hu, hlocal⟩ := local_rule p ts name _ x t v hrule
    -- the tokens of `u` are the ones between the two positions
    have hposition : p.tokens.length - (t :: v).length = p.position + u.length :=
      length_sub_of_drop hu
    simp only [hposition] at hsame ⊢
    have hdrop := drop_of_agrees hu hsame
    have hrule' : { p with tokens := ts }.rule name (ts.drop p.position) =
        (.ok x, t :: ts.drop (p.position + u.length + 1)) := by
      rw [hdrop]
      exact hlocal _
    rw [parse, run, Parser.rest, hrule']
    simp only [length_sub_of_drop hdrop]

/-- A call looks for its body at the token behind its parenthesis.  What comes behind that token,
or before the call, it does not look at. -/
theorem parse_of_agrees_call :
    let call : List Token := [⟨.ident, "f", ⟨1, 1⟩⟩, ⟨.symbol .lparen, "(", ⟨1, 2⟩⟩,
      ⟨.ident, "z", ⟨1, 3⟩⟩, ⟨.symbol .rparen, ")", ⟨1, 4⟩⟩, ⟨.symbol .rbrack, "]", ⟨1, 5⟩⟩]
    let p : Parser :=
      ⟨⟨.stray, "$", ⟨1, 1⟩⟩ :: call ++ [⟨.symbol .lbrace, "\x7b", ⟨1, 6⟩⟩], 1, 2, 1⟩
    let ts : List Token := ⟨.symbol .dot, ".", ⟨0, 0⟩⟩ :: call
    let x : Node := .call "f" (.list [.identifier "z" ⟨1, 3⟩] ⟨1, 2⟩) none ⟨1, 1⟩
    p.parse .statement = (.ok x, { p with position := 5 }) ∧ 5 < p.tokens.length ∧
      (∀ i, 1 ≤ i → i ≤ 5 → ts[i]? = p.tokens[i]?) ∧
      { p with tokens := ts }.parse .statement = (.ok x, ⟨ts, 5, 2, 1⟩) := by
  intro call p ts x
  have h : p.parse .statement = (.ok x, { p with position := 5 }) := rfl
  have hleft : 5 < p.tokens.length := by decide
  have hsame : ∀ i, 1 ≤ i → i ≤ 5 → ts[i]? = p.tokens[i]? := by
    intro i hi hi'
    obtain ⟨j, rfl⟩ := Nat.exists_eq_add_of_le' hi
    have hlt : j < call.length := Nat.lt_of_succ_le hi'
    exact (List.getElem?_append_left hlt).symm
  exact ⟨h, hleft, hsame, parse_of_agrees h hleft hsame⟩

end Parser

end GnLang
