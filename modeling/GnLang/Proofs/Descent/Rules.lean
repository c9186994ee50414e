/-
Rules that work on a parser follow the grammar.

* `Descent.follows_elements`, … — repetitions, which have rounds enough;
* `Descent.followsAll_bracketedList`, … — each rule, if the rules inside it follow the grammar;
* `Descent.mirrors_insideOf` — so do the rules of every level;
* `Parser.descend_keeps` — what each rule does to a parser.
-/
import GnLang.Proofs.Descent.Steps
import GnLang.Proofs.Grammar.Progress

namespace GnLang.Descent

open Grammar

variable {α β : Type} {d : Descent} {s : Setting} {b : Nat} {m : Step α} {r : Rule α}

/-! ### Words, strings and numbers -/

theorem followsAll_identifier : FollowsAll s b identifier (Grammar.identifier s) :=
  (followsAll_expect _ _).bind fun _ => followsAll_pure _

theorem followsAll_string : FollowsAll s b string (Grammar.string s) :=
  (followsAll_expect _ _).bind fun _ => followsAll_pure _

theorem followsAll_scopeAccess : FollowsAll s b scopeAccess (Grammar.scopeAccess s) :=
  (followsAll_expect _ _).bind fun _ => (followsAll_expect _ _).bind fun _ =>
    (followsAll_expect _ _).bind fun _ => followsAll_pure _

theorem followsAll_integer : FollowsAll s b integer (Grammar.integer s) := by
  refine followsAll_look.bind fun start => (followsAll_isAt _).bind fun negative => ?_
  have hunsigned : FollowsAll s b (expect [.number] "integer literal" >>= fun t =>
      answer (integerOf negative start.pos t.text)) (Grammar.expect s [.number] "integer literal"
        >>= fun t => Rule.answer (integerOf negative start.pos t.text)) :=
    (followsAll_expect _ _).bind fun t => followsAll_answer _
  exact (followsAll_skip.bind fun _ => hunsigned).ite hunsigned

/-! ### Repetitions -/

-- A repetition with its first round written out, whatever rounds it has.

theorem elements_eq (item : Step Node) (rounds : List Token) (done : List Node) :
    elements item rounds done = (do
      if ← isAt [.symbol .rbrack] then return done.reverse
      else if ← isAt [.endOfInput] then failAt "']' to close list"
      else
        let x ← item
        if ← isAt [.symbol .comma] then skip
        match rounds with
        | [] => stuck
        | _ :: rounds => elements item rounds (x :: done)) := by
  cases rounds <;> rfl

theorem arguments_eq (item : Step Node) (rounds : List Token) (done : List Node) :
    arguments item rounds done = (do
      if ← isAt [.symbol .rparen] then return done.reverse
      else
        let x ← item
        if ← isAt [.symbol .comma] then
          skip
          match rounds with
          | [] => stuck
          | _ :: rounds => arguments item rounds (x :: done)
        else return (x :: done).reverse) := by
  cases rounds <;> rfl

theorem chain_eq (operand : Step Node) (rounds : List Token) (left : Node) :
    chain operand rounds left = (do
      let t ← look
      if t.kind.isBinary then
        skip
        let right ← operand
        let left ← check (Node.binary? left t.text right left.pos)
        match rounds with
        | [] => stuck
        | _ :: rounds => chain operand rounds left
      else return left) := by
  cases rounds <;> rfl

theorem repeated_eq (statement : Step Node) (rounds : List Token) (done : List Node) :
    repeated statement rounds done = (do
      if ← isAt [.ident] then
        let x ← statement
        match rounds with
        | [] => stuck
        | _ :: rounds => repeated statement rounds (x :: done)
      else return done.reverse) := by
  cases rounds <;> rfl

section

variable {f : α → Step β} {g : α → Rule β} (hd : d.Fits s b)

include hd

/-- After a rule that progresses there are fewer tokens left. -/
theorem follows_progressing (hm : FollowsAll s b m r) (hr : r.Progresses)
    (hf : ∀ x d', d'.Fits s b → d'.rest.length < d.rest.length → Follows (f x) (g x) d') :
    Follows (m >>= f) (r >>= g) d :=
  (hm d hd).bind fun x d' hkeeps hrest => hf x d' (hd.keeps hkeeps) (hr.consumes x _ _ hrest)

theorem follows_advancing (hm : FollowsAll s b m r) (hr : r.Advances)
    (hf : ∀ x d', d'.Fits s b → d'.rest.length ≤ d.rest.length → Follows (f x) (g x) d') :
    Follows (m >>= f) (r >>= g) d :=
  (hm d hd).bind fun x d' hkeeps hrest => hf x d' (hd.keeps hkeeps) (hr.length_le hrest)

end

theorem follows_isAt_bind {f : Bool → Step β} {g : Bool → Rule β} (hd : d.Fits s b)
    {kinds : List TokenKind} (hf : ∀ x, Follows (f x) (g x) d) :
    Follows (isAt kinds >>= f) (Grammar.isAt s kinds >>= g) d := by
  have hrest : Grammar.isAt s kinds d.rest = (.ok (kinds.contains d.front.kind), d.rest) := by
    rw [Grammar.isAt, hd.front]
  rw [Follows, Rule.bind_of_ok hrest]
  exact hf _

theorem follows_look_bind {f : Token → Step β} {g : Token → Rule β} (hd : d.Fits s b)
    (hf : ∀ t, Follows (f t) (g t) d) : Follows (look >>= f) (Grammar.look s >>= g) d := by
  rw [Follows, look_bind, ← hd.front]
  exact hf _

section

variable {item : Step Node} {item' : Rule Node} (hitem : FollowsAll s b item item')
  (hprogress : item'.Progresses)

include hitem hprogress

/-- There are rounds enough for the items of a list literal: each item uses up a token. -/
theorem follows_elements (rounds : List Token) (done : List Node) {d : Descent}
    (hd : d.Fits s b) (hrounds : d.rest.length ≤ rounds.length) :
    Follows (elements item rounds done) (Grammar.elements s item' rounds done) d := by
  rw [elements_eq, Grammar.elements.eq_def]
  refine follows_isAt_bind hd fun _ => .ite (follows_pure _ d) ?_
  refine follows_isAt_bind hd fun _ => .ite (followsAll_failAt _ d hd) ?_
  refine follows_progressing hd hitem hprogress fun x d₁ hd₁ hlt => ?_
  have hlt := Nat.lt_of_lt_of_le hlt hrounds
  cases rounds with
  | nil => exact absurd hlt (Nat.not_lt_zero _)
  | cons t rounds =>
    -- with or without a comma, the next round begins with no more tokens than now
    have hnext : ∀ d₂ : Descent, d₂.Fits s b → d₂.rest.length ≤ d₁.rest.length →
        Follows (elements item rounds (x :: done)) (Grammar.elements s item' rounds (x :: done))
          d₂ := fun d₂ hd₂ hle =>
      follows_elements rounds (x :: done) hd₂ (Nat.le_trans hle (Nat.le_of_lt_succ hlt))
    refine follows_isAt_bind hd₁ fun _ => .ite ?_ (hnext d₁ hd₁ (Nat.le_refl _))
    exact follows_advancing hd₁ followsAll_skip (advances_skip s) fun _ => hnext

theorem follows_arguments (rounds : List Token) (done : List Node) {d : Descent}
    (hd : d.Fits s b) (hrounds : d.rest.length ≤ rounds.length) :
    Follows (arguments item rounds done) (Grammar.arguments s item' rounds done) d := by
  rw [arguments_eq, Grammar.arguments.eq_def]
  refine follows_isAt_bind hd fun _ => .ite (follows_pure _ d) ?_
  refine follows_progressing hd hitem hprogress fun x d₁ hd₁ hlt => ?_
  refine follows_isAt_bind hd₁ fun _ => .ite ?_ (follows_pure _ d₁)
  refine follows_advancing hd₁ followsAll_skip (advances_skip s) fun _ d₂ hd₂ hle => ?_
  have hlt := Nat.lt_of_lt_of_le (Nat.lt_of_le_of_lt hle hlt) hrounds
  cases rounds with
  | nil => exact absurd hlt (Nat.not_lt_zero _)
  | cons t rounds => exact follows_arguments rounds (x :: done) hd₂ (Nat.le_of_lt_succ hlt)

theorem follows_chain (rounds : List Token) (left : Node) {d : Descent}
    (hd : d.Fits s b) (hrounds : d.rest.length ≤ rounds.length) :
    Follows (chain item rounds left) (Grammar.chain s item' rounds left) d := by
  rw [chain_eq, Grammar.chain.eq_def]
  refine follows_look_bind hd fun t => .ite ?_ (follows_pure _ d)
  refine follows_advancing hd followsAll_skip (advances_skip s) fun _ d₁ hd₁ hle => ?_
  refine follows_progressing hd₁ hitem hprogress fun right d₂ hd₂ hlt => ?_
  refine follows_advancing hd₂ (followsAll_check _) (Rule.advances_ofExcept _) fun x d₃ hd₃ hle' => ?_
  have hlt := Nat.lt_of_lt_of_le (Nat.lt_of_le_of_lt hle' hlt) (Nat.le_trans hle hrounds)
  cases rounds with
  | nil => exact absurd hlt (Nat.not_lt_zero _)
  | cons t rounds => exact follows_chain rounds x hd₃ (Nat.le_of_lt_succ hlt)

theorem follows_repeated (rounds : List Token) (done : List Node) {d : Descent}
    (hd : d.Fits s b) (hrounds : d.rest.length ≤ rounds.length) :
    Follows (repeated item rounds done) (Grammar.repeated s item' rounds done) d := by
  rw [repeated_eq, Grammar.repeated.eq_def]
  refine follows_isAt_bind hd fun _ => .ite ?_ (follows_pure _ d)
  refine follows_progressing hd hitem hprogress fun x d₁ hd₁ hlt => ?_
  have hlt := Nat.lt_of_lt_of_le hlt hrounds
  cases rounds with
  | nil => exact absurd hlt (Nat.not_lt_zero _)
  | cons t rounds => exact follows_repeated rounds (x :: done) hd₁ (Nat.le_of_lt_succ hlt)

end

section

variable {loop : List Token → Step α} {loop' : List Token → Rule α}
  (h : ∀ rounds d, Descent.Fits s b d → d.rest.length ≤ rounds.length →
    Follows (loop rounds) (loop' rounds) d)

include h

/-- A repetition has as many rounds as there are tokens left when it begins. -/
theorem followsAll_rounds : FollowsAll s b (remaining >>= loop) (Rule.remaining >>= loop') :=
  fun d hd => h d.rest d hd (Nat.le_refl _)

theorem followsAll_rounds_bind {f : α → Step β} {g : α → Rule β}
    (hf : ∀ x, FollowsAll s b (f x) (g x)) :
    FollowsAll s b (remaining >>= fun rounds => loop rounds >>= f)
      (Rule.remaining >>= fun rounds => loop' rounds >>= g) :=
  fun d hd => (h d.rest d hd (Nat.le_refl _)).bind fun x d' hkeeps _ => hf x d' (hd.keeps hkeeps)

end

/-! ### Rules -/

section

variable {inside : Option Inside} (h : Mirrors s b inside)

include h

theorem followsAll_bracketedList :
    FollowsAll s b (bracketedList inside) (Grammar.bracketedList s (Grammar.insideOf s b)) := by
  refine (followsAll_expect _ _).bind fun _ => ?_
  refine (followsAll_nested h fun b' rules hrules => ?_).bind fun _ => followsAll_pure _
  have hprogress := progresses_expression s fun _ => progresses_insideOf s b'
  refine followsAll_rounds_bind (fun rounds _ hd =>
    follows_elements hrules.expression hprogress rounds [] hd) fun _ => ?_
  exact (followsAll_expect _ _).bind fun _ => followsAll_pure _

theorem followsAll_block :
    FollowsAll s b (block inside) (Grammar.block s (Grammar.insideOf s b)) := by
  refine (followsAll_expect _ _).bind fun _ => ?_
  refine (followsAll_nested h fun b' rules hrules => ?_).bind fun _ => followsAll_pure _
  refine hrules.statements.bind fun _ => ?_
  exact (followsAll_expect _ _).bind fun _ => followsAll_pure _

theorem followsAll_call :
    FollowsAll s b (call inside) (Grammar.call s (Grammar.insideOf s b)) := by
  refine (followsAll_expect _ _).bind fun name => (followsAll_expect _ _).bind fun opening => ?_
  refine (followsAll_nested h fun b' rules hrules => ?_).bind fun args => ?_
  · have hprogress := progresses_expression s fun _ => progresses_insideOf s b'
    refine followsAll_rounds_bind (fun rounds _ hd =>
      follows_arguments hrules.expression hprogress rounds [] hd) fun _ => ?_
    exact (followsAll_expect _ _).bind fun _ => followsAll_pure _
  · refine (followsAll_isAt _).bind fun _ => FollowsAll.ite ?_ (followsAll_pure _)
    exact (followsAll_block h).bind fun _ => followsAll_pure _

theorem followsAll_arrayAccess :
    FollowsAll s b (arrayAccess inside) (Grammar.arrayAccess s (Grammar.insideOf s b)) := by
  refine (followsAll_expect _ _).bind fun name => (followsAll_expect _ _).bind fun _ => ?_
  refine (followsAll_nested h fun b' rules hrules => ?_).bind fun _ => followsAll_pure _
  refine hrules.expression.bind fun _ => ?_
  exact (followsAll_expect _ _).bind fun _ => followsAll_pure _

theorem followsAll_parenthesized :
    FollowsAll s b (parenthesized inside) (Grammar.parenthesized s (Grammar.insideOf s b)) := by
  refine (followsAll_expect _ _).bind fun _ => followsAll_nested h fun b' rules hrules => ?_
  refine hrules.expression.bind fun _ => ?_
  exact (followsAll_expect _ _).bind fun _ => followsAll_pure _

theorem followsAll_primary :
    FollowsAll s b (primary inside) (Grammar.primary s (Grammar.insideOf s b)) := by
  refine followsAll_look.bind fun t => ?_
  generalize t.kind = k
  cases k with
  | ident =>
    refine followsAll_follower.bind fun k => ?_
    cases k with
    | symbol y =>
      cases y with
      | lparen => exact followsAll_call h
      | lbrack => exact followsAll_arrayAccess h
      | dot => exact followsAll_scopeAccess
      | _ => exact followsAll_identifier
    | _ => exact followsAll_identifier
  | string => exact followsAll_string
  | number => exact followsAll_integer
  | symbol y =>
    cases y with
    | lbrack => exact followsAll_bracketedList h
    | lparen => exact followsAll_parenthesized h
    | sub => exact followsAll_integer
    | _ => exact followsAll_failAt _
  | _ => exact followsAll_failAt _

theorem followsAll_unary :
    FollowsAll s b (unary inside) (Grammar.unary s (Grammar.insideOf s b)) := by
  refine followsAll_look.bind fun t => FollowsAll.ite ?_ (followsAll_primary h)
  refine followsAll_skip.bind fun _ => ?_
  exact (followsAll_nested h fun _ _ hrules => hrules.unary).bind fun _ => followsAll_check _

theorem followsAll_expression :
    FollowsAll s b (expression inside) (Grammar.expression s (Grammar.insideOf s b)) := by
  have hprogress := progresses_unary s fun _ => progresses_insideOf s b
  refine (followsAll_unary h).bind fun left => ?_
  exact followsAll_rounds fun rounds _ hd =>
    follows_chain (followsAll_unary h) hprogress rounds left hd

theorem followsAll_target :
    FollowsAll s b (target inside) (Grammar.target s (Grammar.insideOf s b)) := by
  refine (followsAll_isAt _).bind fun _ => FollowsAll.ite ?_ (followsAll_failAt _)
  refine followsAll_follower.bind fun k => ?_
  cases k with
  | symbol y =>
    cases y with
    | lbrack => exact followsAll_arrayAccess h
    | dot => exact followsAll_scopeAccess
    | _ => exact followsAll_identifier
  | _ => exact followsAll_identifier

theorem followsAll_assignment :
    FollowsAll s b (assignment inside) (Grammar.assignment s (Grammar.insideOf s b)) := by
  refine (followsAll_target h).bind fun left => followsAll_look.bind fun t => ?_
  refine FollowsAll.ite ?_ (followsAll_failAt _)
  refine followsAll_skip.bind fun _ => ?_
  exact (followsAll_expression h).bind fun _ => followsAll_check _

theorem followsAll_statement :
    FollowsAll s b (statement inside) (Grammar.statement s (Grammar.insideOf s b)) := by
  refine (followsAll_isAt _).bind fun _ => followsAll_follower.bind fun _ => ?_
  exact (followsAll_call h).ite (followsAll_assignment h)

theorem followsAll_statements :
    FollowsAll s b (statements inside) (Grammar.statements s (Grammar.insideOf s b)) := by
  have hprogress := (begins_statement s fun _ => progresses_insideOf s b).progresses
  exact followsAll_rounds fun rounds _ hd =>
    follows_repeated (followsAll_statement h) hprogress rounds [] hd

theorem followsAll_statementList :
    FollowsAll s b (statementList inside) (Grammar.statementList s (Grammar.insideOf s b)) :=
  followsAll_look.bind fun _ => (followsAll_statements h).bind fun _ => followsAll_pure _

theorem followsAll_program :
    FollowsAll s b (program inside) (Grammar.program s b) :=
  (followsAll_statementList h).bind fun _ => followsAll_ended.bind fun _ => followsAll_pure _

end

/-- With levels enough, there are rules for the inside of each nesting that may be opened. -/
theorem mirrors_insideOf {levels : Nat} (hb : b ≤ levels) : Mirrors s b (insideOf levels) := by
  -- all rules below the outermost level are those of one level less, with one nesting less
  induction levels generalizing b with
  | zero =>
    rintro b' rfl
    exact absurd hb (Nat.not_succ_le_zero b')
  | succ levels ih =>
    rintro b' rfl
    have h : Mirrors s b' (insideOf levels) := ih (Nat.le_of_succ_le_succ hb)
    exact ⟨_, rfl, followsAll_unary h, followsAll_expression h, followsAll_statements h⟩

/-! ### Rules by name -/

theorem followsAll_rule (p : Parser) {levels : Nat} (hlevels : p.limit - p.depth ≤ levels) :
    ∀ name, FollowsAll p.setting (p.limit - p.depth) (rule (insideOf levels) name) (p.rule name)
  | .program => followsAll_program (mirrors_insideOf hlevels)
  | .statementList => followsAll_statementList (mirrors_insideOf hlevels)
  | .statement => followsAll_statement (mirrors_insideOf hlevels)
  | .assignment => followsAll_assignment (mirrors_insideOf hlevels)
  | .target => followsAll_target (mirrors_insideOf hlevels)
  | .block => followsAll_block (mirrors_insideOf hlevels)
  | .expression => followsAll_expression (mirrors_insideOf hlevels)
  | .unary => followsAll_unary (mirrors_insideOf hlevels)
  | .primary => followsAll_primary (mirrors_insideOf hlevels)
  | .bracketedList => followsAll_bracketedList (mirrors_insideOf hlevels)
  | .parenthesized => followsAll_parenthesized (mirrors_insideOf hlevels)
  | .call => followsAll_call (mirrors_insideOf hlevels)
  | .arrayAccess => followsAll_arrayAccess (mirrors_insideOf hlevels)
  | .scopeAccess => followsAll_scopeAccess
  | .identifier => followsAll_identifier
  | .string => followsAll_string
  | .integer => followsAll_integer

end GnLang.Descent

namespace GnLang.Parser

open Grammar

variable {p : Parser} {name : RuleName}

/-- All rules but the lists of statements consume a token when they succeed. -/
theorem progresses_rule (p : Parser) (hprogram : name ≠ .program)
    (hlist : name ≠ .statementList) : (p.rule name).Progresses := by
  have h : ∀ rules, p.inside = some rules → InsideProgresses rules :=
    fun _ => progresses_insideOf p.setting _
  cases name with
  | program => exact absurd rfl hprogram
  | statementList => exact absurd rfl hlist
  | statement => exact (begins_statement _ h).progresses
  | assignment => exact (begins_assignment _ h).progresses
  | target => exact (begins_target _ h).progresses
  | block => exact (begins_block _ h).progresses
  | expression => exact progresses_expression _ h
  | unary => exact progresses_unary _ h
  | primary => exact progresses_primary _ h
  | bracketedList => exact (begins_bracketedList _ h).progresses
  | parenthesized => exact (begins_parenthesized _ h).progresses
  | call => exact (begins_call _ h).progresses
  | arrayAccess => exact (begins_arrayAccess _ h).progresses
  | scopeAccess => exact (begins_scopeAccess _).progresses
  | identifier => exact (begins_identifier _).progresses
  | string => exact (begins_string _).progresses
  | integer => exact progresses_integer _

/-- **What a rule does to a parser.**  From any position among the tokens and any count of open
nestings within the limit, no rule gets stuck, and each answers what the grammar says.  Whatever
it answers, the count is again what it was, the tokens and the limit are the same, and the
position has not gone back, nor past the tokens.  If it is a tree, the count never exceeded the
limit on the way, and every rule but the lists of statements has moved over a token. -/
theorem descend_keeps (p : Parser) (hposition : p.position ≤ p.tokens.length)
    (hdepth : p.depth ≤ p.limit) {levels : Nat} (hlevels : p.limit - p.depth ≤ levels)
    (name : RuleName) :
    ∃ answer d, p.descend levels name = some (answer, d) ∧ p.parse name = (answer, d.toParser) ∧
      d.depth = p.depth ∧ d.tokens = p.tokens ∧ d.limit = p.limit ∧
      p.position ≤ d.position ∧ d.position ≤ p.tokens.length ∧
      ∀ x, answer = .ok x → d.deepest ≤ p.limit ∧
        (name ≠ .program → name ≠ .statementList → p.position < d.position) := by
  have hfits : Descent.Fits p.setting (p.limit - p.depth) ⟨p, p.depth⟩ := by
    refine ⟨rfl, hposition, ?_⟩
    change p.depth + (p.limit - p.depth) = p.limit
    omega
  obtain ⟨answer, d, hafter, hrest, hkeeps, hdeep⟩ :=
    Descent.followsAll_rule p hlevels name ⟨p, p.depth⟩ hfits
  have hlength : d.position ≤ p.tokens.length := hkeeps.le_length hposition
  have htokens : d.tokens = p.tokens := hkeeps.tokens
  have hleft : d.rest.length = p.tokens.length - d.position := by
    rw [Parser.rest, List.length_drop, htokens]
  refine ⟨answer, d, hafter, ?_, hkeeps.depth, htokens, hkeeps.limit, hkeeps.le, hlength,
    fun x hx => ⟨?_, fun hprogram hlist => ?_⟩⟩
  · -- the grammar tells the position by the number of tokens it leaves
    change p.rule name p.rest = _ at hrest
    have hback : p.tokens.length - d.rest.length = d.position := by omega
    rw [parse, run, hrest]
    change (answer, Parser.mk p.tokens _ p.limit p.depth) = (answer, Parser.mk d.tokens _ _ _)
    rw [hback, htokens, show d.limit = p.limit from hkeeps.limit,
      show d.depth = p.depth from hkeeps.depth]
  · have hle : d.deepest ≤ d.limit := hdeep x hx hdepth
    rwa [show d.limit = p.limit from hkeeps.limit] at hle
  · have hlt := (progresses_rule p hprogram hlist).consumes x _ _ (hx ▸ hrest)
    change d.rest.length < p.rest.length at hlt
    rw [hleft, Parser.rest, List.length_drop] at hlt
    omega

/-- A second list literal inside the first is one nesting too many; it was counted when it was
refused, and afterwards none is counted. -/
theorem descend_keeps_deep :
    let p : Parser := ⟨[⟨.symbol .lbrack, "[", ⟨1, 1⟩⟩, ⟨.symbol .lbrack, "[", ⟨1, 2⟩⟩], 0, 1, 0⟩
    p.position ≤ p.tokens.length ∧ p.depth ≤ p.limit ∧ p.limit - p.depth ≤ 5 ∧
      ∃ d, p.descend 5 .bracketedList = some (.error (.parse ⟨.tooDeep 1, ⟨1, 2⟩⟩), d) ∧
        d.depth = 0 ∧ d.tokens = p.tokens ∧ d.limit = 1 := by
  intro p
  have hposition : p.position ≤ p.tokens.length := by decide
  have hdepth : p.depth ≤ p.limit := by decide
  have hlevels : p.limit - p.depth ≤ 5 := by decide
  obtain ⟨answer, d, hdescend, hparse, hkept, htokens, hlimit, -⟩ :=
    descend_keeps p hposition hdepth hlevels .bracketedList
  have hanswer : (p.parse .bracketedList).1 = .error (.parse ⟨.tooDeep 1, ⟨1, 2⟩⟩) := rfl
  rw [hparse] at hanswer
  change answer = _ at hanswer
  rw [hanswer] at hdescend
  exact ⟨hposition, hdepth, hlevels, d, hdescend, hkept, htokens, hlimit⟩

end GnLang.Parser
