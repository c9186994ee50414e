/-
Parsing rules that work on a parser.

Here each rule of the grammar is a procedure that moves a parser's position over its tokens and
counts, in the parser, the nestings that are open.  A nesting is counted when it is opened, the
count is then compared with the limit, and when the nesting is left, by an answer or by a
failure, it is counted no longer.

The rules for the inside of a nesting are made, as in the grammar, from those for one nesting
less, and a repetition has a list of rounds.  But neither of these decides anything here: a step
that is left without rules or without rounds is stuck, and has no answer at all.

* `Descent` — a parser, with the greatest count there has been;
* `Descent.nested` — what is done inside a nesting;
* `Descent.rule` — the rules by their names;
* `Parser.descend` — runs a rule on a parser.
-/
import GnLang.Parser

namespace GnLang

/-- A parser at work, and the most nestings that it has counted as open at once. -/
structure Descent extends Parser where
  deepest : Nat
  deriving Repr

namespace Descent

/-- What a parser does step by step.  A step that fails leaves the parser as it is then. -/
abbrev Step := ExceptT Failure (StateT Descent Option)

/-- Takes a step: the answer and the parser afterwards, unless the step is stuck. -/
def Step.after {α : Type} (step : Step α) (d : Descent) : Option (Except Failure α × Descent) :=
  StateT.run (ExceptT.run step) d

/-- No step can be taken. -/
def stuck {α : Type} : Step α := ExceptT.mk fun _ => none

/-! ### Tokens -/

/-- The token at the position. -/
def look : Step Token := return (← get).front

/-- The kind of the token behind the one at the position. -/
def follower : Step TokenKind := return Grammar.secondKind (← get).rest

/-- The tokens from the position on. -/
def remaining : Step (List Token) := return (← get).rest

/-- Moves over the token at the position, unless it is the end of the input. -/
def advance : Step Token := do
  let t ← look
  if t.kind = .endOfInput then return t
  else
    modify fun d => { d with position := d.position + 1 }
    return t

/-- Moves over the token at the position and forgets it. -/
def skip : Step Unit := do
  let _ ← advance
  return ()

/-- Whether the token at the position is of one of the kinds. -/
def isAt (kinds : List TokenKind) : Step Bool := return kinds.contains (← look).kind

/-- Fails because `expected` should stand at the position. -/
def failAt {α : Type} (expected : String) : Step α := do
  throw (.parse (.unexpected expected (← look)))

/-- Moves over a token of one of the kinds, which a failure calls `expected`. -/
def expect (kinds : List TokenKind) (expected : String) : Step Token := do
  if ← isAt kinds then advance else failAt expected

/-- Fails unless the input is at its end. -/
def ended : Step Unit := do
  let t ← look
  if t.kind = .endOfInput then return () else throw (.parse (.leftOver t))

/-- An answer that is already known. -/
def answer {α : Type} (a : Except Failure α) : Step α := ExceptT.mk (pure a)

/-- The answer of a check. -/
def check {α : Type} (a : Except Node.Fault α) : Step α := answer (a.mapError .node)

/-! ### Nestings -/

/-- The rules that the inside of a nesting is parsed by. -/
structure Inside where
  unary : Step Node
  expression : Step Node
  statements : Step (List Node)

/-- A parser in which one nesting more is counted. -/
def raised (d : Descent) : Descent :=
  { d with depth := d.depth + 1, deepest := max d.deepest (d.depth + 1) }

/-- A parser in which one nesting less is counted. -/
def lowered (d : Descent) : Descent := { d with depth := d.depth - 1 }

/-- Fails if more nestings are counted than may be open. -/
def permit : Step Unit := do
  let d ← get
  if d.limit < d.depth then throw (.parse ⟨.tooDeep d.limit, d.front.pos⟩) else return ()

/-- The rules for the inside of a nesting do something. -/
def byRules {α : Type} (inside : Option Inside) (body : Inside → Step α) : Step α :=
  match inside with
  | some rules => body rules
  | none => stuck

/-- Does something inside a nesting.  The nesting is counted before the count is compared with
the limit, and no longer counted afterwards, whether there is an answer or a failure. -/
def nested {α : Type} (inside : Option Inside) (body : Inside → Step α) : Step α :=
  ExceptT.mk do
    modify raised
    let answer ← ExceptT.run (permit >>= fun _ => byRules inside body)
    modify lowered
    return answer

/-! ### Words, strings and numbers -/

/-- A word that stands for itself. -/
def identifier : Step Node := do
  let t ← expect [.ident] "identifier"
  return .identifier t.text t.pos

/-- A string literal. -/
def string : Step Node := do
  let t ← expect [.string] "string literal"
  return .string t.text t.pos

/-- An integer with an optional minus sign; its place is that of the sign. -/
def integer : Step Node := do
  let start ← look
  let negative ← isAt [.symbol .sub]
  if negative then skip
  let t ← expect [.number] "integer literal"
  answer (Grammar.integerOf negative start.pos t.text)

/-- A word of a scope: two words with a dot between them. -/
def scopeAccess : Step Node := do
  let scope ← expect [.ident] "identifier"
  let _ ← expect [.symbol .dot] "'.'"
  let name ← expect [.ident] "identifier after '.'"
  return .scopeAccess scope.text name.text scope.pos

/-! ### Repetitions -/

/-- The items of a list literal, after those in `done`, last first. -/
def elements (item : Step Node) (rounds : List Token) (done : List Node) :
    Step (List Node) := do
  if ← isAt [.symbol .rbrack] then return done.reverse
  else if ← isAt [.endOfInput] then failAt "']' to close list"
  else
    let x ← item
    if ← isAt [.symbol .comma] then skip
    match rounds with
    | [] => stuck
    | _ :: rounds => elements item rounds (x :: done)
  termination_by structural rounds

/-- The arguments of a call, after those in `done`, last first. -/
def arguments (item : Step Node) (rounds : List Token) (done : List Node) :
    Step (List Node) := do
  if ← isAt [.symbol .rparen] then return done.reverse
  else
    let x ← item
    if ← isAt [.symbol .comma] then
      skip
      match rounds with
      | [] => stuck
      | _ :: rounds => arguments item rounds (x :: done)
    else return (x :: done).reverse
  termination_by structural rounds

/-- The operators and operands that follow the operand `left`, folded to the left. -/
def chain (operand : Step Node) (rounds : List Token) (left : Node) : Step Node := do
  let t ← look
  if t.kind.isBinary then
    skip
    let right ← operand
    let left ← check (Node.binary? left t.text right left.pos)
    match rounds with
    | [] => stuck
    | _ :: rounds => chain operand rounds left
  else return left
  termination_by structural rounds

/-- Statements, after those in `done`, last first, for as long as a word begins one. -/
def repeated (statement : Step Node) (rounds : List Token) (done : List Node) :
    Step (List Node) := do
  if ← isAt [.ident] then
    let x ← statement
    match rounds with
    | [] => stuck
    | _ :: rounds => repeated statement rounds (x :: done)
  else return done.reverse
  termination_by structural rounds

/-! ### Lists, calls and accesses -/

variable (inside : Option Inside)

/-- A list literal, placed at its opening bracket. -/
def bracketedList : Step Node := do
  let opening ← expect [.symbol .lbrack] "'['"
  let xs ← nested inside fun rules => do
    let xs ← elements rules.expression (← remaining) []
    let _ ← expect [.symbol .rbrack] "']' to close list"
    return xs
  return .list xs opening.pos

/-- Statements between braces; the list is placed at the opening brace. -/
def block : Step Node := do
  let opening ← expect [.symbol .lbrace] "'\x7b'"
  let xs ← nested inside fun rules => do
    let xs ← rules.statements
    let _ ← expect [.symbol .rbrace] "'\x7d' to close block"
    return xs
  return .list xs opening.pos

/-- A call; its body belongs to it whenever an opening brace follows. -/
def call : Step Node := do
  let name ← expect [.ident] "function name"
  let opening ← expect [.symbol .lparen] "'('"
  let args ← nested inside fun rules => do
    let args ← arguments rules.expression (← remaining) []
    let _ ← expect [.symbol .rparen] "')' to close call arguments"
    return args
  if ← isAt [.symbol .lbrace] then
    let body ← block inside
    return .call name.text (.list args opening.pos) (some body) name.pos
  else return .call name.text (.list args opening.pos) none name.pos

/-- An element of an array: a word, and an index between brackets. -/
def arrayAccess : Step Node := do
  let name ← expect [.ident] "identifier"
  let _ ← expect [.symbol .lbrack] "'['"
  let index ← nested inside fun rules => do
    let index ← rules.expression
    let _ ← expect [.symbol .rbrack] "']' to close array index"
    return index
  return .arrayAccess name.text index name.pos

/-- An expression between parentheses, which leave no trace in the tree. -/
def parenthesized : Step Node := do
  let _ ← expect [.symbol .lparen] "'('"
  nested inside fun rules => do
    let x ← rules.expression
    let _ ← expect [.symbol .rparen] "')'"
    return x

/-! ### Expressions -/

/-- An operand.  What it is shows in its first token and, for a word, in the next. -/
def primary : Step Node := do
  match (← look).kind with
  | .symbol .lbrack => bracketedList inside
  | .string => string
  | .ident =>
    match ← follower with
    | .symbol .lparen => call inside
    | .symbol .lbrack => arrayAccess inside
    | .symbol .dot => scopeAccess
    | _ => identifier
  | .symbol .lparen => parenthesized inside
  | .number | .symbol .sub => integer
  | _ => failAt "expression"

/-- An operand, or an operator before one.  The operand of an operator is a nesting. -/
def unary : Step Node := do
  let t ← look
  if t.kind.isUnary then
    skip
    let x ← nested inside fun rules => rules.unary
    check (Node.unary? t.text x t.pos)
  else primary inside

/-- Operands with operators between them. -/
def expression : Step Node := do
  let left ← unary inside
  chain (unary inside) (← remaining) left

/-! ### Statements -/

/-- What may stand on the left of an assignment. -/
def target : Step Node := do
  if ← isAt [.ident] then
    match ← follower with
    | .symbol .lbrack => arrayAccess inside
    | .symbol .dot => scopeAccess
    | _ => identifier
  else failAt "assignment target"

/-- An assignment, placed at its target. -/
def assignment : Step Node := do
  let left ← target inside
  let t ← look
  if t.kind.isAssign then
    skip
    let value ← expression inside
    check (Node.assignment? left t.text value left.pos)
  else failAt "assignment operator ('=', '+=' or '-=')"

/-- A word with an opening parenthesis after it begins a call; all else should be an
assignment. -/
def statement : Step Node := do
  if (← isAt [.ident]) && (← follower) == .symbol .lparen then call inside
  else assignment inside

/-- Statements up to the first token that begins none. -/
def statements : Step (List Node) := do
  repeated (statement inside) (← remaining) []

/-- Statements as a list placed at the token they begin with. -/
def statementList : Step Node := do
  let start ← look
  let xs ← statements inside
  return .list xs start.pos

/-- A whole program: statements to the end of the input. -/
def program : Step Node := do
  let x ← statementList inside
  ended
  return x

/-! ### Levels -/

/-- The rules for the inside of a nesting, with `levels` of rules below one another. -/
def insideOf : (levels : Nat) → Option Inside
  | 0 => none
  | levels + 1 =>
    let deeper := insideOf levels
    some ⟨unary deeper, expression deeper, statements deeper⟩

/-- The rule of the given name. -/
def rule : RuleName → Step Node
  | .program => program inside
  | .statementList => statementList inside
  | .statement => statement inside
  | .assignment => assignment inside
  | .target => target inside
  | .block => block inside
  | .expression => expression inside
  | .unary => unary inside
  | .primary => primary inside
  | .bracketedList => bracketedList inside
  | .parenthesized => parenthesized inside
  | .call => call inside
  | .arrayAccess => arrayAccess inside
  | .scopeAccess => scopeAccess
  | .identifier => identifier
  | .string => string
  | .integer => integer

end Descent

/-- Runs the rule of the given name on the parser, with `levels` of rules below one another. -/
def Parser.descend (p : Parser) (levels : Nat) (name : RuleName) :
    Option (Except Failure Node × Descent) :=
  (Descent.rule (Descent.insideOf levels) name).after ⟨p, p.depth⟩

end GnLang
