/-
Parsing whole texts, and token lists step by step.

* `readProgram` and `readExpression` — a program, or a single expression, from a text;
* `readProgramWithin` — a program, where the nesting limit may be unset;
* `Parser` — a list of tokens with a position in it, on which single rules can be run.
  A rule that fails leaves the position where it failed, so that a caller can see it,
  and every rule leaves the nesting depth as it was.
-/
import GnLang.Grammar.Rules
import GnLang.Index
import GnLang.Scan

namespace GnLang

/-- A list of tokens that is being parsed: the number of tokens consumed, the nesting
limit, and the nestings open around the position. -/
structure Parser where
  tokens : List Token
  position : Nat
  limit : Nat
  depth : Nat
  deriving Repr

namespace Parser

/-- A parser at the first of the tokens.  The limit must be one that can be kept. -/
def ofTokens? (tokens : List Token) (limit : Int) : Except Failure Parser :=
  if 1 ≤ limit ∧ limit ≤ Grammar.greatestLimit then .ok ⟨tokens, 0, limit.toNat, 0⟩
  else .error (.limit limit)

variable (p : Parser)

/-- The tokens that are left. -/
def rest : List Token := p.tokens.drop p.position

/-- What rules need to know: the end of the input is placed at the last token. -/
def setting : Grammar.Setting :=
  ⟨match p.tokens.getLast? with
    | some t => t.pos
    | none => .start, p.limit⟩

/-- The rules for the inside of the next nesting. -/
def inside : Option Grammar.Inside := Grammar.insideOf p.setting (p.limit - p.depth)

/-- Runs a rule at the position.  The position moves over the tokens it consumed. -/
def run {α : Type} (rule : Rule α) : Except Failure α × Parser :=
  let (answer, rest) := rule p.rest
  (answer, { p with position := p.tokens.length - rest.length })

/-- The token at the position. -/
def front : Token := Grammar.front p.setting p.rest

/-- The token `offset` places on; before the first token, tokens count from the end, and
past the last one stands the end of the input. -/
def ahead (offset : Int) : Except Failure Token :=
  let index := p.position + offset
  if p.tokens.length ≤ index then .ok (.endAt .unknown)
  else match pick? p.tokens index with
    | some t => .ok t
    | none => .error .noToken

end Parser

/-! ### Rules by name -/

/-- The rules that a parser can be asked to run, each with a tree as its answer. -/
inductive RuleName where
  | program | statementList | statement | assignment | target | block
  | expression | unary | primary
  | bracketedList | parenthesized | call | arrayAccess | scopeAccess
  | identifier | string | integer
  deriving DecidableEq, Repr

namespace Parser

/-- The rule of the given name, at the parser's depth. -/
def rule (p : Parser) : RuleName → Rule Node
  | .program => Grammar.program p.setting (p.limit - p.depth)
  | .statementList => Grammar.statementList p.setting p.inside
  | .statement => Grammar.statement p.setting p.inside
  | .assignment => Grammar.assignment p.setting p.inside
  | .target => Grammar.target p.setting p.inside
  | .block => Grammar.block p.setting p.inside
  | .expression => Grammar.expression p.setting p.inside
  | .unary => Grammar.unary p.setting p.inside
  | .primary => Grammar.primary p.setting p.inside
  | .bracketedList => Grammar.bracketedList p.setting p.inside
  | .parenthesized => Grammar.parenthesized p.setting p.inside
  | .call => Grammar.call p.setting p.inside
  | .arrayAccess => Grammar.arrayAccess p.setting p.inside
  | .scopeAccess => Grammar.scopeAccess p.setting
  | .identifier => Grammar.identifier p.setting
  | .string => Grammar.string p.setting
  | .integer => Grammar.integer p.setting

/-- Parses the construct of the given name at the position. -/
def parse (p : Parser) (name : RuleName) : Except Failure Node × Parser :=
  p.run (p.rule name)

end Parser

/-! ### Texts -/

/-- A parser for the tokens of a text.  Faults of the text come before those of the
limit. -/
def Parser.ofSource? (source : String) (limit : Int) : Except Failure Parser :=
  match scanTokens source with
  | .ok tokens => Parser.ofTokens? tokens limit
  | .error e => .error (.parse e)

/-- The program that a text holds. -/
def readProgram (source : String) (limit : Int := Grammar.defaultLimit) :
    Except Failure Node := do
  let p ← Parser.ofSource? source limit
  (p.run (Grammar.program p.setting p.limit)).1

/-- The program that a text holds, by a limit that may be unset.  Faults of the text come
before that of a limit which is missing. -/
def readProgramWithin (source : String) : (limit : Option Int) → Except Failure Node
  | some limit => readProgram source limit
  | none =>
    match scanTokens source with
    | .ok _ => .error .noLimit
    | .error e => .error (.parse e)

/-- The single expression that a text holds. -/
def readExpression (source : String) (limit : Int := Grammar.defaultLimit) :
    Except Failure Node := do
  let p ← Parser.ofSource? source limit
  (p.run (Grammar.loneExpression p.setting p.limit)).1

end GnLang
