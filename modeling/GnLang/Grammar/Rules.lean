/-
The grammar.

    program     ::= statement*
    statement   ::= call | target ('=' | '+=' | '-=') expression
    target      ::= WORD | WORD '[' expression ']' | WORD '.' WORD
    expression  ::= unary (operator unary)*
    unary       ::= '!' unary | primary
    primary     ::= '[' (expression ','?)* ']' | STRING | call | target
                  | '(' expression ')' | '-'? NUMBER
    call        ::= WORD '(' (expression (',' expression)* ','?)? ')' ('{' statement* '}')?

Operators between operands all bind equally tightly and to the left.  A word is a call,
an array access or a scope access if a '(', a '[' or a '.' follows it, and stands for
itself otherwise.

Each pair of brackets, and each '!', opens a nesting.  The rules for the inside of a
nesting are made from those for one nesting less, down to no rules at all: `insideOf s d`
are the rules for the inside of a nesting when `d` nestings may still be opened, and
`enter` fails where there are none.  So no rule refers to itself, and the grammar
needs no other bound on its recursion.

A repetition has a list of rounds, one for each token left when it began.  That is
enough, because each round consumes a token.
-/
import GnLang.Grammar.Rule
import GnLang.Text.Numeral

namespace GnLang.Grammar

variable (s : Setting)

/-! ### Words, strings and numbers -/

/-- A word that stands for itself. -/
def identifier : Rule Node := do
  let t ← expect s [.ident] "identifier"
  pure (.identifier t.text t.pos)

/-- A string literal. -/
def string : Rule Node := do
  let t ← expect s [.string] "string literal"
  pure (.string t.text t.pos)

/-- No integer in range has more digits than this, leading zeros apart. -/
def mostDigits : Nat := 19

/-- The integer literal at `p` that is written `text`, after a minus sign if `negative`. -/
def integerOf (negative : Bool) (p : Pos) (text : String) : Except Failure Node :=
  let written := if negative then "-" ++ text else text
  let outOfRange : ParseError := ⟨.mismatch "64-bit integer" written, p⟩
  let digits := text.toList.dropWhile (· = '0')
  if digits.length > mostDigits then .error (.parse outOfRange)
  else
    match Text.readInt? (if digits.isEmpty then "0" else String.ofList digits) with
    | none => .error (.numeral (String.ofList digits))
    | some n =>
      let value := if negative then -n else n
      if Node.fitsInteger value then (Node.integer? value p).mapError .node
      else .error (.parse outOfRange)

/-- An integer with an optional minus sign; its place is that of the sign. -/
def integer : Rule Node := do
  let start ← look s
  let negative ← isAt s [.symbol .sub]
  if negative then skip s
  let t ← expect s [.number] "integer literal"
  Rule.answer (integerOf negative start.pos t.text)

/-- A word of a scope: two words with a dot between them. -/
def scopeAccess : Rule Node := do
  let scope ← expect s [.ident] "identifier"
  let _ ← expect s [.symbol .dot] "'.'"
  let name ← expect s [.ident] "identifier after '.'"
  pure (.scopeAccess scope.text name.text scope.pos)

/-! ### Repetitions -/

/-- The items of a list literal, after those in `done`, last first.  A comma after an
item may be left out. -/
def elements (item : Rule Node) (rounds : List Token) (done : List Node) :
    Rule (List Node) := do
  if ← isAt s [.symbol .rbrack] then pure done.reverse
  else if ← isAt s [.endOfInput] then failAt s "']' to close list"
  else
    let x ← item
    if ← isAt s [.symbol .comma] then skip s
    match rounds with
    | [] => pure (x :: done).reverse
    | _ :: rounds => elements item rounds (x :: done)
  termination_by structural rounds

/-- The arguments of a call, after those in `done`, last first.  They stop where no
comma follows. -/
def arguments (item : Rule Node) (rounds : List Token) (done : List Node) :
    Rule (List Node) := do
  if ← isAt s [.symbol .rparen] then pure done.reverse
  else
    let x ← item
    if ← isAt s [.symbol .comma] then
      skip s
      match rounds with
      | [] => pure (x :: done).reverse
      | _ :: rounds => arguments item rounds (x :: done)
    else pure (x :: done).reverse
  termination_by structural rounds

/-- The operators and operands that follow the operand `left`, folded to the left. -/
def chain (operand : Rule Node) (rounds : List Token) (left : Node) : Rule Node := do
  let t ← look s
  if t.kind.isBinary then
    skip s
    let right ← operand
    let left ← Rule.ofExcept (Node.binary? left t.text right left.pos)
    match rounds with
    | [] => pure left
    | _ :: rounds => chain operand rounds left
  else pure left
  termination_by structural rounds

/-- Statements, after those in `done`, last first, for as long as a word begins one. -/
def repeated (statement : Rule Node) (rounds : List Token) (done : List Node) :
    Rule (List Node) := do
  if ← isAt s [.ident] then
    let x ← statement
    match rounds with
    | [] => pure (x :: done).reverse
    | _ :: rounds => repeated statement rounds (x :: done)
  else pure done.reverse
  termination_by structural rounds

/-! ### Nesting -/

/-- The rules that the inside of a nesting is parsed by. -/
structure Inside where
  unary : Rule Node
  expression : Rule Node
  statements : Rule (List Node)

/-- Parses the inside of a nesting, if one more nesting may be opened. -/
def enter {α : Type} (inside : Option Inside) (body : Inside → Rule α) : Rule α :=
  match inside with
  | some rules => body rules
  | none => do
    let t ← look s
    Rule.fail (.parse ⟨.tooDeep s.limit, t.pos⟩)

variable (inside : Option Inside)

/-- A list literal, placed at its opening bracket. -/
def bracketedList : Rule Node := do
  let opening ← expect s [.symbol .lbrack] "'['"
  let xs ← enter s inside fun rules => do
    let xs ← elements s rules.expression (← Rule.remaining) []
    let _ ← expect s [.symbol .rbrack] "']' to close list"
    pure xs
  pure (.list xs opening.pos)

/-- Statements between braces; the list is placed at the opening brace. -/
def block : Rule Node := do
  let opening ← expect s [.symbol .lbrace] "'\x7b'"
  let xs ← enter s inside fun rules => do
    let xs ← rules.statements
    let _ ← expect s [.symbol .rbrace] "'\x7d' to close block"
    pure xs
  pure (.list xs opening.pos)

/-- A call; its body belongs to it whenever an opening brace follows. -/
def call : Rule Node := do
  let name ← expect s [.ident] "function name"
  let opening ← expect s [.symbol .lparen] "'('"
  let args ← enter s inside fun rules => do
    let args ← arguments s rules.expression (← Rule.remaining) []
    let _ ← expect s [.symbol .rparen] "')' to close call arguments"
    pure args
  if ← isAt s [.symbol .lbrace] then
    let body ← block s inside
    pure (.call name.text (.list args opening.pos) (some body) name.pos)
  else pure (.call name.text (.list args opening.pos) none name.pos)

/-- An element of an array: a word, and an index between brackets. -/
def arrayAccess : Rule Node := do
  let name ← expect s [.ident] "identifier"
  let _ ← expect s [.symbol .lbrack] "'['"
  let index ← enter s inside fun rules => do
    let index ← rules.expression
    let _ ← expect s [.symbol .rbrack] "']' to close array index"
    pure index
  pure (.arrayAccess name.text index name.pos)

/-- An expression between parentheses, which leave no trace in the tree. -/
def parenthesized : Rule Node := do
  let _ ← expect s [.symbol .lparen] "'('"
  enter s inside fun rules => do
    let x ← rules.expression
    let _ ← expect s [.symbol .rparen] "')'"
    pure x

/-! ### Expressions -/

/-- An operand.  What it is shows in its first token and, for a word, in the next. -/
def primary : Rule Node := do
  match (← look s).kind with
  | .symbol .lbrack => bracketedList s inside
  | .string => string s
  | .ident =>
    match ← follower with
    | .symbol .lparen => call s inside
    | .symbol .lbrack => arrayAccess s inside
    | .symbol .dot => scopeAccess s
    | _ => identifier s
  | .symbol .lparen => parenthesized s inside
  | .number | .symbol .sub => integer s
  | _ => failAt s "expression"

/-- An operand, or an operator before one.  The operand of an operator is a nesting. -/
def unary : Rule Node := do
  let t ← look s
  if t.kind.isUnary then
    skip s
    let x ← enter s inside fun rules => rules.unary
    Rule.ofExcept (Node.unary? t.text x t.pos)
  else primary s inside

/-- Operands with operators between them. -/
def expression : Rule Node := do
  let left ← unary s inside
  chain s (unary s inside) (← Rule.remaining) left

/-! ### Statements -/

/-- What may stand on the left of an assignment. -/
def target : Rule Node := do
  if ← isAt s [.ident] then
    match ← follower with
    | .symbol .lbrack => arrayAccess s inside
    | .symbol .dot => scopeAccess s
    | _ => identifier s
  else failAt s "assignment target"

/-- An assignment, placed at its target. -/
def assignment : Rule Node := do
  let left ← target s inside
  let t ← look s
  if t.kind.isAssign then
    skip s
    let value ← expression s inside
    Rule.ofExcept (Node.assignment? left t.text value left.pos)
  else failAt s "assignment operator ('=', '+=' or '-=')"

/-- A word with an opening parenthesis after it begins a call; all else should be an
assignment. -/
def statement : Rule Node := do
  if (← isAt s [.ident]) && (← follower) == .symbol .lparen then call s inside
  else assignment s inside

/-- Statements up to the first token that begins none. -/
def statements : Rule (List Node) := do
  repeated s (statement s inside) (← Rule.remaining) []

/-- Statements as a list placed at the token they begin with. -/
def statementList : Rule Node := do
  let start ← look s
  let xs ← statements s inside
  pure (.list xs start.pos)

/-! ### Levels -/

/-- The rules for the inside of a nesting when `depth` nestings may be opened, that one
included. -/
def insideOf : (depth : Nat) → Option Inside
  | 0 => none
  | depth + 1 =>
    let deeper := insideOf depth
    some ⟨unary s deeper, expression s deeper, statements s deeper⟩

/-- A whole program: statements to the end of the input. -/
def program (depth : Nat) : Rule Node := do
  let x ← statementList s (insideOf s depth)
  ended s
  pure x

/-- A single expression and nothing after it. -/
def loneExpression (depth : Nat) : Rule Node := do
  let x ← expression s (insideOf s depth)
  ended s
  pure x

end GnLang.Grammar
