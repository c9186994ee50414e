/-
The punctuation and the operators of the language.

* `Symbol` — every lexeme that is not a word, a number or a string, with its text and
  the name its tokens go by;
* `UnaryOp`, `BinaryOp`, `AssignOp` — the symbols that may stand before an operand,
  between two operands, and between a target and its value.

`Symbol.ofChars?_chars` says that the characters of a symbol determine it.
-/

namespace GnLang

/-- A punctuation mark or an operator. -/
inductive Symbol where
  | lparen | rparen | lbrack | rbrack | lbrace | rbrace | comma | dot
  | assign | plusAssign | subAssign
  | plus | sub
  | lt | le | gt | ge | eq | ne
  | and | or | not
  deriving DecidableEq, Repr, Inhabited

namespace Symbol

/-- The symbols in the order of the language's table: grouping, assignment,
arithmetic, comparison, logic. -/
def all : List Symbol :=
  [lparen, rparen, lbrack, rbrack, lbrace, rbrace, comma, dot, assign, plusAssign,
    subAssign, plus, sub, lt, le, gt, ge, eq, ne, and, or, not]

/-- The characters of a symbol. -/
def chars : Symbol → List Char
  | lparen => ['('] | rparen => [')'] | lbrack => ['['] | rbrack => [']']
  | lbrace => ['{'] | rbrace => ['}'] | comma => [','] | dot => ['.']
  | assign => ['='] | plusAssign => ['+', '='] | subAssign => ['-', '=']
  | plus => ['+'] | sub => ['-']
  | lt => ['<'] | le => ['<', '='] | gt => ['>'] | ge => ['>', '=']
  | eq => ['=', '='] | ne => ['!', '=']
  | and => ['&', '&'] | or => ['|', '|'] | not => ['!']

/-- How a symbol is written. -/
def text (s : Symbol) : String := String.ofList s.chars

/-- What tokens of a symbol are called. -/
def name : Symbol → String
  | lparen => "LPAREN" | rparen => "RPAREN" | lbrack => "LBRACK" | rbrack => "RBRACK"
  | lbrace => "LBRACE" | rbrace => "RBRACE" | comma => "COMMA" | dot => "DOT"
  | assign => "ASSIGN" | plusAssign => "PLUS_ASSIGN" | subAssign => "SUB_ASSIGN"
  | plus => "PLUS" | sub => "SUB"
  | lt => "LT" | le => "LE" | gt => "GT" | ge => "GE" | eq => "EQ" | ne => "NE"
  | and => "AND" | or => "OR" | not => "NOT"

/-- The symbol written by the characters `cs`, if there is one. -/
def ofChars? (cs : List Char) : Option Symbol := all.find? (·.chars == cs)

/-- The symbol whose tokens are called `s`, if there is one. -/
def ofName? (s : String) : Option Symbol := all.find? (·.name == s)

theorem ofChars?_chars (s : Symbol) : ofChars? s.chars = some s := by
  cases s <;> decide

/-- A symbol has one character or two. -/
theorem length_chars (s : Symbol) : 1 ≤ s.chars.length ∧ s.chars.length ≤ 2 := by
  cases s <;> decide

end Symbol

/-! ### Operators -/

/-- An operator before its operand. -/
inductive UnaryOp where
  | not
  deriving DecidableEq, Repr, Inhabited

/-- An operator between two operands.  All of them bind equally tightly. -/
inductive BinaryOp where
  | add | sub | lt | le | gt | ge | eq | ne | and | or
  deriving DecidableEq, Repr, Inhabited

/-- An operator of an assignment. -/
inductive AssignOp where
  | set | append | remove
  deriving DecidableEq, Repr, Inhabited

namespace UnaryOp

/-- The operators in the order of the language's table. -/
def all : List UnaryOp := [not]

/-- The symbol that the operator is written by. -/
def symbol : UnaryOp → Symbol
  | not => .not

/-- How the operator is written. -/
def text (op : UnaryOp) : String := op.symbol.text

/-- The operator written `s`, if there is one. -/
def ofText? (s : String) : Option UnaryOp := all.find? (·.text == s)

theorem ofText?_text (op : UnaryOp) : ofText? op.text = some op := by
  cases op; decide

end UnaryOp

namespace BinaryOp

/-- The operators in the order of the language's table. -/
def all : List BinaryOp := [add, sub, lt, le, gt, ge, eq, ne, and, or]

/-- The symbol that the operator is written by. -/
def symbol : BinaryOp → Symbol
  | add => .plus | sub => .sub | lt => .lt | le => .le | gt => .gt | ge => .ge
  | eq => .eq | ne => .ne | and => .and | or => .or

/-- How the operator is written. -/
def text (op : BinaryOp) : String := op.symbol.text

/-- The operator written `s`, if there is one. -/
def ofText? (s : String) : Option BinaryOp := all.find? (·.text == s)

theorem ofText?_text (op : BinaryOp) : ofText? op.text = some op := by
  cases op <;> decide

end BinaryOp

namespace AssignOp

/-- The operators in the order of the language's table. -/
def all : List AssignOp := [set, append, remove]

/-- The symbol that the operator is written by. -/
def symbol : AssignOp → Symbol
  | set => .assign | append => .plusAssign | remove => .subAssign

/-- How the operator is written. -/
def text (op : AssignOp) : String := op.symbol.text

/-- The operator written `s`, if there is one. -/
def ofText? (s : String) : Option AssignOp := all.find? (·.text == s)

theorem ofText?_text (op : AssignOp) : ofText? op.text = some op := by
  cases op <;> decide

end AssignOp

namespace Symbol

/-- Whether the symbol can stand before an operand. -/
def isUnary (s : Symbol) : Bool := UnaryOp.all.any (·.symbol == s)

/-- Whether the symbol can stand between two operands. -/
def isBinary (s : Symbol) : Bool := BinaryOp.all.any (·.symbol == s)

/-- Whether the symbol can stand between a target and its value. -/
def isAssign (s : Symbol) : Bool := AssignOp.all.any (·.symbol == s)

end Symbol

end GnLang
