/-
The trees that source texts stand for.

`Node` has one constructor for each construct of the language; operators are values of
their own types, so a tree cannot hold an operator the language lacks.  What the types
do not rule out is checked where a node is made: `Node.integer?`, `Node.unary?`,
`Node.binary?` and `Node.assignment?` answer with a `Node.Fault` when the parts do not
fit.  `Node.Foreign` is anything a caller may put into a tree that is not a node.

Names and strings are texts of characters.  A string with half of a surrogate pair in it, which
no source text holds that was read from a file, is not among them.
-/
import GnLang.Pos
import GnLang.Symbol
import GnLang.Text.Quoted

namespace GnLang

namespace Node

/-- Something that is not a node: a plain text, an object that says it is of some kind
but has no parts, or any other value, of which only the name of its type and the way it
is written out are known. -/
inductive Foreign where
  | text (value : String)
  | object (kind : String) (pos : Pos)
  | other (typeName written : String)
  deriving DecidableEq, Repr

/-- The name of a thing's type. -/
def Foreign.typeName : Foreign → String
  | text _ => "str"
  | object .. => "Bogus"
  | other t _ => t

/-- Why a node cannot be made of its parts. -/
inductive Fault where
  | integerRange (value : Int)
  | unknownUnary (op : String)
  | unknownBinary (op : String)
  | unknownAssign (op : String)
  | invalidTarget (typeName : String)
  deriving DecidableEq, Repr

/-- The fault in words. -/
def Fault.text : Fault → String
  | integerRange value => "Integer literal out of 64-bit range: " ++ toString value
  | unknownUnary op => "Unknown unary operator: " ++ Text.quoted op
  | unknownBinary op => "Unknown binary operator: " ++ Text.quoted op
  | unknownAssign op => "Unknown assignment operator: " ++ Text.quoted op
  | invalidTarget typeName => "Invalid assignment target: " ++ typeName

end Node

/-- A construct of the language, with the place it starts at.  Lists serve as list
literals, as the arguments and the bodies of calls, and as whole programs. -/
inductive Node where
  | identifier (name : String) (pos : Pos)
  | string (value : String) (pos : Pos)
  | integer (value : Int) (pos : Pos)
  | list (elements : List Node) (pos : Pos)
  | call (name : String) (args : Node) (body : Option Node) (pos : Pos)
  | arrayAccess (name : String) (index : Node) (pos : Pos)
  | scopeAccess (scope name : String) (pos : Pos)
  | unary (op : UnaryOp) (operand : Node) (pos : Pos)
  | binary (left : Node) (op : BinaryOp) (right : Node) (pos : Pos)
  | assignment (target : Node) (op : AssignOp) (value : Node) (pos : Pos)
  | foreign (item : Node.Foreign)
  deriving Repr, Inhabited

namespace Node

/-- Where the construct starts. -/
def pos : Node → Pos
  | identifier _ p | string _ p | integer _ p | list _ p | call _ _ _ p
  | arrayAccess _ _ p | scopeAccess _ _ p | unary _ _ p | binary _ _ _ p
  | assignment _ _ _ p => p
  | foreign (.object _ p) => p
  | foreign _ => .unknown

/-- What the construct is called in written trees. -/
def kind : Node → String
  | identifier .. => "identifier"
  | string .. => "string"
  | integer .. => "integer"
  | list .. => "list"
  | call .. => "call"
  | arrayAccess .. => "array_access"
  | scopeAccess .. => "scope_access"
  | unary .. => "unary"
  | binary .. => "binary"
  | assignment .. => "assignment"
  | foreign (.object k _) => k
  | foreign f => f.typeName

/-- What the construct is called in messages about the make-up of a tree. -/
def typeName : Node → String
  | identifier .. => "Identifier"
  | string .. => "StringLiteral"
  | integer .. => "IntegerLiteral"
  | list .. => "ExpressionList"
  | call .. => "Call"
  | arrayAccess .. => "ArrayAccess"
  | scopeAccess .. => "ScopeAccess"
  | unary .. => "UnaryExpr"
  | binary .. => "BinaryExpr"
  | assignment .. => "Assignment"
  | foreign f => f.typeName

/-- Whether the tree's root is a node. -/
def isNode : Node → Bool
  | foreign _ => false
  | _ => true

/-- Whether the node may stand on the left of an assignment. -/
def isTarget : Node → Bool
  | identifier .. | arrayAccess .. | scopeAccess .. => true
  | _ => false

/-- Whether the node may stand in a program or in a body. -/
def isStatement : Node → Bool
  | call .. | assignment .. => true
  | _ => false

/-! ### Checked construction -/

/-- The least integer a literal can stand for: the least of 64 bits with a sign. -/
def minInteger : Int := -9223372036854775808

/-- The greatest integer a literal can stand for: the greatest of 64 bits with a sign. -/
def maxInteger : Int := 9223372036854775807

/-- Whether a literal can stand for `value`. -/
def fitsInteger (value : Int) : Bool := minInteger ≤ value && value ≤ maxInteger

/-- An integer literal. -/
def integer? (value : Int) (pos : Pos) : Except Fault Node :=
  if fitsInteger value then .ok (integer value pos) else .error (.integerRange value)

/-- An operator, written `op`, before its operand. -/
def unary? (op : String) (operand : Node) (pos : Pos) : Except Fault Node :=
  match UnaryOp.ofText? op with
  | some o => .ok (unary o operand pos)
  | none => .error (.unknownUnary op)

/-- An operator, written `op`, between its operands. -/
def binary? (left : Node) (op : String) (right : Node) (pos : Pos) : Except Fault Node :=
  match BinaryOp.ofText? op with
  | some o => .ok (binary left o right pos)
  | none => .error (.unknownBinary op)

/-- An assignment by an operator written `op`.  The target is checked before the
operator. -/
def assignment? (target : Node) (op : String) (value : Node) (pos : Pos) :
    Except Fault Node :=
  if target.isTarget then
    match AssignOp.ofText? op with
    | some o => .ok (assignment target o value pos)
    | none => .error (.unknownAssign op)
  else .error (.invalidTarget target.typeName)

end Node

end GnLang
