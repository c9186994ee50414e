/-
Trees written out in full, for a reader who debugs one.

Every node is written with the name of its type, its parts in order, and its place; a
list of one element has a comma after it.
-/
import GnLang.Node

namespace GnLang.Node

/-- Something that is not a node, written out. -/
def Foreign.debugText : Foreign → String
  | .text s => Text.quoted s
  | .object k _ => "<bogus " ++ k ++ ">"
  | .other _ written => written

/-- A node of the given type with the given parts, at a place. -/
def debugRecord (typeName : String) (parts : List (String × String)) (pos : Pos) : String :=
  let fields := parts ++ [("line", toString pos.line), ("col", toString pos.col)]
  typeName ++ "(" ++ ", ".intercalate (fields.map fun f => f.1 ++ "=" ++ f.2) ++ ")"

/-- The texts of elements, between parentheses. -/
def debugTuple : List String → String
  | [x] => "(" ++ x ++ ",)"
  | xs => "(" ++ ", ".intercalate xs ++ ")"

mutual

/-- The tree written out. -/
def debugText : Node → String
  | identifier n p => debugRecord "Identifier" [("name", Text.quoted n)] p
  | string v p => debugRecord "StringLiteral" [("value", Text.quoted v)] p
  | integer v p => debugRecord "IntegerLiteral" [("value", toString v)] p
  | list xs p => debugRecord "ExpressionList" [("elements", debugTuple (debugTexts xs))] p
  | call n a none p =>
    debugRecord "Call" [("name", Text.quoted n), ("args", debugText a), ("body", "None")] p
  | call n a (some b) p =>
    debugRecord "Call"
      [("name", Text.quoted n), ("args", debugText a), ("body", debugText b)] p
  | arrayAccess n i p =>
    debugRecord "ArrayAccess" [("identifier", Text.quoted n), ("index", debugText i)] p
  | scopeAccess s n p =>
    debugRecord "ScopeAccess" [("scope", Text.quoted s), ("name", Text.quoted n)] p
  | unary o x p =>
    debugRecord "UnaryExpr" [("op", Text.quoted o.text), ("operand", debugText x)] p
  | binary l o r p =>
    debugRecord "BinaryExpr"
      [("left", debugText l), ("op", Text.quoted o.text), ("right", debugText r)] p
  | assignment t o v p =>
    debugRecord "Assignment"
      [("lvalue", debugText t), ("op", Text.quoted o.text), ("rvalue", debugText v)] p
  | foreign f => f.debugText
  termination_by structural x => x

/-- The trees written out, one by one. -/
def debugTexts : List Node → List String
  | [] => []
  | x :: xs => debugText x :: debugTexts xs
  termination_by structural xs => xs

end

/-! ### Calls -/

mutual

/-- How many calls are open at once, where most are, while a tree is written out: three for
each node, and one for the elements of a list and for each plain value. -/
def debugHeight : Node → Nat
  | identifier .. | string .. | integer .. | scopeAccess .. => 4
  | list xs _ => 4 + debugHeights xs
  | call _ a none _ => 3 + debugHeight a
  | call _ a (some b) _ => 3 + max (debugHeight a) (debugHeight b)
  | arrayAccess _ i _ => 3 + debugHeight i
  | unary _ x _ => 3 + debugHeight x
  | binary l _ r _ => 3 + max (debugHeight l) (debugHeight r)
  | assignment t _ v _ => 3 + max (debugHeight t) (debugHeight v)
  | foreign _ => 1
  termination_by structural x => x

/-- The same for trees, one by one. -/
def debugHeights : List Node → Nat
  | [] => 0
  | x :: xs => max (debugHeight x) (debugHeights xs)
  termination_by structural xs => xs

end

end GnLang.Node
