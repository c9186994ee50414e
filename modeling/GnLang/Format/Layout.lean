/-
The canonical layout of a tree as source text.

Bodies and list literals are indented by two blanks, every element of a list literal
has a line and a comma of its own, and an empty list is written without a line break.
Operators are written without parentheses, except round a right operand or the operand
of '!' that has an operator between operands itself: there the parentheses keep the
order in which the operators apply.

`layout` is the text whatever room there is for calls; `Emitter.emit` writes it as far as
there is room.
-/
import GnLang.Format.Fault

namespace GnLang.Format

/-- The blanks at the start of a line at the given depth. -/
def margin (depth : Int) : String := "".pushn ' ' (2 * depth.toNat)

/-- Whether the node has an operator between two operands. -/
def isBinary : Node → Bool
  | .binary .. => true
  | _ => false

/-- Puts parentheses round the text of `x` if it has an operator between operands. -/
def grouped (x : Node) (text : String) : String :=
  if isBinary x then "(" ++ text ++ ")" else text

/-- The texts of elements, as a list literal at the given depth. -/
def listText (depth : Int) (items : List String) : String :=
  if items.isEmpty then "[]"
  else
    "[\n" ++ String.join (items.map fun t => margin (depth + 1) ++ t ++ ",\n")
      ++ margin depth ++ "]"

/-- The texts of statements, as a body at the given depth. -/
def blockText (depth : Int) (statements : List String) : String :=
  "\x7b\n" ++ String.join (statements.map fun t => margin (depth + 1) ++ t ++ "\n")
    ++ margin depth ++ "\x7d"

mutual

/-- The text of a tree that starts on a line at the given depth. -/
def layout (depth : Int) : Node → Except Fault String
  | .identifier n _ => .ok n
  | .string v _ => .ok ("\"" ++ v ++ "\"")
  | .integer v _ => .ok (toString v)
  | .list xs _ => do return listText depth (← layoutAll (depth + 1) xs)
  | .call n a none _ => do
    let args ← layoutItems depth a
    return n ++ "(" ++ ", ".intercalate args ++ ")"
  | .call n a (some b) _ => do
    let args ← layoutItems depth a
    let statements ← layoutItems (depth + 1) b
    return n ++ "(" ++ ", ".intercalate args ++ ") " ++ blockText depth statements
  | .arrayAccess n i _ => do return n ++ "[" ++ (← layout depth i) ++ "]"
  | .scopeAccess s n _ => .ok (s ++ "." ++ n)
  | .unary o x _ => do return o.text ++ grouped x (← layout depth x)
  | .binary l o r _ => do
    let left ← layout depth l
    let right ← layout depth r
    return left ++ " " ++ o.text ++ " " ++ grouped r right
  | .assignment t o v _ => do
    let target ← layout depth t
    let value ← layout depth v
    return target ++ " " ++ o.text ++ " " ++ value
  | .foreign f => .error (foreignFault f)
  termination_by structural x => x

/-- The texts of what a tree lists. -/
def layoutItems (depth : Int) : Node → Except Fault (List String)
  | .list xs _ => layoutAll depth xs
  | .foreign (.text s) => if s.isEmpty then .ok [] else .error (foreignFault (.text s))
  | x => .error (.notList x.typeName)
  termination_by structural x => x

/-- The texts of trees, one by one. -/
def layoutAll (depth : Int) : List Node → Except Fault (List String)
  | [] => .ok []
  | x :: xs => do
    let text ← layout depth x
    let texts ← layoutAll depth xs
    return text :: texts
  termination_by structural xs => xs

end

end GnLang.Format
