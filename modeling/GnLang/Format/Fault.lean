/-
Why a tree cannot be written.

Trees that hold something that is not a node, and lists that hold something that is not a
statement, are refused.  Besides, there may be no room for the calls that write a tree.
-/
import GnLang.Node
import GnLang.Room

namespace GnLang.Format

/-- Why a tree cannot be written. -/
inductive Fault where
  /-- There is no output format of this name. -/
  | unknownFormat (target : String)
  /-- The output format was unset. -/
  | noFormat
  /-- Not everything that was to be written is a node. -/
  | notNodes
  /-- A node that is not a statement stands where a statement should. -/
  | notStatement (kind : String) (pos : Pos)
  /-- An object of a kind the language lacks. -/
  | unknownKind (kind : String)
  /-- Something other than a list stands where a list should. -/
  | notList (typeName : String)
  /-- Something that is not even like a node. -/
  | lacks (typeName part : String)
  /-- There is no room for another call. -/
  | stackExhausted
  deriving DecidableEq, Repr

/-- The fault in words. -/
def Fault.text : Fault → String
  | unknownFormat target => "Unknown output format: " ++ Text.quoted target
  | noFormat => "'list' object has no attribute 'lower'"
  | notNodes => "All items in AST must be GN AST nodes."
  | notStatement kind pos =>
    "No emitter method for node kind '" ++ kind ++ "' (line " ++ toString pos.line
      ++ ", col " ++ toString pos.col ++ ")"
  | unknownKind kind => "No GN emitter for node kind '" ++ kind ++ "'"
  | notList typeName => "'" ++ typeName ++ "' object is not iterable"
  | lacks typeName part => "'" ++ typeName ++ "' object has no attribute '" ++ part ++ "'"
  | stackExhausted => "maximum recursion depth exceeded"

/-- The room that `n` more calls leave, if there is room for them. -/
def enter (room : Room) (n : Nat) : Except Fault Room :=
  if room.Holds n then .ok (room.less n) else .error .stackExhausted

/-- The parts that nodes are written from first, by their kinds. -/
def firstParts : List (String × String) :=
  [("identifier", "name"), ("string", "value"), ("integer", "value"), ("list", "elements"),
    ("call", "args"), ("array_access", "identifier"), ("scope_access", "scope"),
    ("unary", "operand"), ("binary", "left"), ("assignment", "lvalue")]

/-- Why something that is not a node cannot be written.  An object that says it is of a
kind the language has lacks the part that such a node is written from first. -/
def foreignFault (f : Node.Foreign) : Fault :=
  match f with
  | .object k _ =>
    match firstParts.lookup k with
    | some part => .lacks f.typeName part
    | none => .unknownKind k
  | _ => .lacks f.typeName "kind"

/-- What there is to list in a tree: the elements of a list, and the characters of a
plain text. -/
def items? : Node → Except Fault (List Node)
  | .list xs _ => .ok xs
  | .foreign (.text s) => .ok (s.toList.map fun c => .foreign (.text (String.singleton c)))
  | x => .error (.notList x.typeName)

end GnLang.Format
