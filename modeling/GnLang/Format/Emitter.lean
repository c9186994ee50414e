/-
Writing source text step by step.

An `Emitter` holds the lines it has written and the depth it is at, and both change while it
works: before it writes what stands in a list literal or in a body it goes one level deeper,
and then back again, also if something in between could not be written.  Every line takes its
margin from the depth that the emitter is at when it begins the line.

Each tree is written by two calls, one that finds out of which kind it is and one for that
kind; another goes through the elements of a list, and another writes a body.  They stay open
while the parts of the tree are written, and when there is no room for them, writing stops.

* `Emitter.indented` — an action one level deeper;
* `Emitter.emit`, `Emitter.emitBlock` — the text of a tree and of a body;
* `Emitter.emitStatement` — a tree as the next line;
* `Emitter.formatList` — lists of statements, one after the other.
-/
import GnLang.Format.Layout

namespace GnLang.Format

/-- The lines that were written, and the depth of the next one. -/
structure Emitter where
  lines : Array String
  depth : Int
  deriving Repr

namespace Emitter

/-- What an emitter does.  An action that fails leaves the emitter as it is at that moment. -/
abbrev Action := ExceptT Fault (StateM Emitter)

/-- Does something: the answer, or why there is none, and the emitter afterwards. -/
def Action.after {α : Type} (action : Action α) (e : Emitter) : Except Fault α × Emitter :=
  StateT.run (ExceptT.run action) e

/-- The blanks at the start of a line. -/
def lineStart : Action String := return margin (← get).depth

/-- An action one level deeper.  Whether it answers or fails, the emitter goes back before the
answer or the fault is handed on. -/
def indented {α : Type} (action : Action α) : Action α := ExceptT.mk do
  modify fun e => { e with depth := e.depth + 1 }
  let answer ← action.run
  modify fun e => { e with depth := e.depth - 1 }
  return answer

/-- Lines between braces. -/
def braced (lines : Action (List String)) : Action String := do
  let lines ← indented lines
  return "\x7b\n" ++ String.join lines ++ (← lineStart) ++ "\x7d"

mutual

/-- The text of a tree. -/
def emit (room : Room) (x : Node) : Action String := do
  let room ← enter room 2
  match x with
  | .identifier n _ => return n
  | .string v _ => return "\"" ++ v ++ "\""
  | .integer v _ => return toString v
  | .list xs _ =>
    if xs.isEmpty then return "[]"
    else
      let lines ← indented do emitEach (← enter room 1) lineStart ",\n" xs
      return "[\n" ++ String.join lines ++ (← lineStart) ++ "]"
  | .call n a none _ =>
    let args ← emitItems room (pure "") "" a
    return n ++ "(" ++ ", ".intercalate args ++ ")"
  | .call n a (some b) _ =>
    let args ← emitItems room (pure "") "" a
    let room ← enter room 1
    let block ← braced (emitItems room lineStart "\n" b)
    return n ++ "(" ++ ", ".intercalate args ++ ") " ++ block
  | .arrayAccess n i _ => return n ++ "[" ++ (← emit room i) ++ "]"
  | .scopeAccess s n _ => return s ++ "." ++ n
  | .unary o x _ => return o.text ++ grouped x (← emit room x)
  | .binary l o r _ =>
    let left ← emit room l
    let right ← emit room r
    return left ++ " " ++ o.text ++ " " ++ grouped r right
  | .assignment t o v _ =>
    let target ← emit room t
    let value ← emit room v
    return target ++ " " ++ o.text ++ " " ++ value
  | .foreign f => throw (foreignFault f)
  termination_by structural x

/-- The texts of what a tree lists, as `emitEach` writes them. -/
def emitItems (room : Room) (start : Action String) (ending : String) :
    Node → Action (List String)
  | .list xs _ => do emitEach (← enter room 1) start ending xs
  | .foreign (.text s) => if s.isEmpty then return [] else throw (foreignFault (.text s))
  | x => throw (.notList x.typeName)
  termination_by structural x => x

/-- The texts of trees, one by one, each after what `start` gives then and before `ending`. -/
def emitEach (room : Room) (start : Action String) (ending : String) :
    List Node → Action (List String)
  | [] => return []
  | x :: xs => do
    let text := (← start) ++ (← emit room x) ++ ending
    return text :: (← emitEach room start ending xs)
  termination_by structural xs => xs

end

/-- The text of a body. -/
def emitBlock (room : Room) (body : Node) : Action String := do
  let room ← enter room 1
  braced (emitItems room lineStart "\n" body)

/-- Writes a tree as the next line. -/
def emitStatement (room : Room) (x : Node) : Action Unit := do
  let line := (← lineStart) ++ (← emit room x)
  modify fun e => { e with lines := e.lines.push line }

/-- Writes a node as the next line, if it is a statement. -/
def emitNext (room : Room) (x : Node) : Action Unit :=
  if x.isStatement then emitStatement room x else throw (.notStatement x.kind x.pos)

/-- Everything that was written. -/
def output (e : Emitter) : String := String.join (e.lines.toList.map (· ++ "\n"))

/-- Writes a list of statements, all of which must be nodes, and answers with everything that
was written. -/
def formatList (room : Room) (xs : List Node) : Action String := do
  if xs.all Node.isNode then
    xs.forM (emitNext room)
    return (← get).output
  else throw .notNodes

/-- An emitter that has written nothing. -/
def fresh : Emitter := ⟨#[], 0⟩

end Emitter

end GnLang.Format
