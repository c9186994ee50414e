/-
Writing statements one after another.

A `Writer` collects what it has written: as source text, or as JSON.  Each statement
is written whole or, if it cannot be, not at all.  `writerFor?` selects a writer by
the name of its format, and `writeList` writes whole lists of statements with it.

The room for calls is what is left where a writer is asked for something.
-/
import GnLang.Format.Emitter
import GnLang.Node.Debug
import GnLang.Node.Record
import GnLang.Text.Lowercase

namespace GnLang.Format

/-- A writer of statements and what it has written: source lines, by an emitter, or JSON
values with an indent. -/
inductive Writer where
  | source (e : Emitter)
  | json (statements : Array Json) (indent : Option Int)
  deriving Repr

/-- The indent of JSON unless another is asked for. -/
def defaultIndent : Int := 2

/-! ### Trees as JSON values -/

mutual

/-- What turning a tree into a JSON value comes to: the first part that is not a node, or the
end of the room for calls.  There is one call for each node and one for the elements of a
list. -/
def recordable (room : Room) : Node → Except Fault Unit
  | .identifier .. | .string .. | .integer .. | .scopeAccess .. => discard (enter room 1)
  | .list xs _ => do recordableAll (← enter room 2) xs
  | .call _ a none _ => do recordable (← enter room 1) a
  | .call _ a (some b) _ => do
    let room ← enter room 1
    recordable room a
    recordable room b
  | .arrayAccess _ i _ => do recordable (← enter room 1) i
  | .unary _ x _ => do recordable (← enter room 1) x
  | .binary l _ r _ => do
    let room ← enter room 1
    recordable room l
    recordable room r
  | .assignment t _ v _ => do
    let room ← enter room 1
    recordable room t
    recordable room v
  | .foreign f => .error (.lacks f.typeName "to_dict")
  termination_by structural x => x

/-- The same for trees, one by one. -/
def recordableAll (room : Room) : List Node → Except Fault Unit
  | [] => .ok ()
  | x :: xs => do
    recordable room x
    recordableAll room xs
  termination_by structural xs => xs

end

/-- The tree as a JSON value, unless it holds something that is not a node. -/
def record? (room : Room) (x : Node) : Except Fault Json := do
  recordable room x
  return x.toJson

/-! ### Writing -/

namespace Writer

/-- How many calls it takes to begin a JSON text. -/
def jsonCalls : Nat := 3

/-- Writes a node as the next statement. -/
def write (room : Room) (x : Node) : Writer → Except Fault Unit × Writer
  | source e =>
    let (answer, e) := (Emitter.emitStatement room x).after e
    (answer, source e)
  | json statements indent =>
    match record? room x with
    | .ok v => (.ok (), json (statements.push v) indent)
    | .error f => (.error f, json statements indent)

/-- Everything that was written. -/
def output (room : Room) : Writer → Except Fault String
  | source e => .ok e.output
  | json statements indent => do
    let v := Json.arr statements.toList
    discard (enter room (jsonCalls + v.height))
    return Json.write (indent.map Int.toNat) 0 v ++ "\n"

/-- Writes nodes as statements until one cannot be written. -/
def writeAll (room : Room) : List Node → Writer → Except Fault Unit × Writer
  | [], w => (.ok (), w)
  | x :: xs, w =>
    if x.isStatement then
      match w.write room x with
      | (.ok (), w) => writeAll room xs w
      | (.error f, w) => (.error f, w)
    else (.error (.notStatement x.kind x.pos), w)

end Writer

/-- The emitter as a writer. -/
def Emitter.toWriter (e : Emitter) : Writer := .source e

/-- The names of the output formats. -/
def names : List String := ["gn", "json"]

/-- The writer for a format, whose name is read without regard to case. -/
def writerFor? (target : String) : Except Fault Writer :=
  let name := Text.lower target
  if name = "gn" then .ok (.source .fresh)
  else if name = "json" then .ok (.json #[] (some defaultIndent))
  else .error (.unknownFormat name)

/-- Writes a list of statements, all of which must be nodes, and answers with everything
the writer has written. -/
def writeList (room : Room) (w : Writer) (xs : List Node) : Except Fault String × Writer :=
  if xs.all Node.isNode then
    match w.writeAll room xs with
    | (.ok (), w) => (w.output room, w)
    | (.error f, w) => (.error f, w)
  else (.error .notNodes, w)

/-- The text of a list of statements in a format. -/
def render (room : Room) (target : String) (xs : List Node) : Except Fault String := do
  (writeList room (← writerFor? target) xs).1

/-- The text of a list of statements in a format that may be unset. -/
def renderIn (room : Room) (target : Option String) (xs : List Node) : Except Fault String :=
  match target with
  | some target => render room target xs
  | none => .error .noFormat

/-- The tree written out in full. -/
def dump (room : Room) (x : Node) : Except Fault String := do
  discard (enter room x.debugHeight)
  return x.debugText

end GnLang.Format
