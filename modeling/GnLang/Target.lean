/-
The FIDL targets that a program declares.

A target is a call of `fidl` with the target's name as its one argument.  Assignments to
`sources` and `public_deps` in the call's body, in order, make up two lists of strings:
`=` sets a list, `+=` appends to it, and `-=` removes all strings that it lists.

* `Target.eachCall` — what is made of the calls of a name, in the order of a visit;
* `Target.ofCall?` — the target that a call declares;
* `Target.collect` — all targets of a program.
-/
import GnLang.Label
import GnLang.Node.Visit

namespace GnLang

/-- A call: its name, its arguments, its body, and its place. -/
structure Call where
  name : String
  args : Node
  body : Option Node
  pos : Pos

/-- The call that a node is, if it is one. -/
def Node.asCall? : Node → Option Call
  | .call name args body pos => some ⟨name, args, body, pos⟩
  | _ => none

/-- A target: its name, its source files and the labels it depends on. -/
structure Target where
  name : String
  sources : List String
  publicDeps : List String
  deriving DecidableEq, Repr

namespace Target

/-- Why a call declares no target. -/
inductive Fault where
  /-- The call does not have a single string as its arguments. -/
  | badName (call : String) (line : Int)
  /-- A field is not set to a list. -/
  | notList (kind : String)
  /-- A field is set to a list of which an element is not a string. -/
  | notString (line : Int) (kind : String)
  /-- The tree holds something that is not a node. -/
  | notNode (item : Node.Foreign)
  /-- The arguments or the body of a call are not a list. -/
  | noSize (typeName : String)
  /-- The body has no statements. -/
  | noStatements (typeName : String)
  /-- Something that is not even like a node stands where a node should. -/
  | lacks (typeName part : String)
  deriving DecidableEq, Repr

/-- Whether a program can have the fault.  All others are faults of trees that hold something
else than nodes. -/
def Fault.isOfProgram : Fault → Bool
  | badName .. | notList _ | notString .. => true
  | notNode _ | noSize _ | noStatements _ | lacks .. => false

/-- The fault in words. -/
def Fault.text : Fault → String
  | badName call line =>
    call ++ "() at line " ++ toString line ++ " must take a single string name"
  | notList kind => "Expected a list of strings, got " ++ kind
  | notString line kind =>
    "Expected a string literal at line " ++ toString line ++ ", got " ++ kind
  | notNode item => item.noNode
  | noSize typeName => "object of type '" ++ typeName ++ "' has no len()"
  | noStatements typeName => "'" ++ typeName ++ "' object is not iterable"
  | lacks typeName part => "'" ++ typeName ++ "' object has no attribute '" ++ part ++ "'"

/-! ### Calls -/

/-- The calls of `name` among the nodes. -/
def callsOf (name : String) (xs : List Node) : List Call :=
  (xs.filterMap Node.asCall?).filter (·.name == name)

/-- What `make` makes of the calls of `name` in a tree, in the order of a visit.  The
visit stops at the first thing that is not a node, so a fault that `make` finds in a call
before it comes first. -/
def eachCall {α : Type} (x : Node) (name : String) (make : Call → Except Fault α) :
    Except Fault (List α) := do
  let made ← (callsOf name x.visit.seen).mapM make
  match x.visit.stop with
  | none => return made
  | some item => .error (.notNode item)

/-- How many items there are in the arguments or in the body of a call. -/
def length? : Node → Except Fault Nat
  | .list xs _ => .ok xs.length
  | .foreign (.text s) => .ok s.length
  | x => .error (.noSize x.typeName)

/-! ### Fields -/

/-- The value of a string literal. -/
def stringValue? : Node → Except Fault String
  | .string v _ => .ok v
  | .foreign (.object k p) => .error (.notString p.line k)
  | .foreign f => .error (.lacks f.typeName "line")
  | x => .error (.notString x.pos.line x.kind)

/-- The values of a list of string literals. -/
def stringValues? : Node → Except Fault (List String)
  | .list xs _ => xs.mapM stringValue?
  | .foreign (.object k _) => .error (.notList k)
  | .foreign f => .error (.lacks f.typeName "kind")
  | x => .error (.notList x.kind)

/-- A list after an assignment to it. -/
def update (current : List String) (op : AssignOp) (values : List String) : List String :=
  match op with
  | .set => values
  | .append => current ++ values
  | .remove => current.filter (!values.contains ·)

/-- The target after a statement of its body.  Only assignments to the plain words
`sources` and `public_deps` change it. -/
def assign (t : Target) : Node → Except Fault Target
  | .assignment (.identifier field _) op value _ =>
    if field = "sources" then do
      return { t with sources := update t.sources op (← stringValues? value) }
    else if field = "public_deps" then do
      return { t with publicDeps := update t.publicDeps op (← stringValues? value) }
    else .ok t
  | _ => .ok t

/-- The statements of a body. -/
def statements? : Option Node → Except Fault (List Node)
  | none | some (.foreign (.text _)) => .ok []
  | some (.list xs _) => .ok xs
  | some x => .error (.noStatements x.typeName)

/-- The target that a call declares. -/
def ofCall? (c : Call) : Except Fault Target :=
  match c.args with
  | .list [.string name _] _ => do (← statements? c.body).foldlM assign ⟨name, [], []⟩
  | .list _ _ | .foreign (.text _) => .error (.badName c.name c.pos.line)
  | x => .error (.noSize x.typeName)

/-- The name that calls declare targets by. -/
def callName : String := "fidl"

/-- The target that a node declares, which must be a call. -/
def ofNode? (x : Node) : Except Fault Target :=
  match x.asCall? with
  | some c => ofCall? c
  | none => .error (.lacks x.typeName "args")

/-- The targets that a tree declares by calls of `name`. -/
def collect (x : Node) (name : String) : Except Fault (List Target) := eachCall x name ofCall?

/-! ### Lists of targets -/

/-- The crate names of what a target depends on. -/
def crates (t : Target) : Except Label.Fault (List String) := t.publicDeps.mapM Label.crateName

/-- The lines that describe a target. -/
def describe (t : Target) : Except Label.Fault (List String) := do
  let crates ← t.crates
  let deps := (t.publicDeps.zip crates).map fun d => "    " ++ d.1 ++ " (" ++ d.2 ++ ")"
  return t.name :: "  sources:" :: t.sources.map ("    " ++ ·) ++ "  public_deps:" :: deps

/-- A text that describes targets, one after another. -/
def describeAll (ts : List Target) : Except Label.Fault String := do
  let lines ← ts.mapM describe
  return String.join (lines.flatten.map (· ++ "\n"))

end Target

end GnLang
