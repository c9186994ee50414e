/-
Trees as JSON.

Every node is an object that holds its kind, its parts, and its place, in that order.
Things that are not nodes have no such form, so callers ask for that of a tree only if
`Node.foreign?` finds none in it.
-/
import GnLang.Json
import GnLang.Node

namespace GnLang.Node

/-- An object of the given kind with the given parts, at a place. -/
def record (kind : String) (parts : List (String × Json)) (pos : Pos) : Json :=
  .obj (("kind", .str kind) :: parts ++ [("line", .int pos.line), ("col", .int pos.col)])

mutual

/-- The tree as a JSON value. -/
def toJson : Node → Json
  | identifier n p => record "identifier" [("name", .str n)] p
  | string v p => record "string" [("value", .str v)] p
  | integer v p => record "integer" [("value", .int v)] p
  | list xs p => record "list" [("elements", .arr (toJsonAll xs))] p
  | call n a none p =>
    record "call" [("name", .str n), ("args", toJson a), ("body", .null)] p
  | call n a (some b) p =>
    record "call" [("name", .str n), ("args", toJson a), ("body", toJson b)] p
  | arrayAccess n i p =>
    record "array_access" [("identifier", .str n), ("index", toJson i)] p
  | scopeAccess s n p => record "scope_access" [("scope", .str s), ("name", .str n)] p
  | unary o x p => record "unary" [("op", .str o.text), ("operand", toJson x)] p
  | binary l o r p =>
    record "binary" [("left", toJson l), ("op", .str o.text), ("right", toJson r)] p
  | assignment t o v p =>
    record "assignment" [("lvalue", toJson t), ("op", .str o.text), ("rvalue", toJson v)] p
  | foreign _ => .null
  termination_by structural x => x

/-- The trees as JSON values. -/
def toJsonAll : List Node → List Json
  | [] => []
  | x :: xs => toJson x :: toJsonAll xs
  termination_by structural xs => xs

end

end GnLang.Node
