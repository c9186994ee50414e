/-
The names under which generated bindings are published.

A label is a path from the source root, perhaps with the name of a target after a colon.
Its crate name joins the parts of the path and the target by underscores; where there are
more than two and the last repeats the one before it, the last is dropped.
-/
import GnLang.Text.Split

namespace GnLang.Label

/-- Why a label has no crate name. -/
inductive Fault where
  /-- It is a path of the file system. -/
  | absolute (path : String)
  /-- It names nothing. -/
  | empty
  deriving DecidableEq, Repr

/-- The fault in words. -/
def Fault.text : Fault → String
  | absolute path => "Illegal FIDL path " ++ path
  | empty => "Empty FIDL path"

/-- The parts of a label without its slashes in front: the names in its path, and what
stands after the first colon unless that is empty. -/
def parts (cs : List Char) : List (List Char) :=
  let directory := cs.takeWhile (· != ':')
  let target := (cs.dropWhile (· != ':')).tail
  Text.wordsAt '/' directory ++ if target.isEmpty then [] else [target]

/-- Drops the last of more than two parts if it repeats the one before it. -/
def collapse (ps : List (List Char)) : List (List Char) :=
  match ps.reverse with
  | last :: before :: first :: rest =>
    if before = last then (before :: first :: rest).reverse else ps
  | _ => ps

/-- The crate name of a label. -/
def crateName (path : String) : Except Fault String :=
  let named (cs : List Char) : Except Fault String :=
    match parts cs with
    | [] => .error .empty
    | ps => .ok ("_".intercalate ((collapse ps).map String.ofList))
  match path.toList with
  | '/' :: '/' :: cs => named cs
  | '/' :: _ => .error (.absolute path)
  | cs => named cs

end GnLang.Label
