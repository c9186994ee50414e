/-
Paths.

A path is a sequence of names, after a root if it is absolute.  Empty names and single
dots mean nothing and are dropped where a path is read; double dots are kept.
-/
import GnLang.Text.Split

namespace GnLang.File

/-- A path: its root, which is empty for a relative path, and its names. -/
structure Path where
  root : String
  names : List String
  deriving DecidableEq, Repr

namespace Path

/-- The root of a path: exactly two slashes in front are kept apart from one or more. -/
def rootOf : List Char → String
  | '/' :: '/' :: '/' :: _ => "/"
  | '/' :: '/' :: _ => "//"
  | '/' :: _ => "/"
  | _ => ""

/-- The path that a text stands for. -/
def ofString (s : String) : Path :=
  ⟨rootOf s.toList, ((Text.wordsAt '/' s.toList).map String.ofList).filter (· != ".")⟩

/-- How a path is written; a path of no names is a dot. -/
def text (p : Path) : String :=
  if p.root.isEmpty && p.names.isEmpty then "." else p.root ++ "/".intercalate p.names

end Path

end GnLang.File
