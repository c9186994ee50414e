/-
What the program reports about its own work.

The entries are for people who ask for them; nothing else depends on them.
-/
import GnLang.Parser

namespace GnLang.Log

/-- The part of the program that an entry comes from. -/
inductive Origin where
  | command
  | parser
  | targets
  deriving DecidableEq, Repr

/-- What a part of the program is called in entries. -/
def Origin.name : Origin → String
  | command => "gnparse.cli"
  | parser => "gnparse.gn_parser"
  | targets => "gnparse.gn_targets"

/-- An entry: where it comes from and what it says. -/
structure Entry where
  origin : Origin
  text : String
  deriving DecidableEq, Repr

/-- The level of every entry. -/
def level : String := "DEBUG"

/-- A file is read. -/
def reading (path : String) : Entry := ⟨.command, "Reading " ++ path⟩

/-- A text was written to a file. -/
def wrote (text path : String) : Entry :=
  ⟨.command, "Wrote " ++ toString text.length ++ " characters to " ++ path⟩

/-- A text is parsed. -/
def parsing (source : String) : Entry :=
  ⟨.parser, "Parsing " ++ toString source.length ++ " characters of GN source"⟩

/-- A text was parsed as a program of so many statements. -/
def parsed (statements : Nat) : Entry :=
  ⟨.parser, "Parsed " ++ toString statements ++ " top-level statements"⟩

/-- So many targets were found. -/
def found (targets : Nat) : Entry := ⟨.targets, "Found " ++ toString targets ++ " fidl targets"⟩

/-- The entries about parsing a text with the given answer. -/
def ofParse (source : String) (answer : Except Failure Node) : List Entry :=
  match answer with
  | .ok (.list xs _) => [parsing source, parsed xs.length]
  | _ => [parsing source]

end GnLang.Log
