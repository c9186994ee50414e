/-
Files as far as the program sees them.

A `Store` holds the files and directories below the working directory.  `Store.read`
and `Store.write` follow a path name by name, so they tell a file that is missing from
one that is a directory or lies below a file.  The directories above the working
directory exist, and nothing else is known of them.
-/
import GnLang.File.Path
import GnLang.Text.LineEnd
import GnLang.Text.Quoted
import GnLang.Text.Utf8

namespace GnLang.File

/-- Why a file cannot be read or written. -/
inductive Fault where
  | notFound (path : String)
  | isDirectory (path : String)
  | notDirectory (path : String)
  | nameTooLong (path : String)
  /-- A NUL character cannot be part of a path. -/
  | nulInPath
  | notUtf8 (fault : Text.Utf8.Fault)
  | notEncoded (fault : Text.Utf8.Unencodable)
  deriving DecidableEq, Repr

/-- Why bytes are not UTF-8, in words. -/
def reasonText : Text.Utf8.Reason → String
  | .invalidStart => "invalid start byte"
  | .invalidContinuation => "invalid continuation byte"
  | .endOfData => "unexpected end of data"

/-- Bytes that are not UTF-8, in words. -/
def utf8FaultText (f : Text.Utf8.Fault) : String :=
  let place :=
    if f.count = 1 then
      "byte 0x" ++ String.ofList (Text.hex 2 f.byte.toNat) ++ " in position "
        ++ toString f.offset
    else
      "bytes in position " ++ toString f.offset ++ "-" ++ toString (f.offset + f.count - 1)
  "'utf-8' codec can't decode " ++ place ++ ": " ++ reasonText f.reason

/-- Code points that have no bytes, in words. -/
def unencodableText (f : Text.Utf8.Unencodable) : String :=
  let place :=
    if f.count = 1 then
      "character '\\u" ++ String.ofList (Text.hex 4 f.point) ++ "' in position "
        ++ toString f.offset
    else
      "characters in position " ++ toString f.offset ++ "-"
        ++ toString (f.offset + f.count - 1)
  "'utf-8' codec can't encode " ++ place ++ ": surrogates not allowed"

/-- The fault in words. -/
def Fault.text : Fault → String
  | notFound path => "[Errno 2] No such file or directory: " ++ Text.quoted path
  | isDirectory path => "[Errno 21] Is a directory: " ++ Text.quoted path
  | notDirectory path => "[Errno 20] Not a directory: " ++ Text.quoted path
  | nameTooLong path => "[Errno 36] File name too long: " ++ Text.quoted path
  | nulInPath => "embedded null byte"
  | notUtf8 fault => utf8FaultText fault
  | notEncoded fault => unencodableText fault

/-- The text that the bytes of a file stand for, with all its line ends made newlines. -/
def textOf (bytes : List UInt8) : Except Fault String :=
  match Text.Utf8.decode bytes with
  | .ok cs => .ok (String.ofList (Text.unifyLineEnds cs))
  | .error f => .error (.notUtf8 f)

/-- Where something is: the names that lead to it from the working directory, the first
of which may be double dots, or from the root, which then stands in front. -/
abbrev Location := List String

/-- What can be at a location. -/
inductive Entry where
  | file (bytes : List UInt8)
  | directory
  deriving DecidableEq, Repr

/-- The files and directories that are known. -/
structure Store where
  entries : List (Location × Entry)
  deriving Repr

namespace Location

/-- Whether the location is the working directory or above it. -/
def isAbove (l : Location) : Bool := l.all (· == "..") || l == ["/"]

/-- The location of the directory that `l` is in. -/
def parent (l : Location) : Location :=
  if l == ["/"] then l else if l.isAbove then l ++ [".."] else l.dropLast

/-- The location that `name` leads to from `l`. -/
def step (l : Location) (name : String) : Location :=
  if name == ".." then l.parent else l ++ [name]

end Location

namespace Store

/-- What is at a location.  Every directory that something is in exists. -/
def entry? (s : Store) (l : Location) : Option Entry :=
  match s.entries.find? (·.1 == l) with
  | some e => some e.2
  | none =>
    if Location.isAbove l || s.entries.any fun e => l.isPrefixOf e.1 then some .directory
    else none

/-- No name may have more bytes than this. -/
def longestName : Nat := 255

/-- No path may have this many bytes. -/
def longestPath : Nat := 4096

/-- Follows names from a location; each of them is looked up in a directory. -/
def follow (s : Store) (path : String) : Location → List String → Except Fault Location
  | l, [] => .ok l
  | l, name :: names =>
    match s.entry? l with
    | some .directory =>
      if name.utf8ByteSize ≤ longestName then s.follow path (l.step name) names
      else .error (.nameTooLong path)
    | some (.file _) => .error (.notDirectory path)
    | none => .error (.notFound path)

/-- The location of a path.  All directories on the way to it must exist. -/
def locate (s : Store) (p : Path) : Except Fault Location :=
  if p.text.contains '\x00' then .error .nulInPath
  else if longestPath ≤ p.text.utf8ByteSize then .error (.nameTooLong p.text)
  else s.follow p.text (if p.root.isEmpty then [] else ["/"]) p.names

/-- The bytes of a file. -/
def readBytes (s : Store) (p : Path) : Except Fault (List UInt8) := do
  match s.entry? (← s.locate p) with
  | some (.file bytes) => .ok bytes
  | some .directory => .error (.isDirectory p.text)
  | none => .error (.notFound p.text)

/-- The text of a file. -/
def read (s : Store) (path : String) : Except Fault String := do
  textOf (← s.readBytes (.ofString path))

/-- Puts an entry at a location. -/
def put (s : Store) (l : Location) (e : Entry) : Store :=
  if s.entries.any (·.1 == l) then
    ⟨s.entries.map fun old => if old.1 == l then (l, e) else old⟩
  else ⟨s.entries ++ [(l, e)]⟩

/-- The location of a path by which a file can be written, whether there is one yet or not. -/
def openAt (s : Store) (path : String) : Except Fault Location := do
  let p := Path.ofString path
  let l ← s.locate p
  match s.entry? l with
  | some .directory => .error (.isDirectory p.text)
  | _ => .ok l

/-- Writes code points to a file.  The file is emptied when it is opened, so that it stays
empty if the code points have no bytes. -/
def writePoints (s : Store) (path : String) (ps : List Nat) : Except Fault Unit × Store :=
  match s.openAt path with
  | .error f => (.error f, s)
  | .ok l =>
    match Text.Utf8.encodePoints ps with
    | .ok bytes => (.ok (), s.put l (.file bytes))
    | .error f => (.error (.notEncoded f), s.put l (.file []))

/-- Writes a text to a file. -/
def write (s : Store) (path text : String) : Except Fault Unit × Store :=
  s.writePoints path (Text.Utf8.points text)

end Store

end GnLang.File
