/-
Reading a text character by character.

A `Cursor` stands at an index of a text and keeps the place that goes with it.  A caller
may set it anywhere.  A negative index counts from the end of the text: those characters
can be read, and are read before the first character of the text, but peeking does not
show them.  So whatever skips characters first reads on to the start of the text
(`toStart`), and from there on it does what the scanner does.
-/
import GnLang.Index
import GnLang.Scan

namespace GnLang

/-- An index into a text, and the place that goes with it. -/
structure Cursor where
  source : List Char
  index : Int
  pos : Pos
  deriving DecidableEq, Repr

namespace Cursor

/-- Why nothing could be read. -/
inductive Fault where
  /-- The index is at or after the end. -/
  | pastEnd (index : Int) (line : Int)
  /-- The index is before the first character that counts from the end. -/
  | beforeStart
  /-- The text at the index is no token. -/
  | lexical (e : ParseError)
  deriving DecidableEq, Repr

/-- The fault in words. -/
def Fault.text : Fault → String
  | pastEnd index line =>
    "Attempted to read past end of source at position=<" ++ toString index
      ++ ">, line=<" ++ toString line ++ ">"
  | beforeStart => "string index out of range"
  | lexical e => e.describe

/-- The start of a text. -/
def ofString (s : String) : Cursor := ⟨s.toList, 0, .start⟩

/-- Whether the cursor is at the end of the text or after it. -/
def atEnd (c : Cursor) : Bool := c.source.length ≤ c.index

/-- The character at the index, and the cursor after it. -/
def read (c : Cursor) : Except Fault Char × Cursor :=
  if c.atEnd then (.error (.pastEnd c.index c.pos.line), c)
  else match pick? c.source c.index with
    | some ch => (.ok ch, { c with index := c.index + 1, pos := c.pos.next ch })
    | none => (.error .beforeStart, c)

/-- The character `offset` places on, if the text has it. -/
def ahead? (c : Cursor) (offset : Int) : Option Char :=
  if 0 ≤ c.index + offset then c.source[(c.index + offset).toNat]? else none

/-- Reads `n` characters. -/
def skip : Nat → Cursor → Except Fault Unit × Cursor
  | 0, c => (.ok (), c)
  | n + 1, c =>
    match c.read with
    | (.ok _, c) => skip n c
    | (.error f, c) => (.error f, c)

/-- Reads on to the start of the text, if the index is negative. -/
def toStart (c : Cursor) : Except Fault Unit × Cursor := skip (-c.index).toNat c

/-- The text from the cursor on. -/
def scan (c : Cursor) : Scan := ⟨c.pos, c.source.drop c.index.toNat⟩

/-- The cursor after a scanner has gone on from it to `s`. -/
def moveTo (c : Cursor) (s : Scan) : Cursor :=
  { c with index := c.index + (c.scan.rest.length - s.rest.length : Nat), pos := s.pos }

/-- Skips blanks and comments. -/
def pastGap (c : Cursor) : Except Fault Unit × Cursor :=
  match c.toStart with
  | (.ok (), c) => (.ok (), c.moveTo c.scan.pastGap)
  | (.error f, c) => (.error f, c)

/-- Skips to the end of the line. -/
def pastComment (c : Cursor) : Except Fault Unit × Cursor :=
  match c.toStart with
  | (.ok (), c) => (.ok (), c.moveTo c.scan.pastComment)
  | (.error f, c) => (.error f, c)

/-- The symbol at the index, if there is one, and the cursor after it. -/
def symbol? (c : Cursor) : Option Token × Cursor :=
  if c.index < 0 then (none, c)
  else match symbolAt? c.scan.rest with
    | some s =>
      let size := s.chars.length
      (some ⟨.symbol s, s.text, c.pos⟩,
        c.moveTo ⟨c.pos.after (c.scan.rest.take size), c.scan.rest.drop size⟩)
    | none => (none, c)

/-- The next token, and the cursor after what was read for it. -/
def token (c : Cursor) : Except Fault Token × Cursor :=
  match c.pastGap with
  | (.ok (), c) =>
    match c.scan.tokenHere with
    | (.ok t, s) => (.ok t, c.moveTo s)
    | (.error e, s) => (.error (.lexical e), c.moveTo s)
  | (.error f, c) => (.error f, c)

end Cursor

end GnLang
