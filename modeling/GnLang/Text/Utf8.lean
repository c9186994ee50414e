/-
Reading and writing UTF-8.

A text is a sequence of characters, so half of a surrogate pair is none.  Where a text comes
from elsewhere it may hold such halves; it is then given by its code points, and has no bytes.

`decode` reads bytes as characters, or says which bytes are at fault and why.  The bytes
at fault are the longest run that could have begun a character: one byte that begins
none, or a sequence cut short by a byte that does not continue it or by the end.
-/

namespace GnLang.Text.Utf8

/-- Why bytes are not UTF-8. -/
inductive Reason where
  | invalidStart
  | invalidContinuation
  | endOfData
  deriving DecidableEq, Repr

/-- Bytes that are not UTF-8: the offset and value of the first, how many there are, and
why they are refused. -/
structure Fault where
  offset : Nat
  byte : UInt8
  count : Nat
  reason : Reason
  deriving DecidableEq, Repr

/-- A character of which some bytes were read: the offset and value of the first, how
many bytes were read and are still owed, the least and the greatest byte that may come
next, and the bits so far. -/
structure Begun where
  offset : Nat
  byte : UInt8
  count : Nat
  owed : Nat
  low : UInt8
  high : UInt8
  bits : Nat

namespace Begun

/-- The fault of the bytes that were read for a character. -/
def fault (b : Begun) (reason : Reason) : Fault := ⟨b.offset, b.byte, b.count, reason⟩

end Begun

/-- The character that begins with the byte `b`: complete, begun, or impossible. -/
def lead (offset : Nat) (b : UInt8) : Option (Char ⊕ Begun) :=
  let begun (owed : Nat) (low high : UInt8) (bits : Nat) : Option (Char ⊕ Begun) :=
    some (.inr ⟨offset, b, 1, owed, low, high, bits⟩)
  if b < 0x80 then some (.inl (Char.ofNat b.toNat))
  else if b < 0xc2 then none
  else if b < 0xe0 then begun 1 0x80 0xbf (b.toNat - 0xc0)
  else if b < 0xf0 then
    begun 2 (if b = 0xe0 then 0xa0 else 0x80) (if b = 0xed then 0x9f else 0xbf)
      (b.toNat - 0xe0)
  else if b < 0xf5 then
    begun 3 (if b = 0xf0 then 0x90 else 0x80) (if b = 0xf4 then 0x8f else 0xbf)
      (b.toNat - 0xf0)
  else none

/-- Reads on at `offset`; `done` holds the characters so far, last first, and `open?` the
one that is not complete. -/
def decodeFrom (done : List Char) (offset : Nat) (open? : Option Begun) :
    List UInt8 → Except Fault (List Char)
  | [] =>
    match open? with
    | none => .ok done.reverse
    | some p => .error (p.fault .endOfData)
  | b :: bs =>
    match open? with
    | none =>
      match lead offset b with
      | none => .error ⟨offset, b, 1, .invalidStart⟩
      | some (.inl c) => decodeFrom (c :: done) (offset + 1) none bs
      | some (.inr p) => decodeFrom done (offset + 1) (some p) bs
    | some p =>
      if p.low ≤ b ∧ b ≤ p.high then
        let bits := p.bits * 64 + (b.toNat - 0x80)
        if p.owed = 1 then decodeFrom (Char.ofNat bits :: done) (offset + 1) none bs
        else
          decodeFrom done (offset + 1)
            (some ⟨p.offset, p.byte, p.count + 1, p.owed - 1, 0x80, 0xbf, bits⟩) bs
      else .error (p.fault .invalidContinuation)

/-- The characters that bytes stand for. -/
def decode (bytes : List UInt8) : Except Fault (List Char) := decodeFrom [] 0 none bytes

/-- The bytes of a text. -/
def encode (cs : List Char) : List UInt8 := cs.flatMap String.utf8EncodeChar

/-! ### Code points -/

/-- Code points that have no bytes: the offset and value of the first, and how many there are
in a row. -/
structure Unencodable where
  offset : Nat
  point : Nat
  count : Nat
  deriving DecidableEq, Repr

/-- The character that a code point stands for, unless it is half of a surrogate pair. -/
def character? (n : Nat) : Option Char :=
  if n.isValidChar then some (Char.ofNat n) else none

/-- The code points of a text. -/
def points (s : String) : List Nat := s.toList.map Char.toNat

/-- The bytes of code points. -/
def encodePoints (ps : List Nat) : Except Unencodable (List UInt8) :=
  let isCharacter (n : Nat) : Bool := (character? n).isSome
  match ps.dropWhile isCharacter with
  | [] => .ok (encode (ps.filterMap character?))
  | p :: rest =>
    .error ⟨ps.length - (p :: rest).length, p, 1 + (rest.takeWhile (!isCharacter ·)).length⟩

end GnLang.Text.Utf8
