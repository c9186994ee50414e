/-
What can be wrong with a source text.

A `ParseError` has a reason and a place.  `ParseError.Reason.text` words the reason and
`ParseError.describe` adds the place, if it is known.  The reasons fall into four
classes that callers tell apart: something else was expected, the input stopped too
early, the input went on too long, and the nesting is too deep.
-/
import GnLang.Text.Quoted
import GnLang.Token

namespace GnLang

namespace ParseError

/-- Why a text could not be parsed. -/
inductive Reason where
  /-- A reason of no particular class. -/
  | general (text : String)
  /-- A token was found where something else was expected. -/
  | mismatch (expected found : String)
  /-- The input ended before a token or a construct was complete. -/
  | incomplete (text : String)
  /-- The input went on after a complete parse. -/
  | trailing (text : String)
  /-- The constructs are nested more deeply than `limit`. -/
  | tooDeep (limit : Int)
  deriving DecidableEq, Repr

/-- The reason in words. -/
def Reason.text : Reason → String
  | general text => text
  | mismatch expected found => "Expected " ++ expected ++ ", got " ++ Text.quoted found
  | incomplete text => text
  | trailing text => text
  | tooDeep limit => "Input too deeply nested (maximum depth is " ++ toString limit ++ ")"

end ParseError

/-- A reason why a text could not be parsed, and where it was noticed. -/
structure ParseError where
  reason : ParseError.Reason
  pos : Pos
  deriving DecidableEq, Repr

namespace ParseError

/-- The error in words, with its place unless that is unknown. -/
def describe (e : ParseError) : String :=
  if e.pos.line = 0 then e.reason.text
  else e.reason.text ++ " at line " ++ toString e.pos.line ++ ", col " ++ toString e.pos.col

/-- The error of finding the token `t` where `expected` should stand: at the end of the
input more text could still help, elsewhere it could not. -/
def unexpected (expected : String) (t : Token) : ParseError :=
  if t.kind = .endOfInput then
    ⟨.incomplete ("Expected " ++ expected ++ ", got end of input"), t.pos⟩
  else ⟨.mismatch expected t.shown, t.pos⟩

/-- The error of a string that begins at `p` and has no closing quote. -/
def unclosedString (p : Pos) : ParseError := ⟨.incomplete "Unterminated string literal", p⟩

/-- The error of half an operator at `p`, with nothing after it. -/
def halfOperator (p : Pos) : ParseError := ⟨.incomplete "Unterminated operator", p⟩

/-- The error of the token `t` after a complete parse. -/
def leftOver (t : Token) : ParseError :=
  ⟨.trailing ("Unexpected " ++ Text.quoted t.shown ++ " after end of input"), t.pos⟩

end ParseError

end GnLang
