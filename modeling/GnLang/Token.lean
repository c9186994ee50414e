/-
Tokens.

A token has a kind, a text and the place of its first character.  The text of a string
token is what stands between its quotes.  A kind is known to callers by its name
(`TokenKind.name`, read back by `TokenKind.ofName`); a name the language does not use
is kept as it is, so that a hand-made token list can hold anything.
-/
import GnLang.Pos
import GnLang.Symbol

namespace GnLang

/-- What a token is. -/
inductive TokenKind where
  | ident
  | number
  | string
  | symbol (s : Symbol)
  /-- A character that starts no token. -/
  | stray
  | endOfInput
  /-- A kind the language does not have. -/
  | other (name : String)
  deriving DecidableEq, Repr, Inhabited

namespace TokenKind

/-- What the kind is called. -/
def name : TokenKind → String
  | ident => "IDENT"
  | number => "NUMBER"
  | string => "STRING"
  | symbol s => s.name
  | stray => "ERROR"
  | endOfInput => "EOF"
  | other s => s

/-- The kind called `s`. -/
def ofName (s : String) : TokenKind :=
  match [ident, number, string, stray, endOfInput].find? (·.name == s) with
  | some k => k
  | none => match Symbol.ofName? s with
    | some t => symbol t
    | none => other s

/-- Whether tokens of the kind can stand before an operand. -/
def isUnary : TokenKind → Bool
  | symbol s => s.isUnary
  | _ => false

/-- Whether tokens of the kind can stand between two operands. -/
def isBinary : TokenKind → Bool
  | symbol s => s.isBinary
  | _ => false

/-- Whether tokens of the kind can stand between a target and its value. -/
def isAssign : TokenKind → Bool
  | symbol s => s.isAssign
  | _ => false

end TokenKind

/-- A token: its kind, its text, and where it starts. -/
structure Token where
  kind : TokenKind
  text : String
  pos : Pos
  deriving DecidableEq, Repr, Inhabited

namespace Token

/-- The token that stands for the end of the input. -/
def endAt (p : Pos) : Token := ⟨.endOfInput, "", p⟩

/-- The lexeme as an error message shows it. -/
def shown (t : Token) : String :=
  match t.kind with
  | .endOfInput => "end of input"
  | .string => "\"" ++ t.text ++ "\""
  | _ => t.text

/-- The token written out for a reader who debugs a token list. -/
def debugText (t : Token) : String := "Token(" ++ t.kind.name ++ ", " ++ t.text ++ ")"

end Token

end GnLang
