/-
Parsing rules.

A rule reads tokens from the front of a list.  It answers with what it made of them, or
with a failure, and in both cases with the tokens it has not consumed, so that a caller
sees how far it came.

* `Rule` — rules, a monad;
* `look`, `takeFront`, `expect`, `failAt` — the tokens at the front;
* `Failure` — all that can go wrong.
-/
import GnLang.Node
import GnLang.ParseError

namespace GnLang

/-- What can go wrong when a text or a list of tokens is parsed. -/
inductive Failure where
  /-- The tokens do not form the construct that was asked for. -/
  | parse (e : ParseError)
  /-- A token had a text that its kind does not allow, so that no node could be made. -/
  | node (f : Node.Fault)
  /-- The text of a number token is no numeral. -/
  | numeral (text : String)
  /-- The nesting limit is not one the parser can keep. -/
  | limit (value : Int)
  /-- The nesting limit was unset. -/
  | noLimit
  /-- A token was asked for that the list does not have. -/
  | noToken
  deriving DecidableEq, Repr

namespace Grammar

/-- The greatest nesting limit a parser takes. -/
def greatestLimit : Nat := 100

/-- The nesting limit of a parser that is not given one. -/
def defaultLimit : Nat := 100

end Grammar

/-- The failure in words. -/
def Failure.text : Failure → String
  | parse e => e.describe
  | node f => f.text
  | numeral s => "invalid literal for int() with base 10: " ++ Text.quoted s
  | limit value =>
    if value < 1 then "max_depth must be positive, got " ++ toString value
    else
      "max_depth must be at most " ++ toString Grammar.greatestLimit
        ++ " at the current recursion limit, got " ++ toString value
  | noLimit => "'<' not supported between instances of 'list' and 'int'"
  | noToken => "list index out of range"

/-- A rule: it consumes tokens from the front of a list, and answers with what it made
of them or with a failure, and with the tokens that are left. -/
def Rule (α : Type) : Type := List Token → Except Failure α × List Token

namespace Rule

/-- The rule that consumes nothing. -/
@[inline] def done {α : Type} (a : α) : Rule α := fun ts => (.ok a, ts)

/-- The rule that fails at once. -/
@[inline] def fail {α : Type} (e : Failure) : Rule α := fun ts => (.error e, ts)

/-- One rule after another. -/
@[inline] def andThen {α β : Type} (r : Rule α) (f : α → Rule β) : Rule β := fun ts =>
  match r ts with
  | (.ok a, rest) => f a rest
  | (.error e, rest) => (.error e, rest)

instance : Monad Rule where
  pure := done
  bind := andThen

theorem pure_apply {α : Type} (a : α) (ts : List Token) :
    (pure a : Rule α) ts = (.ok a, ts) := rfl

theorem bind_apply {α β : Type} (r : Rule α) (f : α → Rule β) (ts : List Token) :
    (r >>= f) ts =
      match r ts with
      | (.ok a, rest) => f a rest
      | (.error e, rest) => (.error e, rest) := rfl

theorem andThen_done {α : Type} (r : Rule α) : r.andThen done = r := by
  funext ts
  rcases h : r ts with ⟨answer, rest⟩
  cases answer <;> simp only [andThen, done, h]

theorem andThen_assoc {α β γ : Type} (r : Rule α) (f : α → Rule β) (g : β → Rule γ) :
    (r.andThen f).andThen g = r.andThen fun a => (f a).andThen g := by
  funext ts
  rcases h : r ts with ⟨answer, rest⟩
  cases answer <;> simp only [andThen, h]

instance : LawfulMonad Rule :=
  LawfulMonad.mk' Rule andThen_done (fun _ _ => rfl) andThen_assoc

/-- An answer that is already known, as a rule that consumes nothing. -/
def answer {α : Type} (a : Except Failure α) : Rule α := fun ts => (a, ts)

/-- The answer of a check, as a rule that consumes nothing. -/
def ofExcept {α : Type} (a : Except Node.Fault α) : Rule α := answer (a.mapError .node)

/-- The tokens that are left. -/
def remaining : Rule (List Token) := fun ts => (.ok ts, ts)

end Rule

namespace Grammar

/-- What a rule needs to know besides the tokens that are left: where the input ends if
they run out, and the nesting limit. -/
structure Setting where
  endPos : Pos
  limit : Nat

variable (s : Setting)

/-- The first token of a list; past the last token stands the end of the input. -/
def front (ts : List Token) : Token := ts.headD (.endAt s.endPos)

/-- The kind of the second token of a list. -/
def secondKind (ts : List Token) : TokenKind :=
  match ts with
  | _ :: t :: _ => t.kind
  | _ => .endOfInput

/-- The token at the front, which stays there. -/
def look : Rule Token := fun ts => (.ok (front s ts), ts)

/-- The kind of the token behind the one at the front. -/
def follower : Rule TokenKind := fun ts => (.ok (secondKind ts), ts)

/-- Consumes the token at the front, unless it is the end of the input. -/
def takeFront : Rule Token := fun ts =>
  let t := front s ts
  (.ok t, if t.kind = .endOfInput then ts else ts.tail)

/-- Consumes the token at the front and forgets it. -/
def skip : Rule Unit := do
  let _ ← takeFront s
  pure ()

/-- Whether the token at the front is of one of the kinds. -/
def isAt (kinds : List TokenKind) : Rule Bool := fun ts =>
  (.ok (kinds.contains (front s ts).kind), ts)

/-- Fails because `expected` should stand at the front. -/
def failAt {α : Type} (expected : String) : Rule α := fun ts =>
  (.error (.parse (.unexpected expected (front s ts))), ts)

/-- Consumes a token of one of the kinds, which a failure calls `expected`. -/
def expect (kinds : List TokenKind) (expected : String) : Rule Token := do
  if ← isAt s kinds then takeFront s else failAt s expected

/-- Fails unless the input is at its end. -/
def ended : Rule Unit := do
  let t ← look s
  if t.kind = .endOfInput then pure () else Rule.fail (.parse (.leftOver t))

end Grammar

end GnLang
