/-
The command line.

Words that begin with a dash are options.  A long option may be shortened to any prefix
that fits no other, and carries its value after an equals sign or in the next word.
Short options may be written together, and the last of them may have its value attached;
an equals sign is passed over only after the first of them.
A double dash ends the options.  A negative number is no option, and neither is a word
with a blank in it unless it begins like one.

Words are first told apart one by one (`classify`), all of them before any takes effect;
then they are taken in order (`Reader.take`), and each option takes effect before the
next is looked at.

* `Options` — what a command line asks for;
* `parseArguments` — the options of a command line, a request for help, or a fault.
-/
import GnLang.Command.Depth
import GnLang.Format.Writer

namespace GnLang.Command

/-- What a command line asks for.  The format, the file to write to and the limit are
each unset by two dashes in place of a value. -/
structure Options where
  source : Option String
  isText : Bool
  format : Option String
  out : Option String
  listTargets : Bool
  limit : Option Nat
  interactive : Bool
  verbose : Bool
  deriving DecidableEq, Repr

/-- What an empty command line asks for. -/
def Options.default : Options :=
  ⟨none, false, some "gn", none, false, some Grammar.defaultLimit, false, false⟩

/-- The options. -/
inductive Flag where
  | help | string | format | out | targets | maxDepth | repl | verbose
  deriving DecidableEq, Repr

namespace Flag

/-- The options in the order that the help lists them. -/
def all : List Flag := [help, string, format, out, targets, maxDepth, repl, verbose]

/-- How an option is written, short form first. -/
def names : Flag → List String
  | help => ["-h", "--help"]
  | string => ["-s", "--string"]
  | format => ["-f", "--format"]
  | out => ["-o", "--out"]
  | targets => ["--targets"]
  | maxDepth => ["--max-depth"]
  | repl => ["--repl"]
  | verbose => ["--verbose"]

/-- Whether the option takes a value. -/
def takesValue : Flag → Bool
  | format | out | maxDepth => true
  | _ => false

/-- Every way to write an option, with the option. -/
def spellings : List (String × Flag) := all.flatMap fun f => f.names.map (·, f)

/-- The option written exactly so. -/
def named? (s : String) : Option Flag := (spellings.find? (·.1 == s)).map (·.2)

end Flag

/-- Why a command line cannot be used. -/
inductive UsageFault where
  | ambiguous (word : String) (candidates : List String)
  | expectedValue (flag : Flag)
  | ignoredValue (flag : Flag) (value : String)
  | unknownFormat (value : String)
  | depth (fault : DepthFault)
  | unrecognized (words : List String)
  deriving DecidableEq, Repr

/-- The fault of an option, in words. -/
def flagFaultText (flag : Flag) (text : String) : String :=
  "argument " ++ "/".intercalate flag.names ++ ": " ++ text

/-- The fault in words. -/
def UsageFault.text : UsageFault → String
  | ambiguous word candidates =>
    "ambiguous option: " ++ word ++ " could match " ++ ", ".intercalate candidates
  | expectedValue flag => flagFaultText flag "expected one argument"
  | ignoredValue flag value =>
    flagFaultText flag ("ignored explicit argument " ++ Text.quoted value)
  | unknownFormat value =>
    flagFaultText .format
      ("invalid choice: " ++ Text.quoted value ++ " (choose from "
        ++ ", ".intercalate (Format.names.map Text.quoted) ++ ")")
  | depth fault => flagFaultText .maxDepth fault.text
  | unrecognized words => "unrecognized arguments: " ++ " ".intercalate words

/-! ### Telling words apart -/

/-- What a word of a command line is. -/
inductive Word where
  /-- A word that is no option. -/
  | plain (text : String)
  /-- The word that ends the options. -/
  | dashes
  /-- A word that should be an option, but is none. -/
  | unknown (text : String)
  /-- A long option, and what stands after its equals sign, if it has one. -/
  | long (flag : Flag) (attached : Option (List Char))
  /-- A short option, and what is attached to it, if anything is: all that stands after
  its letter, or after an equals sign that follows the letter. -/
  | short (flag : Flag) (attached : Option (List Char))
  deriving DecidableEq, Repr

namespace Word

/-- The word as it was typed, for those that can be left over. -/
def raw : Word → String
  | plain text | unknown text => text
  | dashes => "--"
  | long .. | short .. => ""

/-- Whether the word is an option, known or not. -/
def isOption : Word → Bool
  | plain _ | dashes => false
  | _ => true

end Word

/-- Whether a word is a negative number, in digits of any script. -/
def isNegativeNumber (cs : List Char) : Bool :=
  match if cs.getLast? = some '\n' then cs.dropLast else cs with
  | '-' :: rest =>
    match rest.dropWhile Text.isDecimalDigit with
    | [] => !rest.isEmpty
    | '.' :: decimals => !decimals.isEmpty && decimals.all Text.isDecimalDigit
    | _ => false
  | _ => false

/-- What stands after the first equals sign, if there is one. -/
def afterEquals? (cs : List Char) : Option (List Char) :=
  match cs.dropWhile (· != '=') with
  | [] => none
  | _ :: value => some value

/-- The option written exactly as the word is up to an equals sign. -/
def spelledOut? (cs : List Char) : Option Word :=
  (Flag.named? (String.ofList (cs.takeWhile (· != '=')))).map fun flag =>
    if "--".toList.isPrefixOf cs then .long flag (afterEquals? cs)
    else .short flag (afterEquals? cs)

/-- The options that a word may stand for that is no option by itself, each with how it
is written: those with the word, up to an equals sign, as a prefix; or the short option
that the word begins with. -/
def candidates (word : String) : List (String × Word) :=
  match word.toList with
  | '-' :: '-' :: cs =>
    let stem := '-' :: '-' :: cs.takeWhile (· != '=')
    (Flag.spellings.filter fun s => stem.isPrefixOf s.1.toList).map fun s =>
      (s.1, .long s.2 (afterEquals? cs))
  | '-' :: c :: cs =>
    (Flag.spellings.filter (·.1.toList == ['-', c])).map fun s => (s.1, .short s.2 (some cs))
  | _ => []

/-- What a word is, where options have not ended. -/
def classify (word : String) : Except UsageFault Word :=
  let cs := word.toList
  if cs.head? ≠ some '-' then .ok (.plain word)
  else if word = "--" then .ok .dashes
  else
    match spelledOut? cs with
    | some w => .ok w
    | none =>
      if word = "-" then .ok (.plain word)
      else
        match candidates word with
        | [c] => .ok c.2
        | [] =>
          if isNegativeNumber cs || cs.contains ' ' then .ok (.plain word)
          else .ok (.unknown word)
        | several => .error (.ambiguous word (several.map (·.1)))

/-- What each word is: after a double dash none is an option. -/
def classifyAll : List String → Except UsageFault (List Word)
  | [] => .ok []
  | word :: words => do
    match ← classify word with
    | .dashes => return .dashes :: words.map .plain
    | w => return w :: (← classifyAll words)

/-! ### Taking words in order -/

/-- What an option contributes. -/
inductive Piece where
  | set (flag : Flag)
  | value (flag : Flag) (text : String)
  /-- An option whose value is the next word. -/
  | wanting (flag : Flag)
  deriving DecidableEq, Repr

/-- What an option contributes that has nothing attached. -/
def Piece.bare (flag : Flag) : Piece := if flag.takesValue then .wanting flag else .set flag

/-- What a short option contributes that `tail` is attached to: its value, if it takes
one, and otherwise more short options. -/
def unbundle (flag : Flag) (tail : List Char) : Except UsageFault (List Piece) :=
  match tail with
  | [] => .ok [.bare flag]
  | c :: rest =>
    if flag.takesValue then .ok [.value flag (String.ofList (c :: rest))]
    else
      match Flag.named? (String.ofList ['-', c]) with
      | none => .error (.ignoredValue flag (String.ofList (c :: rest)))
      | some other => do return .set flag :: (← unbundle other rest)
  termination_by structural tail

/-- What an option contributes with what is attached to it.  An empty text is attached
where nothing follows an equals sign. -/
def pieces (flag : Flag) (isShort : Bool) (attached : Option (List Char)) :
    Except UsageFault (List Piece) :=
  match attached with
  | none => .ok [.bare flag]
  | some text =>
    if flag.takesValue then .ok [.value flag (String.ofList text)]
    else if isShort && !text.isEmpty then unbundle flag text
    else .error (.ignoredValue flag (String.ofList text))

/-- A command line on the way: the options so far, whether the source may still come,
and the words left over, last first. -/
structure Reader where
  options : Options
  open? : Bool
  leftOver : List String

/-- How the reading of a command line stops before its end. -/
inductive Stop where
  | help
  | fault (f : UsageFault)
  deriving DecidableEq, Repr

namespace Reader

/-- Lets an option take effect. -/
def set (r : Reader) : Flag → Except Stop Reader
  | .help => .error .help
  | .string => .ok { r with options.isText := true }
  | .targets => .ok { r with options.listTargets := true }
  | .repl => .ok { r with options.interactive := true }
  | .verbose => .ok { r with options.verbose := true }
  | _ => .ok r

/-- Unsets what an option sets. -/
def unset (r : Reader) : Flag → Reader
  | .format => { r with options.format := none }
  | .out => { r with options.out := none }
  | .maxDepth => { r with options.limit := none }
  | _ => r

/-- Lets an option with a value take effect.  Two dashes are no value. -/
def setValue (r : Reader) (text : String) (flag : Flag) : Except Stop Reader :=
  if text = "--" then .ok (r.unset flag)
  else
    match flag with
    | .format =>
      if Format.names.contains text then .ok { r with options.format := some text }
      else .error (.fault (.unknownFormat text))
    | .out => .ok { r with options.out := some text }
    | .maxDepth =>
      match readDepth text with
      | .ok limit => .ok { r with options.limit := some limit }
      | .error f => .error (.fault (.depth f))
    | _ => .ok r

/-- Lets pieces take effect in order; `value?` is the value of one that wants it. -/
def apply (r : Reader) (value? : Option String) : List Piece → Except Stop Reader
  | [] => .ok r
  | .set flag :: pieces => do (← r.set flag).apply value? pieces
  | .value flag text :: pieces => do (← r.setValue text flag).apply value? pieces
  | .wanting flag :: pieces =>
    match value? with
    | some text => do (← r.setValue text flag).apply value? pieces
    | none => .error (.fault (.expectedValue flag))

/-- The option that wants the next word as its value. -/
def wanting? (pieces : List Piece) : Option Flag :=
  pieces.findSome? fun
    | .wanting flag => some flag
    | _ => none

/-- Takes the words after the last option: the source, if it may still come, is the
first of them, perhaps after a double dash. -/
def finish (r : Reader) (words : List Word) : Reader :=
  let leave (words : List Word) : Reader :=
    { r with leftOver := (words.map Word.raw).reverse ++ r.leftOver }
  let start (text : String) (words : List Word) : Reader :=
    let r := leave words
    { r with options.source := some text }
  if r.open? then
    match words with
    | .plain text :: .dashes :: rest => start text rest
    | .plain text :: rest => start text rest
    | .dashes :: .plain text :: rest => start text rest
    | .dashes :: rest => leave rest
    | _ => leave words
  else leave words

/-- Takes the words in order. -/
def take (r : Reader) : List Word → Except Stop Reader
  | [] => .ok (r.finish [])
  | word :: words =>
    if !(word :: words).any Word.isOption then .ok (r.finish (word :: words))
    else
      match word with
      | .plain text =>
        if r.open? then take { r with options.source := some text, open? := false } words
        else take { r with leftOver := text :: r.leftOver } words
      | .dashes => take { r with leftOver := word.raw :: r.leftOver } words
      | .unknown text => take { r with leftOver := text :: r.leftOver } words
      | .long flag attached => takeOption r (pieces flag false attached) words
      | .short flag attached => takeOption r (pieces flag true attached) words
  termination_by words => 2 * words.length
where
  /-- Lets the pieces of an option take effect, and takes the words after it. -/
  takeOption (r : Reader) (pieces? : Except UsageFault (List Piece)) (words : List Word) :
      Except Stop Reader :=
    match pieces? with
    | .error f => .error (.fault f)
    | .ok pieces =>
      match wanting? pieces, words with
      | some _, .plain text :: words => do (← r.apply (some text) pieces).take words
      | some flag, _ => .error (.fault (.expectedValue flag))
      | none, words => do (← r.apply none pieces).take words
  termination_by 2 * words.length + 1

end Reader

/-- The options of a command line. -/
def parseArguments (args : List String) : Except Stop Options := do
  let words ← (classifyAll args).mapError .fault
  let r ← Reader.take ⟨.default, true, []⟩ words
  if r.leftOver.isEmpty then return r.options
  else .error (.fault (.unrecognized r.leftOver.reverse))

end GnLang.Command
