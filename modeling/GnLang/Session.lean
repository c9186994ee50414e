/-
Interactive sessions.

A session takes one line at a time.  Lines are kept for as long as together they are an
incomplete program; once they are complete the program is shown in the chosen format,
and once they cannot become complete the error is shown and they are forgotten.

A line that ends in ')' completes a call, but the body of the call may still follow on
the next line.  So the program is then held back: if the next line begins with a brace
it goes on with the held lines, and otherwise the held program is shown first.

* `Session` — the lines that are kept, and the program that is held back;
* `Session.step` — what one line, or leaving, does to a session;
* `Session.transcript` — a whole session, from greeting to farewell.
-/
import GnLang.Format.Writer
import GnLang.Log
import GnLang.Node.Debug
import GnLang.Text.Space

namespace GnLang

/-- The lines that are kept, and the program that is held back. -/
structure Session where
  lines : List String
  held : Option Node
  deriving Repr

namespace Session

/-- How a session shows and parses: the format, whether trees are also written out in
full, the nesting limit, and the room for the calls that show a tree.  Where the format or
the limit is unset, the session breaks off when it is needed; it does so as well if there
is no room to show a tree. -/
structure Config where
  format : Option String
  verbose : Bool
  limit : Option Int
  room : Room

/-- What a person does at a prompt: types a line, or leaves by an interrupt or by ending
the input. -/
inductive Event where
  | line (text : String)
  | leave
  deriving DecidableEq, Repr

/-- What a session prints. -/
inductive Message where
  | greeting
  /-- A program in the chosen format. -/
  | shown (text : String)
  /-- A program written out in full. -/
  | dumped (text : String)
  /-- An error in the lines that were kept. -/
  | problem (e : ParseError)
  /-- The session ends, at a new prompt or on the line of the last one. -/
  | farewell (newLine : Bool)
  deriving DecidableEq, Repr

/-- A message as it is printed. -/
def Message.text : Message → String
  | greeting => "GN parser REPL. Type 'quit' or 'exit' to leave.\n"
  | shown text => text
  | dumped text => "[ast] >>> " ++ text ++ "\n"
  | problem e => "[error] >>>\n" ++ e.describe ++ "\n"
  | farewell newLine => (if newLine then "\n" else "") ++ "Exiting GN REPL.\n"

/-- Why a session breaks off. -/
inductive Fault where
  | format (f : Format.Fault)
  | parse (f : Failure)
  deriving DecidableEq, Repr

/-- How a session goes on. -/
inductive Next where
  | ask (s : Session)
  | finished
  | broken (f : Fault)
  deriving Repr

/-- What a step of a session prints and logs, and how the session goes on. -/
structure Turn where
  printed : List Message
  log : List Log.Entry
  next : Next
  deriving Repr

/-- A turn before which something else was printed. -/
def Turn.after (printed : List Message) (t : Turn) : Turn :=
  { t with printed := printed ++ t.printed }

/-- The session at its start, and whenever nothing is pending. -/
def fresh : Session := ⟨[], none⟩

/-- What is printed to ask for a line. -/
def prompt (s : Session) : String := if s.lines.isEmpty then "gn> " else "... "

variable (config : Config)

/-- What is printed to show a program, and the fault if it cannot be shown. -/
def display (x : Node) : List Message × Option Fault :=
  let dump : Except Format.Fault (List Message) :=
    if config.verbose then (fun text => [.dumped text]) <$> Format.dump config.room x else .ok []
  match dump, Format.items? x >>= Format.renderIn config.room config.format with
  | .ok dump, .ok text => (dump ++ [.shown text], none)
  | .ok dump, .error f => (dump, some (.format f))
  | .error f, _ => ([], some (.format f))

/-- Shows a program and goes on as given. -/
def showThen (x : Node) (t : Turn) : Turn :=
  match display config x with
  | (printed, none) => t.after printed
  | (printed, some f) => ⟨printed, [], .broken f⟩

/-- Keeps a line and parses what is kept; no program is held back. -/
def parseLine (kept : List String) (line command : String) : Turn :=
  let lines := kept ++ [line]
  let source := "\n".intercalate lines
  let answer := readProgramWithin source config.limit
  let log := Log.ofParse source answer
  match answer with
  | .ok x =>
    if command.endsWith ")" then ⟨[], log, .ask ⟨lines, some x⟩⟩
    else { showThen config x ⟨[], [], .ask fresh⟩ with log }
  | .error (.parse ⟨.incomplete _, _⟩) => ⟨[], log, .ask ⟨lines, none⟩⟩
  | .error (.parse e) => ⟨[.problem e], log, .ask fresh⟩
  | .error f => ⟨[], log, .broken (.parse f)⟩

/-- Takes a line when no program is held back.  With no lines kept, blank lines are
passed over and a word can end the session. -/
def takeLine (kept : List String) (line command : String) : Turn :=
  if kept.isEmpty && (command == "quit" || command == "exit") then
    ⟨[.farewell false], [], .finished⟩
  else if kept.isEmpty && command.isEmpty then ⟨[], [], .ask fresh⟩
  else parseLine config kept line command

/-- What one event does to a session. -/
def step (s : Session) : Event → Turn
  | .line line =>
    let command := Text.trim line
    match s.held with
    | none => takeLine config s.lines line command
    | some x =>
      if command.startsWith "\x7b" then takeLine config s.lines line command
      else showThen config x (takeLine config [] line command)
  | .leave =>
    let bye : Turn := ⟨[.farewell true], [], .finished⟩
    match s.held with
    | none => bye
    | some x => showThen config x bye

/-! ### Whole sessions -/

/-- A session from greeting to end: what was printed before each prompt, with the prompt;
what was printed after the last one; the log; and the fault that broke the session off. -/
structure Transcript where
  prompts : List (List Message × String)
  rest : List Message
  log : List Log.Entry
  fault : Option Fault
  deriving Repr

/-- The session from `s` on, with `printed` since the last prompt.  When the events run
out, the person leaves. -/
def transcriptFrom (printed : List Message) (s : Session) : List Event → Transcript
  | [] => close printed s (step config s .leave)
  | e :: events =>
    let t := step config s e
    match t.next with
    | .ask s' =>
      let r := transcriptFrom t.printed s' events
      { r with prompts := (printed, s.prompt) :: r.prompts, log := t.log ++ r.log }
    | _ => close printed s t
where
  /-- The last turn of a session. -/
  close (printed : List Message) (s : Session) (t : Turn) : Transcript :=
    ⟨[(printed, s.prompt)], t.printed, t.log,
      match t.next with
      | .broken f => some f
      | _ => none⟩

/-- A whole session. -/
def transcript (events : List Event) : Transcript :=
  transcriptFrom config [.greeting] fresh events

end Session

end GnLang
