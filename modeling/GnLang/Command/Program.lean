/-
The program as it is called from a command line.

`invoke` reads the arguments; then it helps, reports a misuse, runs an interactive
session, or executes a job.  It is a function of the arguments, the files, the lines that a
person would type and the room for calls, and answers with everything that can be seen of a
run.

The arguments are texts of characters.  Bytes that are not UTF-8 would be handed over as halves
of surrogate pairs; what becomes of a file when such a text is written to it says
`File.Store.writePoints`.
-/
import GnLang.Command.Help
import GnLang.Command.Job
import GnLang.Command.Options
import GnLang.Session

namespace GnLang.Command

/-- How a run ends. -/
inductive Ending where
  | exit (code : Nat)
  /-- The run breaks off at a fault that it does not report. -/
  | broken (f : Job.Fault)
  deriving DecidableEq, Repr

/-- What can be seen of a run: how it ended, what was printed, what was reported as
wrong, the log, and the files. -/
structure Outcome where
  ending : Ending
  printed : String
  problems : String
  log : List Log.Entry
  files : File.Store
  deriving Repr

namespace Options

/-- The job that options ask for, with a source. -/
def job (o : Options) (source : String) : Job :=
  ⟨source, o.isText, o.format, o.out, o.listTargets, o.limit.map (↑·)⟩

/-- The configuration of the session that options ask for. -/
def session (o : Options) (room : Room) : Session.Config :=
  ⟨o.format, o.verbose, o.limit.map (↑·), room⟩

end Options

/-- Messages as they are printed, one after another. -/
def messageText (ms : List Session.Message) : String := String.join (ms.map (·.text))

/-- Everything a session prints, prompts included. -/
def transcriptText (t : Session.Transcript) : String :=
  String.join (t.prompts.map fun p => messageText p.1 ++ p.2) ++ messageText t.rest

/-- Why a session broke off, as the fault of a job. -/
def sessionFault : Session.Fault → Job.Fault
  | .format f => .format f
  | .parse f => .parse f

/-- Runs a session.  It reports no faults but those of the lines it takes. -/
def runSession (o : Options) (room : Room) (files : File.Store)
    (typed : List Session.Event) : Outcome :=
  let t := Session.transcript (o.session room) typed
  let ending : Ending := match t.fault with
    | none => .exit 0
    | some f => .broken (sessionFault f)
  ⟨ending, transcriptText t, "", t.log, files⟩

/-- Whether a failure to parse is reported: not if the limit was unset, nor if the rules have
gone wrong. -/
def isReportedFailure : Failure → Bool
  | .parse _ | .numeral _ | .limit _ => true
  | .node (.invalidTarget _) => false
  | .node _ => true
  | .noLimit | .noToken => false

/-- Whether a fault of a job is reported.  A run breaks off if something was unset which the
job needs, if there is no room for another call, or at a fault that only a tree of no program
can have. -/
def isReported : Job.Fault → Bool
  | .unsupported | .file _ | .label _ => true
  | .parse f => isReportedFailure f
  | .target f => f.isOfProgram
  | .format (.unknownFormat _) => true
  | .format _ => false

/-- Executes a job. -/
def runJob (job : Job) (room : Room) (files : File.Store) : Outcome :=
  let r := job.execute room files
  match r.fault with
  | none => ⟨.exit 0, r.printed, "", r.log, r.files⟩
  | some f =>
    if isReported f then ⟨.exit 1, r.printed, "error: " ++ f.text ++ "\n", r.log, r.files⟩
    else ⟨.broken f, r.printed, "", r.log, r.files⟩

/-- Runs what options ask for.  The log is kept only if it was asked for. -/
def runOptions (o : Options) (room : Room) (files : File.Store)
    (typed : List Session.Event) : Outcome :=
  let r :=
    match o.interactive, o.source with
    | false, some source => runJob (o.job source) room files
    | _, _ => runSession o room files typed
  { r with log := if o.verbose then r.log else [] }

/-- A whole run. -/
def invoke (room : Room) (args : List String) (files : File.Store)
    (typed : List Session.Event) : Outcome :=
  match parseArguments args with
  | .ok o => runOptions o room files typed
  | .error .help => ⟨.exit 0, helpText, "", [], files⟩
  | .error (.fault f) =>
    ⟨.exit 2, "", usageText ++ "gnparse: error: " ++ f.text ++ "\n", [], files⟩

end GnLang.Command
