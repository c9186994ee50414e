/-
One run over a source: read it, parse it, write the result.

* `Job` — what is asked for;
* `Job.run` — the text that comes out of a job, or the first fault, with the log;
* `Job.execute` — the same with files: the text is printed, or written to a file.

A job that fails has printed nothing.  It has changed no file either, except that a file is
emptied before it is found that the text for it has no bytes.
-/
import GnLang.File.Store
import GnLang.Format.Writer
import GnLang.Log
import GnLang.Target

namespace GnLang

/-- What is asked for: a source, which is the text itself or the path of a file; the
format, or a list of targets instead; the file to write to, if the result is not to be
printed; and the nesting limit.  Where the format or the limit is unset, the job fails
when it is needed. -/
structure Job where
  source : String
  isText : Bool
  format : Option String
  out : Option String
  listTargets : Bool
  limit : Option Int
  deriving DecidableEq, Repr

namespace Job

/-- Why a job fails. -/
inductive Fault where
  /-- The path does not end like that of a source file. -/
  | unsupported
  | file (f : File.Fault)
  | parse (f : Failure)
  | target (f : Target.Fault)
  | label (f : Label.Fault)
  | format (f : Format.Fault)
  deriving DecidableEq, Repr

/-- The fault in words. -/
def Fault.text : Fault → String
  | unsupported => "Only .gn and .gni files are supported."
  | file f => f.text
  | parse f => f.text
  | target f => f.text
  | label f => f.text
  | format f => f.text

/-- How the paths of source files end. -/
def suffixes : List String := [".gn", ".gni"]

/-- Whether a path ends like that of a source file. -/
def isSourcePath (path : String) : Bool := suffixes.any (path.endsWith ·)

/-- What reads the text of a file, given its path. -/
abbrev FileReader := String → Except File.Fault String

/-- The text of a job's source, with the log of reading it. -/
def readSource (job : Job) (read : FileReader) : Except Fault String × List Log.Entry :=
  if job.isText then (.ok job.source, [])
  else if isSourcePath job.source then
    ((read job.source).mapError .file, [Log.reading job.source])
  else (.error .unsupported, [])

/-- The text that a program is written as, with the log of looking for targets.  There is room
for so many calls. -/
def write (job : Job) (room : Room) (x : Node) : Except Fault String × List Log.Entry :=
  if job.listTargets then
    match Target.collect x Target.callName with
    | .ok targets =>
      ((Target.describeAll targets).mapError .label, [Log.found targets.length])
    | .error f => (.error (.target f), [])
  else
    ((Format.items? x >>= Format.renderIn room job.format).mapError .format, [])

/-- The text that comes out of a job, with the log of making it. -/
def run (job : Job) (room : Room) (read : FileReader) :
    Except Fault String × List Log.Entry :=
  match job.readSource read with
  | (.error f, log) => (.error f, log)
  | (.ok source, log) =>
    let answer := readProgramWithin source job.limit
    let log := log ++ Log.ofParse source answer
    match answer with
    | .error f => (.error (.parse f), log)
    | .ok x =>
      let (text, more) := job.write room x
      (text, log ++ more)

/-- What a job leaves behind: its fault if it failed, what it printed, its log, and the
files. -/
structure Outcome where
  fault : Option Fault
  printed : String
  log : List Log.Entry
  files : File.Store
  deriving Repr

/-- Where the result is to be written, if it is not to be printed. -/
def target? (job : Job) : Option String := job.out.filter (!·.isEmpty)

/-- Runs a job and prints its result or writes it to a file. -/
def execute (job : Job) (room : Room) (files : File.Store) : Outcome :=
  match job.run room files.read with
  | (.error f, log) => ⟨some f, "", log, files⟩
  | (.ok text, log) =>
    match job.target? with
    | none => ⟨none, text, log, files⟩
    | some path =>
      match files.write path text with
      | (.ok (), files) => ⟨none, "", log ++ [Log.wrote text path], files⟩
      | (.error f, files) => ⟨some (.file f), "", log, files⟩

end Job

/-- The program that a file holds. -/
def readProgramFile (files : File.Store) (path : String) (limit : Int) : Except Job.Fault Node := do
  let source ← (files.read path).mapError .file
  (readProgram source limit).mapError .parse

end GnLang
