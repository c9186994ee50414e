/-
The program.

Everything is decided by the definitions this module imports; here files are read and
written, lines are read from a terminal, and texts are printed.
-/
import GnLang.Command.Program

namespace GnLang

/-- The fault that an error of the operating system stands for, if there is one. -/
def fileFault? (path : String) : IO.Error → Option File.Fault
  | .noFileOrDirectory .. => some (.notFound path)
  | .inappropriateType _ code _ =>
    some (if code = 20 then .notDirectory path else .isDirectory path)
  | _ => none

/-- Runs an action on a file; an error that is not a fault of the file is passed on. -/
def tryFile {α : Type} (path : String) (action : IO α) : IO (Except File.Fault α) := do
  try return .ok (← action)
  catch e =>
    match fileFault? (File.Path.ofString path).text e with
    | some f => return .error f
    | none => throw e

/-- Prints the log if it was asked for. -/
def printLog (wanted : Bool) (log : List Log.Entry) : IO Unit := do
  if wanted then
    for e in log do
      IO.eprintln (Log.level ++ " [" ++ e.origin.name ++ "] " ++ e.text)

/-- Runs a job on the files of the system. -/
def runJob (job : Job) (verbose : Bool) : IO UInt32 := do
  let bytes ←
    if job.isText || !Job.isSourcePath job.source then pure (.ok ByteArray.empty)
    else tryFile job.source (IO.FS.readBinFile job.source)
  let (result, log) := job.run .usual fun _ => do File.textOf (← bytes).toList
  printLog verbose log
  let fault? ← match result, job.target? with
    | .error f, _ => pure (some f)
    | .ok text, none => do
      IO.print text
      pure none
    | .ok text, some path => do
      match ← tryFile path (IO.FS.writeFile path text) with
      | .ok () =>
        printLog verbose [Log.wrote text path]
        pure none
      | .error f => pure (some (.file f))
  match fault? with
  | none => return 0
  | some f =>
    IO.eprintln (if Command.isReported f then "error: " ++ f.text else f.text)
    return 1

/-- Runs a session at the terminal. -/
partial def runSession (config : Session.Config) (s : Session) (input : IO.FS.Stream) :
    IO UInt32 := do
  IO.print s.prompt
  (← IO.getStdout).flush
  let line ← input.getLine
  let event : Session.Event :=
    if line.isEmpty then .leave
    else .line (if line.endsWith "\n" then (line.dropEnd 1).toString else line)
  let t := Session.step config s event
  printLog config.verbose t.log
  IO.print (Command.messageText t.printed)
  match t.next with
  | .ask s => runSession config s input
  | .finished => return 0
  | .broken f =>
    IO.eprintln (Command.sessionFault f).text
    return 1

/-- Runs the program with the given arguments. -/
def runCommandLine (args : List String) : IO UInt32 := do
  match Command.parseArguments args with
  | .error .help =>
    IO.print Command.helpText
    return 0
  | .error (.fault f) =>
    IO.eprint (Command.usageText ++ "gnparse: error: " ++ f.text ++ "\n")
    return 2
  | .ok o =>
    match o.interactive, o.source with
    | false, some source => runJob (o.job source) o.verbose
    | _, _ =>
      IO.print (Session.Message.text .greeting)
      runSession (o.session .usual) Session.fresh (← IO.getStdin)

end GnLang

/-- The entry point. -/
def main (args : List String) : IO UInt32 := GnLang.runCommandLine args
