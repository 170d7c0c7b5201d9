import TapeMachine.CommandLine.Options
import TapeMachine.Decimal.Fixed
import TapeMachine.Session.Repl
import TapeMachine.Stopwatch

/-!
# The command that runs programs

Starts the prompt, or runs the program of the command line, the program on standard input, or each
of the files in order. All programs share one session and one standard input. A file that fails is
reported and does not keep the next from running.
-/

namespace TapeMachine.CommandLine

structure Exit where
  status : Nat
  console : Console

structure Desk where
  session : Session
  console : Console

namespace Desk

/-- Loads a program and runs it as configured. -/
def cycle (fuel : Nat) (load : Session → Session.Response Unit) (d : Desk) :
    Option (Option Session.Failure × Desk) :=
  match load d.session with
  | ⟨.error f, session, remarks⟩ => some (some f, ⟨session, d.console.remark remarks⟩)
  | ⟨.ok _, session, remarks⟩ =>
    let console := d.console.remark remarks
    (session.runAsConfigured fuel console.ends).map fun e =>
      let failure? := match e.response.result with
        | .ok _ => none
        | .error f => some f
      (failure?, ⟨e.response.session, (console.absorb e.ends).remark e.response.remarks⟩)

def timeLine (milliseconds : Float) : String :=
  "Execution time: " ++ Decimal.fixed 3 milliseconds ++ " ms\n"

variable {m : Type → Type} [Monad m] (watch : Stopwatch m) (fuel : Nat) (o : Options)

/-- One cycle, with the time it took if that is wanted. -/
def timedCycle (load : Session → Session.Response Unit) (d : Desk) :
    m (Option (Option Session.Failure × Desk)) := do
  match ← watch.time fun _ => d.cycle fuel load with
  | (some (none, d), milliseconds) =>
    if o.time then
      return some (none, { d with console := d.console.print (timeLine milliseconds) })
    else return some (none, d)
  | (failed, _) => return failed

/-- How the failure of a file is told. A failure to load it names the file already. -/
def fileComplaint (path : String) : Session.Failure → String
  | f@(.load ..) => "Error: " ++ f.message ++ "\n"
  | f => "Error: " ++ path ++ ": " ++ f.message ++ "\n"

/-- Runs the files; `status` is that of the files before them. -/
def runFiles (read : FileReader) (status : Nat) (d : Desk) : List String → m (Option Exit)
  | [] => return some ⟨status, d.console⟩
  | path :: rest => do
    match ← timedCycle watch fuel o (·.loadFile read path) d with
    | none => return none
    | some (none, d) => runFiles read status d rest
    | some (some f, d) =>
      runFiles read 1 { d with console := d.console.complain (fileComplaint path f) } rest

def complaint (f : Session.Failure) : String := "Error: " ++ f.message ++ "\n"

def runOne (load : Session → Session.Response Unit) (d : Desk) : m (Option Exit) := do
  match ← timedCycle watch fuel o load d with
  | none => return none
  | some (none, d) => return some ⟨0, d.console⟩
  | some (some f, d) => return some ⟨1, d.console.complain (complaint f)⟩

/-- The program is all of standard input, so that nothing is left for it to read. -/
def runInput (d : Desk) : m (Option Exit) :=
  runOne watch fuel o (·.loadReader (.ofBytes d.console.input))
    { d with console := { d.console with input := [] } }

end Desk

open Desk

variable {m : Type → Type} [Monad m] (watch : Stopwatch m) (fuel : Nat)

def runOptions (read : FileReader) (o : Options) (console : Console) : m (Option Exit) :=
  match o.config with
  | .error fault => return some ⟨1, console.complain (complaint (.program fault))⟩
  | .ok config =>
    let session : Session := { config, showListing := o.showListing }
    let d : Desk := ⟨session, console⟩
    if o.repl then
      return (session.repl fuel console).map fun dialogue =>
        match dialogue.failure? with
        | none => ⟨0, dialogue.console⟩
        | some f => ⟨1, dialogue.console.complain (complaint f)⟩
    else
      match o.code?, o.files with
      | some code, _ => runOne watch fuel o (·.loadText code) d
      | none, [] => runInput watch fuel o d
      | none, files => runFiles watch fuel o read 0 d files

/-- The whole command. Mistakes in the arguments have the status two. -/
def run (read : FileReader) (args : List String) (console : Console) :
    m (Severity × Option Exit) := do
  match Options.parse args with
  | .ok o => return (o.threshold, ← runOptions watch fuel read o console)
  | .error e =>
    let exit : Exit :=
      if e.isMistake then ⟨2, console.complain e.printed⟩
      else ⟨0, console.print e.printed⟩
    return (.warn, some exit)

end TapeMachine.CommandLine
