import TapeMachine.Engine.Run
import TapeMachine.Files
import TapeMachine.Session.Basic

/-!
# Loading, compiling and executing

Sources come from text, bytes, a reader or a file. A load that fails leaves no source at all. A
program that was lowered since the last load is kept and run again. After a run that went well, one
newline is written straight to the sink, and the sink is flushed.
-/

namespace TapeMachine.Session

/-- The response to an execution, and the endpoints afterwards. -/
structure Execution where
  response : Response Outcome
  ends : Endpoints

variable (s : Session)

/-! ## Loading -/

def loadText (text : String) : Response Unit := s.accept (.ofString text) "<string>"

def loadBytes (data : Array UInt8) : Response Unit := s.accept ⟨data⟩ "<bytes>"

def loadReader (reader : Reader) : Response Unit :=
  match reader.readAll with
  | .ok data => s.accept ⟨data⟩ "<stream>"
  | .error f => { result := .error (.stream f), session := s.forget }

def loadFile (read : FileReader) (path : String) : Response Unit :=
  match read path with
  | .ok data => s.accept ⟨data⟩ path
  | .error f => { result := .error (.load path f), session := s.forget }

/-! ## Compiling and executing -/

/-- Lowers the source, and keeps the program if there is one. -/
def compile : Response Program :=
  match s.source? with
  | none => { result := .error (.program .noProgram), session := { s with program? := none } }
  | some source =>
    match source.lower with
    | .ok (program, stats) =>
      { result := .ok program
        session := { s with program? := some program }
        remarks := [.note (.loweringComplete stats)] }
    | .error fault =>
      { result := .error (.program fault)
        session := { s with program? := none }
        remarks := [.note (.compilationFailed fault)] }

/-- The program at hand, lowered only if that was not done yet. -/
def obtainProgram : Response Program :=
  match s.program? with
  | some program => { result := .ok program, session := s }
  | none => s.compile

def unfinishedNewline : IoFailure := ⟨.writeZero, "failed to write whole buffer"⟩

/-- Writes the newline that ends the output of a program. -/
def endLine (ends : Endpoints) : Option IoFailure × Endpoints :=
  match ends.deliver unfinishedNewline [10] with
  | ⟨_, some f, ends⟩ => (some f, ends)
  | ⟨_, none, ends⟩ => ends.flushSink

/-- What is remarked when a run begins and when it ends. -/
def runNotes (mode : Mode) : Completion → List Note
  | .finished outcome =>
    [.executionStarted mode s.config.heapSize, .executionFinished mode outcome.steps]
  | .aborted fault steps =>
    [.executionStarted mode s.config.heapSize, .executionAborted mode steps fault,
      .executionFailed mode fault]
  | .undelivered f =>
    [.executionStarted mode s.config.heapSize, .executionFailed mode (.io f)]

/-- Turns the end of a run into a response, after `remarks`. -/
def conclude (mode : Mode) (remarks : List Remark) (completion : Completion) (ends : Endpoints) :
    Execution :=
  let remarks := remarks ++ (s.runNotes mode completion).map Remark.note
  match completion.result with
  | .error fault => ⟨⟨.error (.program fault), s, remarks⟩, ends⟩
  | .ok outcome =>
    match endLine ends with
    | (some f, ends) => ⟨⟨.error (.stream f), s, remarks⟩, ends⟩
    | (none, ends) =>
      let note := Note.programFinished mode outcome.steps outcome.bytesWritten
      ⟨⟨.ok outcome, s, remarks ++ [.note note]⟩, ends⟩

/-- What is shown before a program runs. -/
def announce (program : Program) : List Remark :=
  if s.showListing then [.text program.listing] else []

/-- Executes the source with the given engine. -/
def execute (fuel : Nat) (mode : Mode) (ends : Endpoints) : Option Execution :=
  match mode with
  | .direct =>
    match s.source? with
    | none => some ⟨{ result := .error (.program .noProgram), session := s }, ends⟩
    | some source =>
      (source.run fuel s.config ends).map fun (completion, ends) =>
        s.conclude mode [] completion ends
  | .ir =>
    match s.obtainProgram with
    | ⟨.error e, s, remarks⟩ => some ⟨⟨.error e, s, remarks⟩, ends⟩
    | ⟨.ok program, s, remarks⟩ =>
      (program.run fuel s.config ends).map fun (completion, ends) =>
        s.conclude mode (remarks ++ s.announce program) completion ends

/-- The engine that fits what was done since the last load. -/
def readyMode : Mode := if s.program?.isSome then .ir else .direct

def run (fuel : Nat) (ends : Endpoints) : Option Execution := s.execute fuel s.readyMode ends

/-- Compiles if the configuration asks for it, then runs. -/
def runAsConfigured (fuel : Nat) (ends : Endpoints) : Option Execution :=
  match s.config.mode with
  | .direct => s.run fuel ends
  | .ir =>
    match s.compile with
    | ⟨.error e, s, remarks⟩ => some ⟨⟨.error e, s, remarks⟩, ends⟩
    | ⟨.ok _, s, remarks⟩ =>
      (s.run fuel ends).map fun e =>
        { e with response := { e.response with remarks := remarks ++ e.response.remarks } }

/-- Loads a text and runs it as configured. -/
def evaluate (fuel : Nat) (text : String) (ends : Endpoints) : Option Execution :=
  let loaded := s.loadText text
  (loaded.session.runAsConfigured fuel ends).map fun e =>
    { e with response := { e.response with remarks := loaded.remarks ++ e.response.remarks } }

end TapeMachine.Session
