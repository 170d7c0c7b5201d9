import TapeMachine.Session.Note

/-!
# Sessions

A session holds a configuration, at most one source and at most one program lowered from it. Its
operations give a response: a result, the session afterwards and what was remarked on the way.
-/

namespace TapeMachine

/-- What a session told on the way, beside its result. -/
inductive Remark where
  | note (note : Note)
  /-- Text for the error stream. -/
  | text (s : String)
deriving DecidableEq

structure Session where
  config : Config
  /-- Whether a listing of the program is shown before it runs. -/
  showListing : Bool := false
  source? : Option Source := none
  program? : Option Program := none
deriving DecidableEq

namespace Session

inductive Failure where
  | program (fault : Fault)
  /-- A file could not be read. -/
  | load (path : String) (failure : IoFailure)
  /-- A stream failed outside of a run. -/
  | stream (failure : IoFailure)
  /-- No line could be read. -/
  | prompt (text : String)
deriving DecidableEq

namespace Failure

def message : Failure → String
  | program fault => fault.message
  | load path f => "could not read '" ++ path ++ "': " ++ f.text
  | stream f => "I/O error: " ++ f.text
  | prompt text => "REPL error: " ++ text

def isStructural : Failure → Bool
  | program fault => fault.isStructural
  | _ => false

end Failure

structure Response (α : Type) where
  result : Except Failure α
  session : Session
  remarks : List Remark := []

variable (s : Session)

def setMode (mode : Mode) : Session := { s with config := s.config.setMode mode }

def setShowListing (on : Bool) : Session := { s with showListing := on }

/-- A heap size that is refused changes nothing. -/
def setHeapSize (heapSize : Nat) : Except Fault Session :=
  (Config.make heapSize s.config.mode).map fun config => { s with config }

def forget : Session := { s with source? := none, program? := none }

/-- Replaces the source. The program of the old one is dropped. -/
def accept (source : Source) (origin : String) : Response Unit :=
  { result := .ok ()
    session := { s with source? := some source, program? := none }
    remarks := [.note (.sourceLoaded origin source.size)] }

end Session

end TapeMachine
