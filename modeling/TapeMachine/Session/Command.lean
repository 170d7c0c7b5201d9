import TapeMachine.Ir.Opcode
import TapeMachine.Session.Basic
import TapeMachine.Text.Blank
import TapeMachine.Text.Numeral

/-!
# Commands

The commands of the prompt. Each is a word, perhaps followed by an argument; further words are
ignored.
-/

namespace TapeMachine.Session

inductive Continuation where
  | goOn
  | leave
deriving DecidableEq

/-- What a command does. -/
inductive Command where
  | leave
  | help
  | showMode
  | setMode (name : String)
  | showHeap
  | setHeap (size : String)
  | toggleListing
  | unknown
deriving DecidableEq

def Command.parse (text : String) : Command :=
  match Text.words text with
  | [] => .unknown
  | name :: rest =>
    match name, rest with
    | ".exit", _ | "exit", _ | "quit", _ => .leave
    | ".help", _ => .help
    | ".mode", [] => .showMode
    | ".mode", value :: _ => .setMode value
    | ".heap", [] => .showHeap
    | ".heap", value :: _ => .setHeap value
    | ".ir", _ => .toggleListing
    | _, _ => .unknown

def commandHelp : String :=
  "REPL Commands:\n" ++
  "  .help           - Show this help message\n" ++
  "  .mode [MODE]    - Show or set the engine (direct, ir)\n" ++
  "  .heap [CELLS]   - Show or set the tape length\n" ++
  "  .ir             - Toggle printing the IR before execution\n" ++
  "  .exit           - Exit the REPL\n" ++
  "  exit            - Exit the REPL\n" ++
  "  quit            - Exit the REPL\n"

def modeLine (mode : Mode) : String := "Execution mode: " ++ mode.name ++ "\n"

def heapLine (size : Nat) : String := "Heap size: " ++ toString size ++ " cells\n"

/-- The result of a command, and what it prints. -/
structure Reply where
  continuation : Continuation := .goOn
  session : Session
  printed : String := ""

variable (s : Session)

def obey (text : String) : Reply :=
  match Command.parse text with
  | .leave => { continuation := .leave, session := s }
  | .help => { session := s, printed := commandHelp }
  | .showMode => { session := s, printed := modeLine s.config.mode }
  | .setMode name =>
    match Mode.parse name with
    | .ok mode => { session := s.setMode mode, printed := modeLine mode }
    | .error e => { session := s, printed := e.message ++ "\n" }
  | .showHeap => { session := s, printed := heapLine s.config.heapSize }
  | .setHeap value =>
    match Text.Numeral.natural wordMax value with
    | .error _ => { session := s, printed := "'" ++ value ++ "' is not a valid cell count\n" }
    | .ok size =>
      match s.setHeapSize size with
      | .ok session => { session, printed := heapLine size }
      | .error fault => { session := s, printed := fault.message ++ "\n" }
  | .toggleListing =>
    let on := !s.showListing
    { session := s.setShowListing on
      printed := "IR printing: " ++ (if on then "enabled" else "disabled") ++ "\n" }
  | .unknown =>
    { session := s
      printed := "Unknown command: " ++ text ++ "\nType .help for available commands\n" }

end TapeMachine.Session
