import TapeMachine.Config
import TapeMachine.Ir.Lower
import TapeMachine.Text.Quoted

/-!
# Notes

What a session tells its log. A note has a severity, a message and fields in a fixed order.
-/

namespace TapeMachine

inductive Severity where
  | warn
  | info
  | debug
  | trace
deriving DecidableEq

namespace Severity

def name : Severity → String
  | warn => "warn"
  | info => "info"
  | debug => "debug"
  | trace => "trace"

def rank : Severity → Nat
  | warn => 0
  | info => 1
  | debug => 2
  | trace => 3

/-- Whether notes of severity `s` are shown when `threshold` is the least severe to be shown. -/
def shows (threshold s : Severity) : Bool := s.rank ≤ threshold.rank

/-- The least severe note that is shown when verbosity was asked for `times` times. -/
def ofVerbosity (times : Nat) : Severity :=
  match times with
  | 0 => warn
  | 1 => info
  | 2 => debug
  | _ => trace

end Severity

inductive Note where
  /-- A line is about to be read, and no terminal is there to edit it. -/
  | noTerminal
  | sourceLoaded (origin : String) (size : Nat)
  | loweringComplete (stats : LoweringStats)
  | compilationFailed (fault : Fault)
  | executionStarted (mode : Mode) (heapSize : Nat)
  | executionAborted (mode : Mode) (steps : Nat) (fault : Fault)
  | executionFinished (mode : Mode) (steps : Nat)
  | executionFailed (mode : Mode) (fault : Fault)
  | programFinished (mode : Mode) (steps bytesWritten : Nat)
deriving DecidableEq

namespace Note

inductive Value where
  | number (n : Nat)
  | text (s : String)
  /-- An error, told as it is. -/
  | error (s : String)
  /-- The time that an execution took. -/
  | elapsed

def severity : Note → Severity
  | sourceLoaded .. | programFinished .. => .info
  | compilationFailed _ | executionFailed .. => .warn
  | noTerminal | loweringComplete _ | executionStarted .. | executionAborted ..
  | executionFinished .. => .debug

def message : Note → String
  | noTerminal => "stdin is not a tty"
  | sourceLoaded .. => "source loaded"
  | loweringComplete _ => "lowering complete"
  | compilationFailed _ => "compilation failed"
  | executionStarted .. => "execution started"
  | executionAborted .. => "execution aborted"
  | executionFinished .. => "execution finished"
  | executionFailed .. => "execution failed"
  | programFinished .. => "program finished"

def fields : Note → List (String × Value)
  | noTerminal => []
  | sourceLoaded origin size => [("origin", .text origin), ("bytes", .number size)]
  | loweringComplete s =>
    [("source_len", .number s.sourceSize), ("instructions", .number s.instructions),
      ("merged_runs", .number s.mergedRuns), ("zero_assignments", .number s.clears),
      ("loops", .number s.loops)]
  | compilationFailed fault => [("error", .error fault.message)]
  | executionStarted mode heapSize => [("mode", .text mode.name), ("heap_size", .number heapSize)]
  | executionAborted mode steps fault =>
    [("mode", .text mode.name), ("steps", .number steps), ("error", .error fault.message)]
  | executionFinished mode steps =>
    [("mode", .text mode.name), ("steps", .number steps), ("elapsed_ms", .elapsed)]
  | executionFailed mode fault => [("mode", .text mode.name), ("error", .error fault.message)]
  | programFinished mode steps bytesWritten =>
    [("mode", .text mode.name), ("steps", .number steps), ("bytes_written", .number bytesWritten)]

/-- A field as part of a line. A time that is not known is left out. -/
def Value.describe? (elapsed? : Option String) : Value → Option String
  | number n => some (toString n)
  | text s => some (Text.Quoted.encode s)
  | error s => some s
  | .elapsed => elapsed?

def line (elapsed? : Option String) (n : Note) : String :=
  let shown := n.fields.filterMap fun (name, value) =>
    (value.describe? elapsed?).map fun text => " " ++ name ++ "=" ++ text
  n.severity.name.toUpper ++ " " ++ n.message ++ String.join shown

end Note

end TapeMachine
