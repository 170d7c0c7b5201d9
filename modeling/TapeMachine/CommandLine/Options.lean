import TapeMachine.CommandLine.Grammar
import TapeMachine.Files
import TapeMachine.Ir.Opcode
import TapeMachine.Session.Note
import TapeMachine.Text.Numeral

/-!
# Options

The options of the command that runs programs.
-/

namespace TapeMachine.CommandLine

structure Options where
  files : List String := []
  code? : Option String := none
  level : Nat := 1
  heapSize : Nat := Config.defaultHeapSize
  time : Bool := false
  showListing : Bool := false
  repl : Bool := false
  verbosity : Nat := 0
deriving DecidableEq

namespace Options

def mode (o : Options) : Mode := .ofLevel o.level

def config (o : Options) : Except Fault Config :=
  Config.make o.heapSize o.mode

def threshold (o : Options) : Severity := .ofVerbosity o.verbosity

/-- Whether any program of the command could look at standard input. -/
def mayRead (o : Options) (read : FileReader) : Bool :=
  o.repl ||
    match o.code?, o.files with
    | some code, _ => code.toUTF8.data.contains Symbol.input.byte
    | none, [] => true
    | none, files => files.any fun path =>
      match read path with
      | .ok data => data.contains Symbol.input.byte
      | .error _ => false

/-- One file, and nothing else asked for. -/
def ofFile (path : String) : Options := { files := [path] }

/-- A level is a byte. -/
def readLevel (text : String) : Except Refusal Nat :=
  match Text.Numeral.integer (Nat.pow 2 63) (Nat.pow 2 63 - 1) text with
  | .error e => .error (.because e.message)
  | .ok i =>
    if 0 ≤ i ∧ i ≤ 255 then .ok i.toNat else .error (.because (toString i ++ " is not in 0..=255"))

def readHeapSize (text : String) : Except Refusal Nat :=
  match Text.Numeral.natural wordMax text with
  | .error _ => .error (.because ("'" ++ text ++ "' is not a valid cell count"))
  | .ok 0 => .error (.because "the tape needs at least one cell")
  | .ok n => .ok n

def fileOperand : Operand Options where
  name := "FILE"
  repeats := true
  apply path o := if path = "" then .error .absent else .ok { o with files := o.files ++ [path] }
  about := "Program files, executed in order (reads the program from stdin when none are given)"

def evalSwitch : Switch Options where
  short := some 'e'
  long := "eval"
  effect := .value "CODE" fun code o => .ok { o with code? := some code }
  about := "Execute inline program text"

def replSwitch : Switch Options where
  short := some 'r'
  long := "repl"
  effect := .flag fun o => { o with repl := true }
  about := "Start the interactive REPL"

def switches : List (Switch Options) :=
  [evalSwitch,
    { short := some 'O'
      long := "optimize"
      effect := .value "LEVEL" fun text o => (readLevel text).map fun level => { o with level }
      about := "Optimization level: 0 interprets the source directly, 1 compiles to IR first " ++
        "[default: 1]" },
    { short := some 'H'
      long := "heapsize"
      effect := .value "HEAP_SIZE" fun text o =>
        (readHeapSize text).map fun heapSize => { o with heapSize }
      about := "Tape length in cells [default: 65536]" },
    { short := some 't'
      long := "time"
      effect := .flag fun o => { o with time := true }
      about := "Print the execution time of each program" },
    { long := "print-ir"
      effect := .flag fun o => { o with showListing := true }
      about := "Print the IR disassembly to stderr before executing" },
    replSwitch,
    { short := some 'v'
      long := "verbose"
      effect := .counter fun o => { o with verbosity := min 255 (o.verbosity + 1) }
      about := "Increase log verbosity (-v info, -vv debug, -vvv trace)" }]

def grammar : Grammar Options where
  program := "corten-bf"
  release := "0.1.0"
  about := "Corten BF Runtime - interpret or compile-and-run tape programs"
  initial := {}
  switches := switches ++ commonSwitches
  operand := fileOperand
  conflicts :=
    [(evalSwitch.display, fileOperand.display), (replSwitch.display, fileOperand.display),
      (replSwitch.display, evalSwitch.display)]

def parse (args : List String) : Except ParseError Options := grammar.parse args

end Options

end TapeMachine.CommandLine
