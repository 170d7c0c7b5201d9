import TapeMachine.Benchmark.Builtin
import TapeMachine.Benchmark.Report
import TapeMachine.CommandLine.Grammar
import TapeMachine.CommandLine.Run

/-!
# The command that runs benchmarks
-/

namespace TapeMachine.Benchmark

open CommandLine (Grammar Operand ParseError Refusal Switch commonSwitches)

inductive Choice where
  | micro
  | classic
  | all
deriving DecidableEq

structure Options where
  choice : Choice := .all
  json : Bool := false
  iterations : Nat := 1
deriving DecidableEq

namespace Options

def readChoice (text : String) : Except Refusal Choice :=
  match text with
  | "" => .error .absent
  | "micro" => .ok .micro
  | "classic" => .ok .classic
  | "all" => .ok .all
  | _ => .error .notListed

def readIterations (text : String) : Except Refusal Nat :=
  (Text.Numeral.natural wordMax text).mapError fun e => .because e.message

def suiteOperand : Operand Options where
  name := "SUITE"
  repeats := false
  apply text o := (readChoice text).map fun choice => { o with choice }
  about := "Suite to run [default: all] [possible values: micro, classic, all]"

def switches : List (Switch Options) :=
  [{ long := "json"
     effect := .flag fun o => { o with json := true }
     about := "Output results as JSON" },
    { short := some 'n'
      long := "iterations"
      effect := .value "ITERATIONS" fun text o =>
        (readIterations text).map fun iterations => { o with iterations }
      about := "Runs per benchmark; reported times are averages [default: 1]" }]

def grammar : Grammar Options where
  program := "corten-bf-bench"
  release := "0.1.0"
  about := "Corten BF Runtime Benchmark Tool"
  initial := {}
  switches := switches ++ commonSwitches
  operand := suiteOperand
  conflicts := []

def parse (args : List String) : Except ParseError Options := grammar.parse args

end Options

variable {m : Type → Type} [Monad m] (watch : Stopwatch m) (fuel : Nat)

def runSuite (iterations : Nat) (suite : Suite) : m (Option (List Result)) := do
  match ← suite.runRepeatedly watch fuel iterations { config := .standard } with
  | none => return none
  | some (results, _) => return some results

/-- What is announced before the suites run, and their results. -/
def runChoice (iterations : Nat) : Choice → m (Option (String × List Result))
  | .micro => do
    match ← runSuite watch fuel iterations micro with
    | none => return none
    | some results => return some ("Running micro-benchmarks...\n\n", results)
  | .classic => do
    match ← runSuite watch fuel iterations classic with
    | none => return none
    | some results => return some ("Running classic programs...\n\n", results)
  | .all => do
    match ← runSuite watch fuel iterations micro with
    | none => return none
    | some first =>
      match ← runSuite watch fuel iterations classic with
      | none => return none
      | some second =>
        return some ("Running all benchmarks...\n\n=== Micro-benchmarks ===\n\n=== Classic ===\n",
          first ++ second)

/-- The whole command. The status tells whether a benchmark failed. -/
def command (args : List String) (console : Console) : m (Option CommandLine.Exit) := do
  match Options.parse args with
  | .error e =>
    if e.isMistake then return some ⟨2, console.complain e.printed⟩
    else return some ⟨0, console.print e.printed⟩
  | .ok o =>
    match ← runChoice watch fuel o.iterations o.choice with
    | none => return none
    | some (announcement, results) =>
      let status := if results.all (·.success) then 0 else 1
      let text :=
        if o.json then json results ++ "\n"
        else announcement ++ table results ++ "\n" ++ summary results
      return some ⟨status, console.print text⟩

end TapeMachine.Benchmark
