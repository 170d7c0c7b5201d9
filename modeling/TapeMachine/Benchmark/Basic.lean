import TapeMachine.Session.Execute
import TapeMachine.Stopwatch

/-!
# Benchmarks

A benchmark runs one program with both engines and compares what they write. The verdict does not
depend on the times.
-/

namespace TapeMachine

structure Benchmark where
  name : String
  description : String
  code : String
  input : List UInt8 := []

namespace Benchmark

structure Result where
  name : String
  description : String
  directMs : Float
  irMs : Float
  /-- How many times faster the lowered program was, if both times could be measured. -/
  speedup? : Option Float
  /-- What the program wrote, without the last newline. -/
  outputBytes : Nat
  success : Bool
  error? : Option String

def speedup (directMs irMs : Float) : Option Float :=
  if directMs > 0 ∧ irMs > 0 then some (directMs / irMs) else none

variable (b : Benchmark)

def output (e : Session.Execution) : Except Session.Failure (Array UInt8) :=
  e.response.result.map fun _ => e.ends.sink.accepted

def failed (error : String) : Result :=
  { name := b.name, description := b.description, directMs := 0, irMs := 0, speedup? := none
    outputBytes := 0, success := false, error? := some error }

def differing (direct ir : Array UInt8) : String :=
  "outputs differ: direct wrote " ++ toString direct.size ++ " bytes, ir wrote " ++
    toString ir.size ++ " bytes"

/-- The result of what the two engines did, and how long they took. A failure of the direct engine
is told first. -/
def judge (direct ir : Except Session.Failure (Array UInt8)) (directMs irMs : Float) : Result :=
  match direct, ir with
  | .error f, _ => b.failed f.message
  | .ok _, .error f => b.failed f.message
  | .ok direct, .ok ir =>
    let same := direct = ir
    { name := b.name, description := b.description, directMs, irMs
      speedup? := speedup directMs irMs
      outputBytes := direct.size - 1
      success := same
      error? := if same then none else some (differing direct ir) }

def ends : Endpoints := .ofBytes b.input

variable {m : Type → Type} [Monad m] (watch : Stopwatch m) (fuel : Nat)

/-- Runs a benchmark once. The time of the lowered program includes the lowering. -/
def run (s : Session) : m (Option (Result × Session)) := do
  let s := (s.loadText b.code).session
  match ← watch.time fun _ => s.execute fuel .direct b.ends with
  | (none, _) => return none
  | (some direct, directMs) =>
    let s := direct.response.session
    match ← watch.time fun _ => s.execute fuel .ir b.ends with
    | (none, _) => return none
    | (some ir, irMs) =>
      return some (b.judge (output direct) (output ir) directMs irMs, ir.response.session)

/-- Runs a benchmark `more` times more, after `done` runs of which `last` was the last, and gives
the average of all times. A failure is the result at once. -/
def runMore (done : Nat) (directTotal irTotal : Float) (last : Result) (s : Session) :
    (more : Nat) → m (Option (Result × Session))
  | 0 =>
    if last.success then
      let runs := done.toFloat
      let directMs := directTotal / runs
      let irMs := irTotal / runs
      return some ({ last with directMs, irMs, speedup? := speedup directMs irMs }, s)
    else return some (last, s)
  | more + 1 =>
    if last.success then do
      match ← b.run watch fuel s with
      | none => return none
      | some (next, s) =>
        runMore (done + 1) (directTotal + next.directMs) (irTotal + next.irMs) next s more
    else return some (last, s)

/-- Runs a benchmark `iterations` times, but at least once. -/
def runRepeatedly (iterations : Nat) (s : Session) : m (Option (Result × Session)) := do
  match ← b.run watch fuel s with
  | none => return none
  | some (first, s) => b.runMore watch fuel 1 first.directMs first.irMs first s (iterations - 1)

def runAll (one : Benchmark → Session → m (Option (Result × Session))) (s : Session) :
    List Benchmark → m (Option (List Result × Session))
  | [] => return some ([], s)
  | b :: rest => do
    match ← one b s with
    | none => return none
    | some (result, s) =>
      match ← runAll one s rest with
      | none => return none
      | some (results, s) => return some (result :: results, s)

end Benchmark

structure Suite where
  name : String
  benchmarks : List Benchmark

namespace Suite

variable (suite : Suite) {m : Type → Type} [Monad m] (watch : Stopwatch m) (fuel : Nat)

def run (s : Session) : m (Option (List Benchmark.Result × Session)) :=
  Benchmark.runAll (fun b s => b.run watch fuel s) s suite.benchmarks

def runRepeatedly (iterations : Nat) (s : Session) : m (Option (List Benchmark.Result × Session)) :=
  Benchmark.runAll (fun b s => b.runRepeatedly watch fuel iterations s) s suite.benchmarks

end Suite

end TapeMachine
