import TapeMachine.Benchmark.Command

/-!
# The commands

Under the name of the benchmark command the program runs benchmarks, under any other name it runs
programs. Here the standard streams, files and the clock are real.
-/

namespace TapeMachine

def clock : Stopwatch IO where
  time compute := do
    let start ← IO.monoNanosNow
    let value ← IO.lazyPure compute
    let stop ← IO.monoNanosNow
    return (value, (stop - start).toFloat / 1000000)

/-- More steps than any run can make. -/
def plenty : Nat := Nat.pow 2 62

/-- Some calls negate the number of an error. -/
def errorNumber (code : UInt32) : UInt32 := min code (0 - code)

def ioFailure : IO.Error → IoFailure
  | .noFileOrDirectory .. => Files.missing
  | .inappropriateType _ code details =>
    if errorNumber code = 21 then Files.directory
    else if errorNumber code = 20 then Files.plainFile else ⟨.other, details⟩
  | .invalidArgument _ code details =>
    if errorNumber code = 36 then Files.tooLong else ⟨.other, details⟩
  | .permissionDenied .. => ⟨.permissionDenied, "Permission denied (os error 13)"⟩
  | e => ⟨.other, toString e⟩

def readFile (path : String) : IO (Except IoFailure (Array UInt8)) := do
  try
    return .ok (← IO.FS.readBinFile path).data
  catch e =>
    return .error (ioFailure e)

/-- Reads all files that are named, so that they can be looked up. -/
def readFiles (paths : List String) : IO FileReader := do
  let found ← paths.mapM fun path => return (path, ← readFile path)
  return fun path => (found.lookup path).getD (.error Files.missing)

def readInput : IO (List UInt8) := do
  return (← (← IO.getStdin).readBinToEnd).data.toList

/-- Prints what a command left on its console, and gives its status. -/
def finish (threshold : Severity) (exit? : Option CommandLine.Exit) : IO UInt32 := do
  match exit? with
  | none => return 1
  | some exit =>
    let output ← IO.getStdout
    output.write ⟨exit.console.output⟩
    output.flush
    for remark in exit.console.remarks do
      match remark with
      | .text s => IO.eprint s
      | .note n => if threshold.shows n.severity then IO.eprintln (n.line none)
    return UInt32.ofNat exit.status

def runPrograms (args : List String) : IO UInt32 := do
  let options? := (CommandLine.Options.parse args).toOption
  let read ← readFiles ((options?.map (·.files)).getD [])
  let input ← if options?.any (·.mayRead read) then readInput else pure []
  let (threshold, exit?) ← CommandLine.run clock plenty read args { input }
  finish threshold exit?

def runBenchmarks (args : List String) : IO UInt32 := do
  finish .warn (← Benchmark.command clock plenty args { input := [] })

end TapeMachine

def main (args : List String) : IO UInt32 := do
  if (← IO.appPath).fileName = some "corten-bf-bench" then TapeMachine.runBenchmarks args
  else TapeMachine.runPrograms args
