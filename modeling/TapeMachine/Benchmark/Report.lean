import TapeMachine.Benchmark.Basic
import TapeMachine.Decimal.Fixed
import TapeMachine.Text.Column
import TapeMachine.Text.Json

/-!
# Reports on benchmarks

Results as a table for people, and as JSON.
-/

namespace TapeMachine.Benchmark

namespace Result

variable (r : Result)

/-- Five columns, of which the numbers are flush right. -/
def row (name direct ir speedup status : String) : String :=
  Text.padEnd 24 name ++ " " ++ Text.padStart 12 ' ' direct ++ " " ++
    Text.padStart 12 ' ' ir ++ " " ++ Text.padStart 9 ' ' speedup ++ "  " ++
    Text.padEnd 8 status ++ "\n"

def speedupText : String :=
  match r.speedup? with
  | some x => Decimal.fixed 2 x ++ "x"
  | none => "-"

def tableLines : String :=
  let status := if r.success then "✓ PASS" else "✗ FAIL"
  row r.name (Decimal.fixed 2 r.directMs) (Decimal.fixed 2 r.irMs) r.speedupText status ++
    match r.error? with
    | some error => "  Error: " ++ error ++ "\n"
    | none => ""

def fields : List (String × String) :=
  [("name", Text.Json.string r.name), ("description", Text.Json.string r.description),
    ("direct_ms", Text.Json.number r.directMs), ("ir_ms", Text.Json.number r.irMs),
    ("speedup", (r.speedup?.map Text.Json.number).getD Text.Json.null),
    ("output_bytes", toString r.outputBytes), ("success", Text.Json.bool r.success),
    ("error", (r.error?.map Text.Json.string).getD Text.Json.null)]

end Result

def table (results : List Result) : String :=
  "\n" ++ Result.row "Benchmark" "Direct (ms)" "IR (ms)" "Speedup" "Status" ++
    String.ofList (List.replicate 70 '=') ++ "\n" ++ String.join (results.map (·.tableLines))

def json (results : List Result) : String := Text.Json.records (results.map (·.fields))

def summary (results : List Result) : String :=
  let failures := results.countP fun r => !r.success
  let total (f : Result → Float) : String :=
    Decimal.fixed 2 (results.foldl (fun sum r => sum + f r) 0)
  "\nSummary:\n  Total benchmarks: " ++ toString results.length ++
    "\n  Successful: " ++ toString (results.length - failures) ++
    "\n  Failed: " ++ toString failures ++
    "\n  Direct time: " ++ total (·.directMs) ++ " ms\n  IR time: " ++ total (·.irMs) ++ " ms\n"

end TapeMachine.Benchmark
