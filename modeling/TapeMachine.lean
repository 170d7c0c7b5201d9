import TapeMachine.Action
import TapeMachine.Benchmark.Basic
import TapeMachine.Benchmark.Builtin
import TapeMachine.Benchmark.Command
import TapeMachine.Benchmark.Report
import TapeMachine.Brackets
import TapeMachine.CommandLine.Grammar
import TapeMachine.CommandLine.Options
import TapeMachine.CommandLine.Run
import TapeMachine.Config
import TapeMachine.Decimal.Binary
import TapeMachine.Decimal.Fixed
import TapeMachine.Decimal.Shortest
import TapeMachine.Endpoint.Call
import TapeMachine.Endpoint.Channel
import TapeMachine.Endpoint.Endpoints
import TapeMachine.Endpoint.Reader
import TapeMachine.Endpoint.Sink
import TapeMachine.Engine.Direct
import TapeMachine.Engine.Lowered
import TapeMachine.Engine.Machine
import TapeMachine.Engine.Run
import TapeMachine.Fault
import TapeMachine.Files
import TapeMachine.Ir.Lexeme
import TapeMachine.Ir.Lower
import TapeMachine.Ir.Opcode
import TapeMachine.Ir.Program
import TapeMachine.Main
import TapeMachine.Proofs.Arguments
import TapeMachine.Proofs.Attempts
import TapeMachine.Proofs.Balance
import TapeMachine.Proofs.Bare
import TapeMachine.Proofs.Benchmarks
import TapeMachine.Proofs.Beside
import TapeMachine.Proofs.Cache
import TapeMachine.Proofs.Causality
import TapeMachine.Proofs.Chunks
import TapeMachine.Proofs.Comments
import TapeMachine.Proofs.Complaints
import TapeMachine.Proofs.Completions
import TapeMachine.Proofs.Confinement
import TapeMachine.Proofs.Counted
import TapeMachine.Proofs.Counters
import TapeMachine.Proofs.Cycles
import TapeMachine.Proofs.Delivery
import TapeMachine.Proofs.Dialogues
import TapeMachine.Proofs.Drafts
import TapeMachine.Proofs.Edges
import TapeMachine.Proofs.Edits
import TapeMachine.Proofs.Entries
import TapeMachine.Proofs.Equivalence
import TapeMachine.Proofs.Exchanges
import TapeMachine.Proofs.FilesInTurn
import TapeMachine.Proofs.Fuel
import TapeMachine.Proofs.Interaction
import TapeMachine.Proofs.Jobs
import TapeMachine.Proofs.Joins
import TapeMachine.Proofs.Lexemes
import TapeMachine.Proofs.Listings
import TapeMachine.Proofs.Lockstep
import TapeMachine.Proofs.LongerTapes
import TapeMachine.Proofs.LoopCheck
import TapeMachine.Proofs.Meaning
import TapeMachine.Proofs.MergedMoves
import TapeMachine.Proofs.Modes
import TapeMachine.Proofs.Nesting
import TapeMachine.Proofs.Orders
import TapeMachine.Proofs.Pace
import TapeMachine.Proofs.Pairing
import TapeMachine.Proofs.PlainRuns
import TapeMachine.Proofs.Positions
import TapeMachine.Proofs.Resumption
import TapeMachine.Proofs.Running
import TapeMachine.Proofs.Scans
import TapeMachine.Proofs.SourceMap
import TapeMachine.Proofs.Steady
import TapeMachine.Proofs.Steps
import TapeMachine.Proofs.Streams
import TapeMachine.Proofs.Structure
import TapeMachine.Proofs.Succession
import TapeMachine.Proofs.Takings
import TapeMachine.Proofs.Turns
import TapeMachine.Proofs.Verdict
import TapeMachine.Proofs.Walk
import TapeMachine.Session.Basic
import TapeMachine.Session.Command
import TapeMachine.Session.Console
import TapeMachine.Session.Execute
import TapeMachine.Session.Note
import TapeMachine.Session.Repl
import TapeMachine.Source
import TapeMachine.Stopwatch
import TapeMachine.Symbol
import TapeMachine.Tape
import TapeMachine.Text.Backspace
import TapeMachine.Text.Blank
import TapeMachine.Text.Cluster
import TapeMachine.Text.ClusterClass
import TapeMachine.Text.Column
import TapeMachine.Text.Extender
import TapeMachine.Text.Json
import TapeMachine.Text.Numeral
import TapeMachine.Text.Quoted
import TapeMachine.Text.Terminal
