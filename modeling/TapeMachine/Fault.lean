import TapeMachine.Source

/-!
# Faults

What can go wrong while a program is checked, lowered or run, and how it is told to people.
-/

namespace TapeMachine

inductive IoKind where
  | notFound
  | isADirectory
  | notADirectory
  | interrupted
  | permissionDenied
  | brokenPipe
  | unexpectedEof
  | wouldBlock
  | writeZero
  | invalidInput
  | invalidFilename
  | other
deriving DecidableEq

/-- A failure that an endpoint or the file system reports. -/
structure IoFailure where
  kind : IoKind
  text : String
deriving DecidableEq

inductive Fault where
  /-- A loop that no later bracket closes. -/
  | unmatchedOpen (position : Position)
  /-- A bracket that closes no loop. -/
  | unmatchedClose (position : Position)
  /-- A move that would have put the head at `head`, on a tape of `heapSize` cells. -/
  | outOfTape (head : Int) (heapSize : Nat)
  | io (failure : IoFailure)
  /-- A tape was asked for without cells. -/
  | emptyTape
  /-- Nothing was loaded that could be lowered or run. -/
  | noProgram
deriving DecidableEq

namespace Fault

inductive Kind where
  | structural
  | tapeOutOfRange
  | io
  | config
deriving DecidableEq

def kind : Fault → Kind
  | unmatchedOpen _ | unmatchedClose _ => .structural
  | outOfTape .. => .tapeOutOfRange
  | io _ => .io
  | emptyTape | noProgram => .config

/-- Structural faults are found before a program runs. -/
def isStructural (f : Fault) : Bool := f.kind = .structural

def message : Fault → String
  | unmatchedOpen p => "unmatched '[' at " ++ p.describe
  | unmatchedClose p => "unmatched ']' at " ++ p.describe
  | outOfTape head heapSize =>
    "head pointer moved to " ++ toString head ++ ", outside the tape [0, " ++
      toString heapSize ++ ")"
  | io failure => "I/O error: " ++ failure.text
  | emptyTape => "invalid heap size 0: the tape needs at least one cell"
  | noProgram => "no program has been loaded"

end Fault

end TapeMachine
