import TapeMachine.Brackets
import TapeMachine.Ir.Lexeme
import TapeMachine.Ir.Program

/-!
# Lowering

Lexemes become instructions one by one. A loop start is emitted without a target, and gets it when
the loop is closed; a loop that is closed but not open, or open at the end, is a fault. Counters
tell what was merged, rewritten and paired on the way.
-/

namespace TapeMachine

/-- What lowering a source did. -/
structure LoweringStats where
  sourceSize : Nat := 0
  instructions : Nat := 0
  /-- Runs of more than one symbol that became one instruction. -/
  mergedRuns : Nat := 0
  /-- Loops that became an assignment of zero. -/
  clears : Nat := 0
  /-- Pairs of loop ends. -/
  loops : Nat := 0
deriving DecidableEq, Inhabited

/-- A program in the making. -/
structure Draft where
  code : Array Instruction := #[]
  /-- The loop starts without a target, the innermost first, as index and offset. -/
  opened : List (Nat × Nat) := []
  mergedRuns : Nat := 0
  clears : Nat := 0
  loops : Nat := 0

namespace Draft

def emit (d : Draft) (opcode : Opcode) (offset : Nat) : Draft :=
  { d with code := d.code.push ⟨opcode, offset⟩ }

/-- Counts an action that stands for more than one symbol. -/
def tally (d : Draft) (action : Action) : Draft :=
  match action.count? with
  | some n => if 1 < n then { d with mergedRuns := d.mergedRuns + 1 } else d
  | none => if action = .clear then { d with clears := d.clears + 1 } else d

/-- Ends the loop that starts at `start`, and gives its start the target. -/
def closeLoop (code : Array Instruction) (start offset : Nat) : Array Instruction :=
  let stop := code.size
  (code.modify start fun i => { i with opcode := .loopStart stop }).push ⟨.loopEnd start, offset⟩

def feed (d : Draft) (p : Placed) : Except Unmatched Draft :=
  match p.lexeme with
  | .act action => .ok ((d.tally action).emit (.act action) p.offset)
  | .loopOpen =>
    let opened := (d.code.size, p.offset) :: d.opened
    .ok { d with code := d.code.push ⟨.loopStart Opcode.unresolved, p.offset⟩, opened }
  | .loopClose =>
    match d.opened with
    | [] => .error (.closing p.offset)
    | (start, _) :: outer =>
      .ok { d with code := closeLoop d.code start p.offset, opened := outer, loops := d.loops + 1 }

def feedAll (d : Draft) : List Placed → Except Unmatched Draft
  | [] => .ok d
  | p :: rest =>
    match d.feed p with
    | .ok d => d.feedAll rest
    | .error e => .error e

/-- A draft is finished when no loop is open. -/
def finish (d : Draft) (sourceSize : Nat) : Except Unmatched (Program × LoweringStats) :=
  match d.opened with
  | (_, offset) :: _ => .error (.opening offset)
  | [] => .ok (⟨d.code⟩,
      { sourceSize, instructions := d.code.size, mergedRuns := d.mergedRuns,
        clears := d.clears, loops := d.loops })

end Draft

namespace Source

def lexemes (s : Source) : List Placed := (Lexeme.scan s.bytes.toList 0 #[]).toList

def lowerBytes (s : Source) : Except Unmatched (Program × LoweringStats) :=
  match Draft.feedAll {} s.lexemes with
  | .ok d => d.finish s.size
  | .error e => .error e

/-- Lowers a source, with the counters of the work. No part of a program comes out of a source
with an unmatched bracket. -/
def lower (s : Source) : Except Fault (Program × LoweringStats) :=
  s.lowerBytes.mapError (·.fault s)

end Source

/-- Lowers one source after the other and keeps the counters of the last that succeeded. -/
structure Compiler where
  stats : LoweringStats := {}

namespace Compiler

def compile (c : Compiler) (s : Source) : Except Fault Program × Compiler :=
  match s.lower with
  | .ok (program, stats) => (.ok program, { stats })
  | .error fault => (.error fault, c)

end Compiler

end TapeMachine
