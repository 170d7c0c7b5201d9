import TapeMachine.Brackets
import TapeMachine.Engine.Machine

/-!
# The direct engine

Walks the bytes of a source, and looks for a bracket's partner whenever it jumps. The brackets of
the whole source are checked before the first step.
-/

namespace TapeMachine.Source

/-- One byte. A comment is passed without counting as a step. At the end of a loop the engine goes
back to its start, and tests the cell there again. -/
def step (s : Source) (m : Machine) : Step :=
  if h : m.pc < s.bytes.size then
    match Symbol.ofByte? s.bytes[m.pc] with
    | none => .next { m with pc := m.pc + 1 }
    | some .increment => m.act (.add 1) (m.pc + 1)
    | some .decrement => m.act (.sub 1) (m.pc + 1)
    | some .right => m.act (.right 1) (m.pc + 1)
    | some .left => m.act (.left 1) (m.pc + 1)
    | some .output => m.act .output (m.pc + 1)
    | some .input => m.act .input (m.pc + 1)
    | some .loopOpen =>
      if m.world.tape.current = 0 then
        match s.closer? m.pc with
        | some stop => m.jump (stop + 1)
        | none => .failed (.unmatchedOpen (s.locate m.pc)) { m with steps := m.steps + 1 }
      else m.jump (m.pc + 1)
    | some .loopClose =>
      if m.world.tape.current = 0 then m.jump (m.pc + 1)
      else
        match s.opener? m.pc with
        | some start => m.jump start
        | none => .failed (.unmatchedClose (s.locate m.pc)) { m with steps := m.steps + 1 }
  else .halted m

/-- Runs a source from wherever the machine stands. -/
def execute (s : Source) (fuel : Nat) (m : Machine) : Option Ending :=
  match s.checkBalance with
  | .error fault => some ⟨some fault, m⟩
  | .ok _ => Machine.run s.step fuel m

end TapeMachine.Source
