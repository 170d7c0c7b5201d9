import TapeMachine.Engine.Machine
import TapeMachine.Ir.Program

/-!
# The engine for lowered programs

Jumps go to the partner of a loop end and then one further, so neither the start of a loop that is
repeated nor the end of one that is skipped is executed.
-/

namespace TapeMachine.Program

/-- The index after `i`. The largest word has no successor. -/
def after (i : Nat) : Nat := if i = wordMax then i else i + 1

def step (p : Program) (m : Machine) : Step :=
  if h : m.pc < p.code.size then
    match p.code[m.pc].opcode with
    | .act action => m.act action (after m.pc)
    | .loopStart target => m.jump (after (if m.world.tape.current = 0 then target else m.pc))
    | .loopEnd target => m.jump (after (if m.world.tape.current = 0 then m.pc else target))
  else .halted m

/-- Runs a program from wherever the machine stands. -/
def execute (p : Program) (fuel : Nat) (m : Machine) : Option Ending := Machine.run p.step fuel m

end TapeMachine.Program
