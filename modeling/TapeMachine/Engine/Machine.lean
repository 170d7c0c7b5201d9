import TapeMachine.Action
import TapeMachine.Endpoint.Channel
import TapeMachine.Tape

/-!
# Machines

What an engine works on, how an action changes it, and how steps make a run. An engine is a
function from a machine to its next step; a run is at most `fuel` steps, and has no ending when
they do not suffice.
-/

namespace TapeMachine

/-- All that a program can touch. -/
structure World where
  tape : Tape
  channel : Channel
deriving DecidableEq

/-- What acting on a world gives, with the world that it leaves. -/
abbrev World.Result := EStateM.Result Fault World Unit

/-- A world without its channel, and the place in the program: what outlives a run. -/
structure Context where
  tape : Tape
  pc : Nat
  /-- How many instructions were begun. -/
  steps : Nat
deriving DecidableEq

structure Machine where
  world : World
  pc : Nat
  steps : Nat
deriving DecidableEq

namespace World

def move (w : World) (f : Tape → Except Fault Tape) : Result :=
  match f w.tape with
  | .ok tape => .ok () { w with tape }
  | .error fault => .error fault w

def output (w : World) : Result :=
  match w.channel.writeByte w.tape.current with
  | .ok _ channel => .ok () { w with channel }
  | .error f channel => .error (.io f) { w with channel }

def input (w : World) : Result :=
  match w.channel.readByte with
  | .ok b channel => .ok () ⟨w.tape.set b, channel⟩
  | .error f channel => .error (.io f) { w with channel }

def perform (w : World) : Action → Result
  | .add n => .ok () { w with tape := w.tape.add n }
  | .sub n => .ok () { w with tape := w.tape.sub n }
  | .clear => .ok () { w with tape := w.tape.set 0 }
  | .right n => w.move (·.right n)
  | .left n => w.move (·.left n)
  | .output => w.output
  | .input => w.input

end World

inductive Step where
  | next (m : Machine)
  /-- Nothing is left to do. -/
  | halted (m : Machine)
  | failed (fault : Fault) (m : Machine)

structure Ending where
  fault? : Option Fault
  machine : Machine
deriving DecidableEq

namespace Machine

def start (tape : Tape) (channel : Channel) : Machine := ⟨⟨tape, channel⟩, 0, 0⟩

def ofContext (c : Context) (channel : Channel) : Machine := ⟨⟨c.tape, channel⟩, c.pc, c.steps⟩

def context (m : Machine) : Context := ⟨m.world.tape, m.pc, m.steps⟩

/-- Performs an action and goes on at `pc`. A fault leaves the machine at the instruction that
caused it. -/
def act (m : Machine) (action : Action) (pc : Nat) : Step :=
  match m.world.perform action with
  | .ok _ world => .next ⟨world, pc, m.steps + 1⟩
  | .error fault world => .failed fault ⟨world, m.pc, m.steps + 1⟩

def jump (m : Machine) (pc : Nat) : Step := .next ⟨m.world, pc, m.steps + 1⟩

/-- The run of an engine for at most `fuel` steps. -/
@[specialize]
def run (engine : Machine → Step) : (fuel : Nat) → Machine → Option Ending
  | 0, _ => none
  | fuel + 1, m =>
    match engine m with
    | .next m => run engine fuel m
    | .halted m => some ⟨none, m⟩
    | .failed fault m => some ⟨some fault, m⟩

end Machine

end TapeMachine
