import TapeMachine.Config
import TapeMachine.Engine.Direct
import TapeMachine.Engine.Lowered

/-!
# Whole runs

A run starts on a blank tape with a new channel, flushes the channel whatever the engine's ending,
and hands the endpoints back. A fault of the engine outranks a failure of that flush.
-/

namespace TapeMachine

/-- What is left of a run that went well. -/
structure Outcome where
  tape : Tape
  steps : Nat
  bytesRead : Nat
  bytesWritten : Nat
deriving DecidableEq

inductive Completion where
  | finished (outcome : Outcome)
  | aborted (fault : Fault) (steps : Nat)
  /-- The engine finished, but its last output could not be delivered. -/
  | undelivered (failure : IoFailure)
deriving DecidableEq

def Completion.result : Completion → Except Fault Outcome
  | finished outcome => .ok outcome
  | aborted fault _ => .error fault
  | undelivered f => .error (.io f)

namespace Machine

def outcome (m : Machine) : Outcome :=
  ⟨m.world.tape, m.steps, m.world.channel.bytesRead, m.world.channel.bytesWritten⟩

def withChannel (m : Machine) (channel : Channel) : Machine :=
  { m with world := { m.world with channel } }

/-- Flushes after an engine has stopped, and closes the channel. -/
def conclude (e : Ending) : Completion × Endpoints :=
  match e with
  | ⟨fault?, ⟨⟨tape, channel⟩, pc, steps⟩⟩ =>
    let (failure?, channel) := match channel.flush with
      | .ok _ channel => (none, channel)
      | .error f channel => (some f, channel)
    let m : Machine := ⟨⟨tape, channel⟩, pc, steps⟩
    let completion := match fault?, failure? with
      | some fault, _ => .aborted fault steps
      | none, some f => .undelivered f
      | none, none => .finished m.outcome
    (completion, m.world.channel.close)

/-- A whole run of an engine on a tape of `heapSize` cells. -/
def conduct (engine : Machine → Option Ending) (config : Config) (ends : Endpoints) :
    Option (Completion × Endpoints) :=
  (engine (start (.blank config.heapSize config.heapSize_pos) { ends })).map conclude

end Machine

def Source.run (s : Source) (fuel : Nat) (config : Config) (ends : Endpoints) :
    Option (Completion × Endpoints) :=
  Machine.conduct (s.execute fuel) config ends

def Program.run (p : Program) (fuel : Nat) (config : Config) (ends : Endpoints) :
    Option (Completion × Endpoints) :=
  Machine.conduct (p.execute fuel) config ends

end TapeMachine
