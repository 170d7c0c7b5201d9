/-!
# Calls on endpoints

The reader and the sink of a run share a log, so that it shows in which order they were used.
-/

namespace TapeMachine

inductive Call where
  /-- `count` bytes arrived; none at the end of the input. -/
  | read (count : Nat)
  | readFailed
  | readInterrupted
  /-- The sink took `count` of the bytes offered to it. -/
  | wrote (count : Nat)
  | writeFailed
  | writeInterrupted
  | flushed
  | flushFailed
deriving DecidableEq

def Call.describe : Call → String
  | read count => "r" ++ toString count
  | readFailed | readInterrupted => "r!"
  | wrote count => "w" ++ toString count
  | writeFailed => "w!"
  | writeInterrupted => "wi"
  | flushed => "f"
  | flushFailed => "f!"

end TapeMachine
