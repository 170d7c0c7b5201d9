import TapeMachine.Endpoint.Endpoints

/-!
# Channels

A channel stands between a program and its endpoints. It keeps output back until a buffer of 8192
bytes is full, the program reads, or somebody flushes. A byte leaves the buffer when the sink has
taken it and not before, so no failure loses or repeats output.
-/

namespace TapeMachine

structure Channel where
  ends : Endpoints
  /-- Written by the program and not yet taken by the sink. -/
  pending : Array UInt8 := #[]
  bytesRead : Nat := 0
  bytesWritten : Nat := 0
deriving DecidableEq, Inhabited

namespace Channel

/-- What an operation of a channel gives, with the channel that it leaves. -/
abbrev Result := EStateM.Result IoFailure Channel

def capacity : Nat := 8192

/-- What a program reads at the end of its input. -/
def endOfInputByte : UInt8 := 255

def stalled : IoFailure := ⟨.writeZero, "failed to write the buffered data"⟩

def writeOut (c : Channel) : Result Unit :=
  match c.ends.deliver stalled c.pending.toList with
  | ⟨_, none, ends⟩ => .ok () { c with ends, pending := #[] }
  | ⟨left, some f, ends⟩ => .error f { c with ends, pending := left.toArray }

def flush (c : Channel) : Result Unit :=
  match c.writeOut with
  | .error f c => .error f c
  | .ok _ c =>
    match c.ends.flushSink with
    | (none, ends) => .ok () { c with ends }
    | (some f, ends) => .error f { c with ends }

def push (c : Channel) (b : UInt8) : Channel :=
  { c with pending := c.pending.push b, bytesWritten := c.bytesWritten + 1 }

def writeByte (c : Channel) (b : UInt8) : Result Unit :=
  if c.pending.size < capacity then .ok () (c.push b)
  else
    match c.writeOut with
    | .error f c => .error f c
    | .ok _ c => .ok () (c.push b)

/-- Flushes, then waits for a byte. -/
def readByte (c : Channel) : Result UInt8 :=
  match c.flush with
  | .error f c => .error f c
  | .ok _ c =>
    match c.ends.awaitByte with
    | (.byte b, ends) => .ok b { c with ends, bytesRead := c.bytesRead + 1 }
    | (.endOfInput, ends) => .ok endOfInputByte { c with ends }
    | (.failure f, ends) => .error f { c with ends }

/-- Gives the endpoints back after one more attempt to hand the buffer over, whatever comes of
it. -/
def close (c : Channel) : Endpoints :=
  match c.writeOut with
  | .ok _ c | .error _ c => c.ends

end Channel

end TapeMachine
