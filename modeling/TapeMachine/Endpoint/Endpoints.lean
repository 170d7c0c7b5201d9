import TapeMachine.Endpoint.Call
import TapeMachine.Endpoint.Reader
import TapeMachine.Endpoint.Sink

/-!
# The endpoints of a run

A reader, a sink and the log that they share. Bytes are handed to the sink until it has taken them
all: interrupted attempts are made again, and an attempt that takes nothing ends the effort.
-/

namespace TapeMachine

structure Endpoints where
  reader : Reader
  sink : Sink := {}
  log : Array Call := #[]
deriving DecidableEq, Inhabited

namespace Endpoints

def ofBytes (input : List UInt8) : Endpoints := { reader := .ofBytes input }

/-- The outcome of handing bytes over: what the sink did not take, and the failure that is the
reason. -/
structure Delivery where
  left : List UInt8
  failure : Option IoFailure
  ends : Endpoints

/-- Hands `data` to the sink. When the sink takes nothing, the failure is `stalled`. -/
def deliver (stalled : IoFailure) (e : Endpoints) (data : List UInt8) : Delivery :=
  if data.isEmpty then ⟨data, none, e⟩
  else
    match h : e.sink.write data with
    | (.interrupted, sink) =>
      deliver stalled { e with sink, log := e.log.push .writeInterrupted } data
    | (.failure f, sink) => ⟨data, some f, { e with sink, log := e.log.push .writeFailed }⟩
    | (.took 0, sink) => ⟨data, some stalled, { e with sink, log := e.log.push (.wrote 0) }⟩
    | (.took (k + 1), sink) =>
      deliver stalled { e with sink, log := e.log.push (.wrote (k + 1)) } (data.drop (k + 1))
termination_by e.sink.turns.length + data.length
decreasing_by
  · have ht := congrArg List.length (Sink.turns_write e.sink data)
    have hne := Sink.turns_ne_nil_of_write (congrArg Prod.fst h)
    have := List.length_pos_iff.2 hne
    rw [h, List.length_tail] at ht
    simp only at ht ⊢
    omega
  · have ht := congrArg List.length (Sink.turns_write e.sink data)
    have hne : data ≠ [] := by simp_all
    have := List.length_pos_iff.2 hne
    rw [h, List.length_tail] at ht
    simp only [List.length_drop] at ht ⊢
    omega

def flushSink (e : Endpoints) : Option IoFailure × Endpoints :=
  match e.sink.flush with
  | (none, sink) => (none, { e with sink, log := e.log.push .flushed })
  | (some f, sink) => (some f, { e with sink, log := e.log.push .flushFailed })

def awaitByte (e : Endpoints) : Reader.Answer × Endpoints :=
  match Reader.await e.reader.script e.log with
  | (answer, script, log) => (answer, { e with reader := ⟨script⟩, log })

end Endpoints

end TapeMachine
