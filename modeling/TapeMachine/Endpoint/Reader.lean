import TapeMachine.Endpoint.Call
import TapeMachine.Fault

/-!
# Readers

A reader delivers what its script says, one arrival after the other, and is at its end when the
script is used up. An end of input in the script is passed by the call that meets it.
-/

namespace TapeMachine

inductive Arrival where
  | bytes (data : List UInt8)
  | failure (failure : IoFailure)
  | endOfInput
deriving DecidableEq

structure Reader where
  script : List Arrival
deriving DecidableEq, Inhabited

namespace Reader

def ofBytes (data : List UInt8) : Reader := ⟨[.bytes data]⟩

inductive Answer where
  | byte (b : UInt8)
  | endOfInput
  | failure (failure : IoFailure)
deriving DecidableEq

/-- Attempts to read a byte until an attempt is not interrupted. Every attempt is logged. -/
def await : List Arrival → Array Call → Answer × List Arrival × Array Call
  | [], log => (.endOfInput, [], log.push (.read 0))
  | .bytes [] :: rest, log => await rest log
  | .bytes (b :: data) :: rest, log => (.byte b, .bytes data :: rest, log.push (.read 1))
  | .endOfInput :: rest, log => (.endOfInput, rest, log.push (.read 0))
  | .failure f :: rest, log =>
    if f.kind = .interrupted then await rest (log.push .readInterrupted)
    else (.failure f, rest, log.push .readFailed)

/-- All bytes up to the end of the input, with interrupted attempts made again. -/
def readAllScript : List Arrival → Array UInt8 → Except IoFailure (Array UInt8)
  | [], found => .ok found
  | .bytes data :: rest, found => readAllScript rest (found ++ data)
  | .endOfInput :: _, found => .ok found
  | .failure f :: rest, found =>
    if f.kind = .interrupted then readAllScript rest found else .error f

def readAll (r : Reader) : Except IoFailure (Array UInt8) := readAllScript r.script #[]

/-- The bytes that are still to arrive. -/
def remaining (r : Reader) : List UInt8 :=
  r.script.flatMap fun
    | .bytes data => data
    | _ => []

end Reader

end TapeMachine
