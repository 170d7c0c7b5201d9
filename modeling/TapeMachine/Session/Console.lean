import TapeMachine.Endpoint.Endpoints
import TapeMachine.Session.Basic

/-!
# Consoles

The standard streams of a process: bytes that are still to be read, bytes that were printed, and
remarks for the error stream.
-/

namespace TapeMachine

structure Console where
  input : List UInt8
  output : Array UInt8 := #[]
  remarks : Array Remark := #[]

namespace Console

variable (c : Console)

def print (text : String) : Console := { c with output := c.output ++ text.toUTF8.data }

def remark (remarks : List Remark) : Console := { c with remarks := c.remarks ++ remarks }

def complain (text : String) : Console := c.remark [.text text]

/-- Endpoints that read what is left of the input. -/
def ends : Endpoints := .ofBytes c.input

/-- Takes over what a run did to the endpoints. -/
def absorb (ends : Endpoints) : Console :=
  { c with input := ends.reader.remaining, output := c.output ++ ends.sink.accepted }

end Console

end TapeMachine
