import TapeMachine.Fault
import TapeMachine.Symbol

/-!
# Brackets

A source is balanced when every bracket has a partner. `Source.checkBalance` finds the bracket to
blame otherwise, and the two scans `Source.closer?` and `Source.opener?` find a bracket's partner
by counting the loops they pass over.
-/

namespace TapeMachine

/-- A bracket without a partner, at its offset. -/
inductive Unmatched where
  | opening (offset : Nat)
  | closing (offset : Nat)
deriving DecidableEq

def Unmatched.fault (s : Source) : Unmatched → Fault
  | opening offset => .unmatchedOpen (s.locate offset)
  | closing offset => .unmatchedClose (s.locate offset)

namespace Brackets

/-- Walks bytes that start at `offset`, given the offsets of the loops that are still open, the
innermost first. A bracket that closes nothing is to blame as soon as it is met, a loop that stays
open only at the end. -/
def check : List UInt8 → Nat → List Nat → Except Unmatched Unit
  | [], _, [] => .ok ()
  | [], _, start :: _ => .error (.opening start)
  | b :: rest, offset, opened =>
    match Symbol.ofByte? b with
    | some .loopOpen => check rest (offset + 1) (offset :: opened)
    | some .loopClose =>
      match opened with
      | [] => .error (.closing offset)
      | _ :: outer => check rest (offset + 1) outer
    | _ => check rest (offset + 1) opened

/-- Scans `length` bytes from offset `i` on for the bracket that closes the loop at nesting depth
zero. -/
def closeFrom (bytes : Array UInt8) (i : Nat) : (length depth : Nat) → Option Nat
  | 0, _ => none
  | length + 1, depth =>
    match Symbol.ofByte? (bytes.getD i 0), depth with
    | some .loopOpen, depth => closeFrom bytes (i + 1) length (depth + 1)
    | some .loopClose, 0 => some i
    | some .loopClose, depth + 1 => closeFrom bytes (i + 1) length depth
    | _, depth => closeFrom bytes (i + 1) length depth

/-- Scans the bytes before offset `i`, from the last to the first, for the bracket that opens the
loop at nesting depth zero. -/
def openBefore (bytes : Array UInt8) : (i depth : Nat) → Option Nat
  | 0, _ => none
  | i + 1, depth =>
    match Symbol.ofByte? (bytes.getD i 0), depth with
    | some .loopClose, depth => openBefore bytes i (depth + 1)
    | some .loopOpen, 0 => some i
    | some .loopOpen, depth + 1 => openBefore bytes i depth
    | _, depth => openBefore bytes i depth

end Brackets

namespace Source

def unmatched (s : Source) : Except Unmatched Unit := Brackets.check s.bytes.toList 0 []

def checkBalance (s : Source) : Except Fault Unit := s.unmatched.mapError (·.fault s)

/-- The offset of the bracket that closes the loop opened at `start`. -/
def closer? (s : Source) (start : Nat) : Option Nat :=
  Brackets.closeFrom s.bytes (start + 1) (s.size - (start + 1)) 0

/-- The offset of the bracket that opens the loop closed at `stop`. -/
def opener? (s : Source) (stop : Nat) : Option Nat :=
  Brackets.openBefore s.bytes stop 0

end Source

end TapeMachine
