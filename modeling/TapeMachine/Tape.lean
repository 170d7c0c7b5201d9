import TapeMachine.Fault

/-!
# The tape

A row of bytes with a head on one of them. Arithmetic wraps; a move that would leave the tape is
refused and changes nothing.
-/

namespace TapeMachine

structure Tape where
  cells : Array UInt8
  head : Nat
  head_lt : head < cells.size
deriving DecidableEq

/-- The place that a fault names, kept within a signed word. -/
def clampHead (i : Int) : Int := max Int64.minValue.toInt (min i Int64.maxValue.toInt)

namespace Tape

/-- All cells zero, the head on the first. -/
def blank (size : Nat) (h : 0 < size) : Tape := ⟨Array.replicate size 0, 0, by simpa using h⟩

def blank? (size : Nat) : Except Fault Tape :=
  if h : 0 < size then .ok (blank size h) else .error .emptyTape

def size (t : Tape) : Nat := t.cells.size

def current (t : Tape) : UInt8 :=
  have := t.head_lt
  t.cells[t.head]

def set (t : Tape) (value : UInt8) : Tape :=
  ⟨t.cells.set t.head value t.head_lt, t.head, by simpa using t.head_lt⟩

def add (t : Tape) (count : Nat) : Tape := t.set (t.current + UInt8.ofNat count)

def sub (t : Tape) (count : Nat) : Tape := t.set (t.current - UInt8.ofNat count)

def right (t : Tape) (count : Nat) : Except Fault Tape :=
  if h : t.head + count < t.cells.size then .ok ⟨t.cells, t.head + count, h⟩
  else .error (.outOfTape (clampHead (t.head + count)) t.size)

def left (t : Tape) (count : Nat) : Except Fault Tape :=
  if count ≤ t.head then
    .ok ⟨t.cells, t.head - count, Nat.lt_of_le_of_lt (Nat.sub_le ..) t.head_lt⟩
  else .error (.outOfTape (clampHead (t.head - count)) t.size)

end Tape

end TapeMachine
