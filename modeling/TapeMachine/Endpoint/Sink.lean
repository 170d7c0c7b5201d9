import TapeMachine.Fault

/-!
# Sinks

A sink takes the bytes that are offered to it, at once or piece by piece, and may refuse them. Its
first writes and flushes go as they are listed; after that it behaves the same way every time, and
only its room may run out.
-/

namespace TapeMachine

namespace Sink

inductive Turn where
  | interrupted
  /-- Takes so many bytes at most. -/
  | takes (most : Nat)
  | fails (failure : IoFailure)
deriving DecidableEq

inductive Answer where
  | took (count : Nat)
  | interrupted
  | failure (failure : IoFailure)
deriving DecidableEq

end Sink

structure Sink where
  /-- How the next writes go. -/
  turns : List Sink.Turn := []
  /-- How many bytes still fit, if that is limited. -/
  room : Option Nat := none
  /-- The most that one write takes when no turn is left. -/
  portion : Option Nat := none
  /-- What a write without room fails with; without it, such a write takes nothing. -/
  refusal : Option IoFailure := none
  /-- How the next flushes go: what they fail with, if they fail. -/
  flushes : List (Option IoFailure) := []
  /-- What all later flushes fail with, if they fail. -/
  flushFailure : Option IoFailure := none
  accepted : Array UInt8 := #[]
deriving DecidableEq, Inhabited

namespace Sink

def cut (limit : Option Nat) (data : List UInt8) : List UInt8 :=
  match limit with
  | some n => data.take n
  | none => data

/-- Takes what there is room for, and not more than `most`. -/
def take (s : Sink) (most : Option Nat) (data : List UInt8) : Answer × Sink :=
  match s.room, s.refusal with
  | some 0, some f => (.failure f, s)
  | room, _ =>
    let taken := cut most (cut room data)
    let count := taken.length
    (.took count, { s with room := room.map (· - count), accepted := s.accepted ++ taken })

def write (s : Sink) (data : List UInt8) : Answer × Sink :=
  match s.turns with
  | .interrupted :: turns => (.interrupted, { s with turns })
  | .fails f :: turns => (.failure f, { s with turns })
  | .takes most :: turns => { s with turns }.take (some most) data
  | [] => s.take s.portion data

def flush (s : Sink) : Option IoFailure × Sink :=
  match s.flushes with
  | failure? :: flushes => (failure?, { s with flushes })
  | [] => (s.flushFailure, s)

theorem turns_take (s : Sink) (most : Option Nat) (data : List UInt8) :
    (s.take most data).2.turns = s.turns := by
  unfold take
  split <;> rfl

/-- Every attempt uses up a turn. -/
theorem turns_write (s : Sink) (data : List UInt8) : (s.write data).2.turns = s.turns.tail := by
  unfold write
  split <;> simp [turns_take, *]

theorem ne_interrupted_take (s : Sink) (most : Option Nat) (data : List UInt8) :
    (s.take most data).1 ≠ .interrupted := by
  unfold take
  split <;> simp

/-- A write is interrupted only in a turn that says so. -/
theorem turns_ne_nil_of_write {s : Sink} {data : List UInt8}
    (h : (s.write data).1 = .interrupted) : s.turns ≠ [] := by
  intro hs
  simp only [write, hs] at h
  exact ne_interrupted_take _ _ _ h

end Sink

end TapeMachine
