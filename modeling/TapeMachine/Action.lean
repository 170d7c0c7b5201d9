import TapeMachine.Symbol

/-!
# Actions

What a program does between its jumps. Both engines perform the same actions; the direct engine
only those with a count of one.
-/

namespace TapeMachine

inductive Action where
  | add (count : Nat)
  | sub (count : Nat)
  | clear
  | right (count : Nat)
  | left (count : Nat)
  | output
  | input
deriving DecidableEq

/-- What `count` copies of a symbol do, if the symbol is one that is counted. -/
def Symbol.counted? (count : Nat) : Symbol → Option Action
  | increment => some (.add count)
  | decrement => some (.sub count)
  | right => some (.right count)
  | left => some (.left count)
  | output | input | loopOpen | loopClose => none

namespace Action

def isCounted : Action → Bool
  | add _ | sub _ | right _ | left _ => true
  | clear | output | input => false

def touchesEndpoints : Action → Bool
  | output | input => true
  | _ => false

def count? : Action → Option Nat
  | add n | sub n | right n | left n => some n
  | clear | output | input => none

end Action

end TapeMachine
