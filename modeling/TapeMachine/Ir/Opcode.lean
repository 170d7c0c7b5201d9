import TapeMachine.Action

/-!
# Opcodes

An opcode performs an action or jumps. The two ends of a loop hold each other's index in the
program, and a loop start whose end is not known yet holds the largest word.
-/

namespace TapeMachine

/-- The largest word. -/
def wordMax : Nat := UInt64.size - 1

inductive Opcode where
  | act (action : Action)
  | loopStart (target : Nat)
  | loopEnd (target : Nat)
deriving DecidableEq

namespace Opcode

def unresolved : Nat := wordMax

/-- Carries a repeat count. -/
def isCounted : Opcode → Bool
  | act a => a.isCounted
  | loopStart _ | loopEnd _ => false

def isBracket : Opcode → Bool
  | act _ => false
  | loopStart _ | loopEnd _ => true

def isLoopStart : Opcode → Bool
  | loopStart _ => true
  | _ => false

def touchesEndpoints : Opcode → Bool
  | act a => a.touchesEndpoints
  | loopStart _ | loopEnd _ => false

def operand? : Opcode → Option Nat
  | act a => a.count?
  | loopStart n | loopEnd n => some n

def mnemonic : Opcode → String
  | act (.add _) => "ADD"
  | act (.sub _) => "SUB"
  | act .clear => "ZERO"
  | act (.right _) => "MOVR"
  | act (.left _) => "MOVL"
  | act .output => "OUT"
  | act .input => "IN"
  | loopStart _ => "LOOP"
  | loopEnd _ => "END"

/-- One line of a listing, without its index and offset. -/
def describe : Opcode → String
  | loopStart n => if n = unresolved then "LOOP -> ?" else "LOOP -> " ++ toString n
  | loopEnd n => "END -> " ++ toString n
  | op =>
    match op.operand? with
    | some n => op.mnemonic ++ " " ++ toString n
    | none => op.mnemonic

/-- The name under which reports about a broken program mention an opcode. -/
def term : Opcode → String
  | act (.add n) => "Add(" ++ toString n ++ ")"
  | act (.sub n) => "Sub(" ++ toString n ++ ")"
  | act .clear => "AssignZero"
  | act (.right n) => "MoveRight(" ++ toString n ++ ")"
  | act (.left n) => "MoveLeft(" ++ toString n ++ ")"
  | act .output => "Output"
  | act .input => "Input"
  | loopStart n => "LoopStart(" ++ toString n ++ ")"
  | loopEnd n => "LoopEnd(" ++ toString n ++ ")"

end Opcode

end TapeMachine
