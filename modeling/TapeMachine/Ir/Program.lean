import TapeMachine.Ir.Opcode
import TapeMachine.Text.Column

/-!
# Lowered programs

A program is a row of instructions, entered at index zero and left past its end. Any row of opcodes
is a program; `Program.checkLoops` tells whether its loop ends refer to each other and nest.
-/

namespace TapeMachine

/-- An opcode and the offset of the text it stands for. -/
structure Instruction where
  opcode : Opcode
  offset : Nat
deriving DecidableEq

structure Program where
  code : Array Instruction
deriving DecidableEq, Inhabited

/-- What is wrong with the loop ends of a program, at the index where it shows. -/
inductive LoopError where
  | unresolved (index : Nat)
  | wrongPartner (index target : Nat) (found : Option Opcode)
  | nothingOpen (index : Nat)
  | notInnermost (index target innermost : Nat)
  | neverClosed (index : Nat)
deriving DecidableEq

def LoopError.message : LoopError → String
  | unresolved index => "LoopStart at " ++ toString index ++ " was never resolved"
  | wrongPartner index target found =>
    let found := match found with
      | some op => "Some(" ++ op.term ++ ")"
      | none => "None"
    "LoopStart at " ++ toString index ++ " targets " ++ toString target ++ ", found " ++ found
  | nothingOpen index => "LoopEnd at " ++ toString index ++ " has no open loop"
  | notInnermost index target innermost =>
    "LoopEnd at " ++ toString index ++ " targets " ++ toString target ++
      ", innermost open loop is " ++ toString innermost
  | neverClosed index => "LoopStart at " ++ toString index ++ " is never closed"

namespace Program

/-- The offset of an instruction is its index. -/
def ofOpcodes (ops : List Opcode) : Program :=
  ⟨(ops.mapIdx fun i op => ⟨op, i⟩).toArray⟩

def size (p : Program) : Nat := p.code.size

def isEmpty (p : Program) : Bool := p.code.isEmpty

def opcode? (p : Program) (index : Nat) : Option Opcode := p.code[index]?.map (·.opcode)

def opcodes (p : Program) : List Opcode := p.code.toList.map (·.opcode)

def numLoops (p : Program) : Nat := p.opcodes.countP (·.isLoopStart)

/-- Checks the opcodes from `index` on, given the indices of the loops open there, the innermost
first. -/
def checkLoopsFrom (p : Program) : List Opcode → Nat → List Nat → Except LoopError Unit
  | [], _, [] => .ok ()
  | [], _, start :: _ => .error (.neverClosed start)
  | .act _ :: rest, index, opened => checkLoopsFrom p rest (index + 1) opened
  | .loopStart target :: rest, index, opened =>
    if target = Opcode.unresolved then .error (.unresolved index)
    else if p.opcode? target = some (.loopEnd index) then
      checkLoopsFrom p rest (index + 1) (index :: opened)
    else .error (.wrongPartner index target (p.opcode? target))
  | .loopEnd target :: rest, index, opened =>
    match opened with
    | [] => .error (.nothingOpen index)
    | start :: outer =>
      if start = target then checkLoopsFrom p rest (index + 1) outer
      else .error (.notInnermost index target start)

def checkLoops (p : Program) : Except LoopError Unit := p.checkLoopsFrom p.opcodes 0 []

/-- The line of an instruction in a listing: its index in at least four digits, its opcode and the
offset of its text. -/
def line (index : Nat) (i : Instruction) : String :=
  Text.padStart 4 '0' (toString index) ++ "  " ++ i.opcode.describe ++ "  ; @" ++
    toString i.offset ++ "\n"

def listing (p : Program) : String := String.join (p.code.toList.mapIdx line)

end Program

end TapeMachine
