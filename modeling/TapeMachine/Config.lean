import TapeMachine.Fault

/-!
# Configuration

The engine that runs a program and the length of its tape.
-/

namespace TapeMachine

inductive Mode where
  /-- Walks the source and looks for the partner of a bracket at every jump. -/
  | direct
  /-- Lowers the source first and runs the lowered program. -/
  | ir
deriving DecidableEq

namespace Mode

/-- Level zero is the direct engine, every other level the lowered program. -/
def ofLevel (level : Nat) : Mode := if level = 0 then direct else ir

def name : Mode → String
  | direct => "direct"
  | ir => "ir"

/-- A text that names no mode, in small letters. -/
structure Unknown where
  name : String
deriving DecidableEq

def Unknown.message (e : Unknown) : String := "unknown execution mode '" ++ e.name ++ "'"

/-- Reads a name or a level, in any case of ASCII letters. -/
def parse (text : String) : Except Unknown Mode :=
  let name := text.toLower
  if name = "direct" ∨ name = "0" then .ok direct
  else if name = "ir" ∨ name = "1" then .ok ir
  else .error ⟨name⟩

end Mode

structure Config where
  heapSize : Nat
  mode : Mode
  heapSize_pos : 0 < heapSize
deriving DecidableEq

namespace Config

def make (heapSize : Nat) (mode : Mode) : Except Fault Config :=
  if h : 0 < heapSize then .ok ⟨heapSize, mode, h⟩ else .error .emptyTape

def defaultHeapSize : Nat := 65536

/-- A tape of 65536 cells and the lowered program. -/
def standard : Config := ⟨defaultHeapSize, .ir, by decide⟩

instance : Inhabited Config := ⟨standard⟩

def setMode (c : Config) (mode : Mode) : Config := { c with mode }

end Config

end TapeMachine
