/-!
# Program texts

A source is any sequence of bytes. Tools address it by byte offset; `Source.locate` turns an
offset into the line and column a person looks for. A byte after a newline starts a new line, and
columns count bytes, so an offset is the start of its line plus its column less one.
-/

namespace TapeMachine

/-- Lines and columns count from one, in words of 32 bits. -/
structure Position where
  line : UInt32
  column : UInt32
  offset : Nat
deriving DecidableEq

namespace Position

def describe (p : Position) : String :=
  "line " ++ toString p.line.toNat ++ ", column " ++ toString p.column.toNat

/-- The place right after a byte that stands at `p`. -/
def after (p : Position) (byte : UInt8) : Position :=
  if byte = 10 then ⟨p.line + 1, 1, p.offset + 1⟩ else ⟨p.line, p.column + 1, p.offset + 1⟩

end Position

structure Source where
  bytes : Array UInt8
deriving DecidableEq, Inhabited

namespace Source

def ofString (text : String) : Source := ⟨text.toUTF8.data⟩

def size (s : Source) : Nat := s.bytes.size

def isEmpty (s : Source) : Bool := s.bytes.isEmpty

/-- Offsets past the end are taken to be the end. -/
def locate (s : Source) (offset : Nat) : Position :=
  s.bytes.foldl Position.after ⟨1, 1, 0⟩ 0 offset

end Source

end TapeMachine
