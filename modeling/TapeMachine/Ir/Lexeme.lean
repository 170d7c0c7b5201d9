import TapeMachine.Ir.Opcode

/-!
# Lexemes

The pieces of a source that lower to one opcode each: a maximal run of one counted symbol, a loop
that clears its cell, any other single symbol. Comments are skipped, and end a run.
-/

namespace TapeMachine

inductive Lexeme where
  | act (action : Action)
  | loopOpen
  | loopClose
deriving DecidableEq

/-- A lexeme and the offset where its text begins. -/
structure Placed where
  lexeme : Lexeme
  offset : Nat
deriving DecidableEq

namespace Lexeme

/-- What follows the opening bracket of a loop that clears its cell. -/
def clearTail : List UInt8 := [Symbol.decrement.byte, Symbol.loopClose.byte]

/-- How many bytes at the front equal `b`. -/
def runLength (b : UInt8) (bytes : List UInt8) : Nat := (bytes.takeWhile (· = b)).length

/-- The lexeme that begins with `b` and goes on in `rest`, and how many bytes of `rest` belong to
it. A comment begins none. -/
def first? (b : UInt8) (rest : List UInt8) : Option (Lexeme × Nat) :=
  match Symbol.ofByte? b with
  | none => none
  | some .output => some (.act .output, 0)
  | some .input => some (.act .input, 0)
  | some .loopClose => some (.loopClose, 0)
  | some .loopOpen =>
    if clearTail.isPrefixOf rest then some (.act .clear, 2) else some (.loopOpen, 0)
  | some symbol =>
    let more := runLength b rest
    (symbol.counted? (more + 1)).map fun action => (.act action, more)

/-- The lexemes of bytes that start at `offset`, after those found so far. -/
def scan : List UInt8 → Nat → Array Placed → Array Placed
  | [], _, found => found
  | b :: rest, offset, found =>
    match first? b rest with
    | none => scan rest (offset + 1) found
    | some (lexeme, more) =>
      scan (rest.drop more) (offset + (more + 1)) (found.push ⟨lexeme, offset⟩)
termination_by bytes => bytes.length

end Lexeme

end TapeMachine
