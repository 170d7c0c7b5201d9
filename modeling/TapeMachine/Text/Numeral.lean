/-!
# Numerals

Decimal numerals of bounded numbers. A sign may stand in front, a minus only where numbers can be
negative. The first character that is no digit or makes the number too large is to blame.
-/

namespace TapeMachine.Text

inductive NumeralError where
  | empty
  | invalidDigit
  | tooLarge
  | tooSmall
deriving DecidableEq

namespace NumeralError

def message : NumeralError → String
  | empty => "cannot parse integer from empty string"
  | invalidDigit => "invalid digit found in string"
  | tooLarge => "number too large to fit in target type"
  | tooSmall => "number too small to fit in target type"

end NumeralError

namespace Numeral

def digit? (c : Char) : Option Nat := if c.isDigit then some (c.toNat - '0'.toNat) else none

/-- Digits that follow the digits of `n`; `excess` is the error above `limit`. -/
def digits (limit : Nat) (excess : NumeralError) : List Char → Nat → Except NumeralError Nat
  | [], n => .ok n
  | c :: cs, n =>
    match digit? c with
    | none => .error .invalidDigit
    | some d => if limit < n * 10 + d then .error excess else digits limit excess cs (n * 10 + d)

/-- At least one digit. -/
def digits1 (limit : Nat) (excess : NumeralError) : List Char → Except NumeralError Nat
  | [] => .error .invalidDigit
  | cs => digits limit excess cs 0

/-- A number up to `limit`. -/
def natural (limit : Nat) (text : String) : Except NumeralError Nat :=
  match text.toList with
  | [] => .error .empty
  | '+' :: cs => digits1 limit .tooLarge cs
  | cs => digits1 limit .tooLarge cs

/-- A number from `-low` to `high`. -/
def integer (low high : Nat) (text : String) : Except NumeralError Int :=
  match text.toList with
  | [] => .error .empty
  | '+' :: cs => (digits1 high .tooLarge cs).map Int.ofNat
  | '-' :: cs => (digits1 low .tooSmall cs).map fun n => -Int.ofNat n
  | cs => (digits1 high .tooLarge cs).map Int.ofNat

end Numeral

end TapeMachine.Text
