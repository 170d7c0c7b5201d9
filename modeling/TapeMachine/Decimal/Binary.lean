/-!
# Doubles as exact numbers

A finite double is a sign, a significand and a power of two. What follows on decimals computes with
these and never with rounded arithmetic.
-/

namespace TapeMachine.Decimal

/-- The number `significand * 2 ^ exponent`, negative if `negative`. -/
structure Binary where
  negative : Bool
  significand : Nat
  exponent : Int
deriving DecidableEq

namespace Binary

def fractionBits : Nat := 52

/-- The exponent of the least positive number. -/
def leastExponent : Int := -1074

def ofBits (bits : UInt64) : Binary :=
  let n := bits.toNat
  let fraction := n % Nat.pow 2 fractionBits
  let scale := n / Nat.pow 2 fractionBits % Nat.pow 2 11
  let negative := n / Nat.pow 2 63 = 1
  if scale = 0 then ⟨negative, fraction, leastExponent⟩
  else ⟨negative, Nat.pow 2 fractionBits + fraction, leastExponent + (scale - 1 : Nat)⟩

def ofFloat (x : Float) : Binary := ofBits x.toBits

def sign (b : Binary) : String := if b.negative then "-" else ""

/-- The gap to the number below is half as wide as the gap above. -/
def isEdge (b : Binary) : Bool :=
  b.significand = Nat.pow 2 fractionBits && leastExponent < b.exponent

end Binary

/-- Infinities and what is not a number share the largest scale. -/
def isFinite (x : Float) : Bool :=
  x.toBits.toNat / Nat.pow 2 Binary.fractionBits % Nat.pow 2 11 < Nat.pow 2 11 - 1

/-- `2 ^ e` as a numerator and a denominator. -/
def powTwo (e : Int) : Nat × Nat :=
  if 0 ≤ e then (Nat.pow 2 e.toNat, 1) else (1, Nat.pow 2 (-e).toNat)

/-- `10 ^ e` as a numerator and a denominator. -/
def powTen (e : Int) : Nat × Nat :=
  if 0 ≤ e then (Nat.pow 10 e.toNat, 1) else (1, Nat.pow 10 (-e).toNat)

end TapeMachine.Decimal
