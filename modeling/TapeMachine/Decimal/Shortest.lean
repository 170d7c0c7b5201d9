import TapeMachine.Decimal.Binary

/-!
# Shortest decimals

The fewest digits that read back as a given double: among the decimals of the first length that has
any in the interval of reals that round to the double, the one nearest to it.
-/

namespace TapeMachine.Decimal

/-- The number `digits * 10 ^ exponent`. -/
structure Digits where
  digits : Nat
  exponent : Int
deriving DecidableEq

/-- Compares `n * 2 ^ e` with `d * 10 ^ k`. -/
def compareScaled (n : Nat) (e : Int) (d : Nat) (k : Int) : Ordering :=
  let (twoNum, twoDen) := powTwo e
  let (tenNum, tenDen) := powTen k
  compare (n * twoNum * tenDen) (d * tenNum * twoDen)

namespace Binary

variable (b : Binary)

/-- A decimal rounds to `b` when it lies between the midpoints to the neighbours of `b`; a midpoint
itself rounds to `b` when the significand is even. The unit here is a quarter of the last place. -/
def readsAs (d : Nat) (k : Int) : Bool :=
  let low := 4 * b.significand - (if b.isEdge then 1 else 2)
  let high := 4 * b.significand + 2
  let unit := b.exponent - 2
  match compareScaled low unit d k, compareScaled high unit d k with
  | .lt, .gt => true
  | .eq, .gt | .lt, .eq => b.significand % 2 = 0
  | _, _ => false

/-- The greatest `k` with `10 ^ k` at most `b`, for a positive significand. -/
def magnitude : Int :=
  if 0 ≤ b.exponent then ((toString (b.significand * Nat.pow 2 b.exponent.toNat)).length : Int) - 1
  else
    let scaled := b.significand * Nat.pow 10 400 / Nat.pow 2 (-b.exponent).toNat
    ((toString scaled).length : Int) - 1 - 400

/-- The multiple of `10 ^ k` below `b`, in that unit. -/
def floorAt (k : Int) : Nat :=
  let (twoNum, twoDen) := powTwo b.exponent
  let (tenNum, tenDen) := powTen k
  b.significand * twoNum * tenDen / (twoDen * tenNum)

/-- Of the two multiples of `10 ^ k` around `b` that read back, the nearer one. -/
def candidate? (k : Int) : Option Nat :=
  let d := b.floorAt k
  match b.readsAs d k, b.readsAs (d + 1) k with
  | false, false => none
  | true, false => some d
  | false, true => some (d + 1)
  | true, true =>
    match compareScaled (2 * b.significand) b.exponent (2 * d + 1) k with
    | .lt => some d
    | .gt => some (d + 1)
    | .eq => some (if d % 2 = 0 then d else d + 1)

/-- Tries `count` lengths, from decimals of unit `10 ^ k` to finer ones. -/
def search : (count : Nat) → (k : Int) → Digits
  | 0, k => ⟨b.floorAt k, k⟩
  | count + 1, k =>
    match b.candidate? k with
    | some d => ⟨d, k⟩
    | none => search count (k - 1)

/-- Seventeen digits always suffice. -/
def shortest : Digits := if b.significand = 0 then ⟨0, 0⟩ else b.search 17 b.magnitude

end Binary

end TapeMachine.Decimal
