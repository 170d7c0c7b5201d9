import TapeMachine.Decimal.Binary

/-!
# Fixed places

A double with a fixed number of decimals: its exact value, rounded to the nearest such decimal, a
half to the even one. The sign is kept, also of a zero. Doubles that are not finite have a name.
-/

namespace TapeMachine.Decimal

/-- The natural number nearest to a quotient, and of two nearest the even one. -/
def roundQuotient (num den : Nat) : Nat :=
  let q := num / den
  let r := num % den
  if 2 * r < den then q
  else if den < 2 * r then q + 1
  else if q % 2 = 0 then q else q + 1

def padDigits (width : Nat) (n : Nat) : String :=
  let digits := toString n
  String.ofList (List.replicate (width - digits.length) '0') ++ digits

def specialName (b : Binary) : String :=
  if b.significand = Nat.pow 2 Binary.fractionBits then b.sign ++ "inf" else "NaN"

def fixedBinary (places : Nat) (b : Binary) : String :=
  let (num, den) := powTwo b.exponent
  let n := roundQuotient (b.significand * num * Nat.pow 10 places) den
  let whole := toString (n / Nat.pow 10 places)
  let text := if places = 0 then whole else whole ++ "." ++ padDigits places (n % Nat.pow 10 places)
  b.sign ++ text

def fixed (places : Nat) (x : Float) : String :=
  let b := Binary.ofFloat x
  if isFinite x then fixedBinary places b else specialName b

end TapeMachine.Decimal
