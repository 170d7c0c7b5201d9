import TapeMachine.Decimal.Shortest

/-!
# JSON text

Strings, numbers and lists of records in JSON, the records indented by two blanks.
-/

namespace TapeMachine.Text.Json

def hexDigit (n : Nat) : Char := Char.ofNat (if n < 10 then 48 + n else 87 + n)

def escape (c : Char) : List Char :=
  match c with
  | '"' => ['\\', '"']
  | '\\' => ['\\', '\\']
  | '\x08' => ['\\', 'b']
  | '\x0c' => ['\\', 'f']
  | '\n' => ['\\', 'n']
  | '\r' => ['\\', 'r']
  | '\t' => ['\\', 't']
  | c =>
    if c.toNat < 32 then ['\\', 'u', '0', '0', hexDigit (c.toNat / 16), hexDigit (c.toNat % 16)]
    else [c]

def string (text : String) : String := String.ofList ('"' :: text.toList.flatMap escape ++ ['"'])

def zeros (n : Nat) : String := String.ofList (List.replicate n '0')

/-- Positional for leading exponents from -5 to 15, else with an exponent. A number always has a
point or an exponent. -/
def layout (digits : String) (exponent : Int) : String :=
  let lead : Int := digits.length + exponent
  let chars := digits.toList
  if 0 ≤ exponent ∧ lead ≤ 16 then digits ++ zeros exponent.toNat ++ ".0"
  else if 0 < lead ∧ lead ≤ 16 then
    String.ofList (chars.take lead.toNat) ++ "." ++ String.ofList (chars.drop lead.toNat)
  else if -5 < lead ∧ lead ≤ 0 then "0." ++ zeros (-lead).toNat ++ digits
  else
    let fraction := if chars.length = 1 then "" else "." ++ String.ofList (chars.drop 1)
    let power := lead - 1
    let sign := if power < 0 then "" else "+"
    String.ofList (chars.take 1) ++ fraction ++ "e" ++ sign ++ toString power

/-- The digits without the zeros at their end, which go into the exponent. -/
def trimZeros : (digits : List Char) → Int → List Char × Int
  | '0' :: rest, k => if rest.isEmpty then (['0'], k) else trimZeros rest (k + 1)
  | digits, k => (digits, k)

def bool (b : Bool) : String := if b then "true" else "false"

def null : String := "null"

/-- The fewest digits that read back as the same number. What is not finite is no number of
JSON. -/
def number (x : Float) : String :=
  let b := Decimal.Binary.ofFloat x
  if !Decimal.isFinite x then null
  else if b.significand = 0 then b.sign ++ "0.0"
  else
    let d := b.shortest
    let (reversed, exponent) := trimZeros (toString d.digits).toList.reverse d.exponent
    b.sign ++ layout (String.ofList reversed.reverse) exponent

/-- The fields of a record, whose values are JSON text already. -/
def record (fields : List (String × String)) : String :=
  let lines := fields.map fun (name, value) => "    " ++ string name ++ ": " ++ value
  "  \x7b\n" ++ String.intercalate ",\n" lines ++ "\n  \x7d"

def records (rs : List (List (String × String))) : String :=
  if rs.isEmpty then "[]" else "[\n" ++ String.intercalate ",\n" (rs.map record) ++ "\n]"

end TapeMachine.Text.Json
