/-!
# Blanks

The characters with the property White_Space, and how text is trimmed and split at them.
-/

namespace TapeMachine.Text

def isBlank (c : Char) : Bool :=
  let n := c.toNat
  (9 ≤ n && n ≤ 13) || n = 0x20 || n = 0x85 || n = 0xA0 || n = 0x1680 ||
    (0x2000 ≤ n && n ≤ 0x200A) || n = 0x2028 || n = 0x2029 || n = 0x202F || n = 0x205F || n = 0x3000

def trimChars (cs : List Char) : List Char :=
  ((cs.dropWhile isBlank).reverse.dropWhile isBlank).reverse

/-- The text without the blanks at its ends. -/
def trim (text : String) : String := String.ofList (trimChars text.toList)

/-- The maximal runs without blanks, given the run in progress, last character first. -/
def wordsFrom : List Char → List Char → List (List Char)
  | [], [] => []
  | [], run => [run.reverse]
  | c :: cs, run =>
    if isBlank c then
      match run with
      | [] => wordsFrom cs []
      | run => run.reverse :: wordsFrom cs []
    else wordsFrom cs (c :: run)

def words (text : String) : List String := (wordsFrom text.toList []).map String.ofList

end TapeMachine.Text
