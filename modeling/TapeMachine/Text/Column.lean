/-!
# Columns

Text is brought to a width counted in characters. Text that is wider already stays as it is.
-/

namespace TapeMachine.Text

def fill (width : Nat) (blank : Char) (text : String) : String :=
  String.ofList (List.replicate (width - text.length) blank)

/-- Flush right. -/
def padStart (width : Nat) (blank : Char) (text : String) : String :=
  fill width blank text ++ text

/-- Flush left, filled with blanks. -/
def padEnd (width : Nat) (text : String) : String :=
  text ++ fill width ' ' text

end TapeMachine.Text
