/-!
# The eight symbols

Every other byte of a source is a comment.
-/

namespace TapeMachine

inductive Symbol where
  | increment
  | decrement
  | right
  | left
  | output
  | input
  | loopOpen
  | loopClose
deriving DecidableEq

namespace Symbol

def byte : Symbol → UInt8
  | increment => 43
  | decrement => 45
  | right => 62
  | left => 60
  | output => 46
  | input => 44
  | loopOpen => 91
  | loopClose => 93

def ofByte? (b : UInt8) : Option Symbol :=
  if b = 43 then some increment
  else if b = 45 then some decrement
  else if b = 62 then some right
  else if b = 60 then some left
  else if b = 46 then some output
  else if b = 44 then some input
  else if b = 91 then some loopOpen
  else if b = 93 then some loopClose
  else none

@[simp]
theorem ofByte?_byte (s : Symbol) : ofByte? s.byte = some s := by
  cases s <;> rfl

theorem byte_of_ofByte? {b : UInt8} {s : Symbol} (h : ofByte? b = some s) : s.byte = b := by
  unfold ofByte? at h
  repeat' split at h
  all_goals simp_all [byte]
  all_goals subst h; rfl

theorem ofByte?_eq_some_iff {b : UInt8} {s : Symbol} : ofByte? b = some s ↔ b = s.byte :=
  ⟨fun h => (byte_of_ofByte? h).symm, fun h => h ▸ ofByte?_byte s⟩

end Symbol

end TapeMachine
