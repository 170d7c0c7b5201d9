import TapeMachine.Fault

/-!
# Files

Files held in memory, under paths relative to one directory. A directory exists when a file is
below it.
-/

namespace TapeMachine

/-- Where programs are loaded from. -/
abbrev FileReader := String → Except IoFailure (Array UInt8)

structure Files where
  /-- The names on the way to each file, and its content. -/
  entries : List (List String × Array UInt8)

namespace Files

def missing : IoFailure := ⟨.notFound, "No such file or directory (os error 2)"⟩

def directory : IoFailure := ⟨.isADirectory, "Is a directory (os error 21)"⟩

def plainFile : IoFailure := ⟨.notADirectory, "Not a directory (os error 20)"⟩

def strayNul : IoFailure := ⟨.invalidInput, "file name contained an unexpected NUL byte"⟩

def tooLong : IoFailure := ⟨.invalidFilename, "File name too long (os error 36)"⟩

/-- The size of the longest name, in bytes. -/
def nameMax : Nat := 255

/-- The size of the longest path, in bytes. -/
def pathMax : Nat := 4095

/-- The names in a path. An empty name and a single dot stand for the directory reached so far. -/
def names (path : String) : List String :=
  (path.splitOn "/").filter fun name => name ≠ "" ∧ name ≠ "."

def ofList (files : List (String × Array UInt8)) : Files :=
  ⟨files.map fun (path, data) => (names path, data)⟩

def content? (f : Files) (place : List String) : Option (Array UInt8) :=
  (f.entries.find? fun entry => entry.1 = place).map (·.2)

def isDirectory (f : Files) (place : List String) : Bool :=
  f.entries.any fun entry => place.isPrefixOf entry.1 && place ≠ entry.1

/-- Follows names from the directory `place`; nothing is known outside of the files' directory. -/
def walk (f : Files) : Option (List String) → List String → Except IoFailure (Array UInt8)
  | _, [] => .error directory
  | none, name :: rest =>
    if name = "" ∨ name = "." ∨ name = ".." then walk f none rest
    else if nameMax < name.utf8ByteSize then .error tooLong
    else .error missing
  | some place, name :: rest =>
    if name = "" ∨ name = "." then walk f (some place) rest
    else if name = ".." then walk f (if place = [] then none else some place.dropLast) rest
    else if nameMax < name.utf8ByteSize then .error tooLong
    else
      match f.content? (place ++ [name]) with
      | some data => if rest.isEmpty then .ok data else .error plainFile
      | none =>
        if f.isDirectory (place ++ [name]) then walk f (some (place ++ [name])) rest
        else .error missing

def read (f : Files) : FileReader := fun path =>
  if path.contains '\x00' then .error strayNul
  else if path = "" then .error missing
  else if pathMax < path.utf8ByteSize then .error tooLong
  else f.walk (if path.startsWith "/" then none else some []) (path.splitOn "/")

end Files

end TapeMachine
