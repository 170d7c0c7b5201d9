/-!
# Text for terminals

Text may hold control sequences, which a terminal obeys instead of showing them; styles are some of
them. Where no terminal shows the text, they are left out: also those that came with a value that
somebody gave. Text without them stays as it is.
-/

namespace TapeMachine.Text.Terminal

inductive Style where
  | strong
  | invalid

def Style.code : Style → String
  | strong => "1"
  | invalid => "33"

def styled (style : Style) (text : String) : String :=
  "\x1b[" ++ style.code ++ "m" ++ text ++ "\x1b[0m"

/-- Where in a control sequence a character stands. -/
inductive Place where
  | outside
  | escape
  | intermediate
  | parameters
  /-- A control string for the device starts here. -/
  | device
  | deviceParameters
  | deviceIntermediate
  /-- In a string that the device reads. -/
  | body
  /-- In a command for the operating system. -/
  | command
deriving DecidableEq

def isBetween (low high : Nat) (c : Char) : Bool := low ≤ c.toNat && c.toNat ≤ high

/-- White space that is a control. -/
def isLayout (c : Char) : Bool := c = '\t' || c = '\n' || c = '\x0c' || c = '\r'

/-- A string for the device ends at a certain byte, also within a longer character. -/
def endsBody (c : Char) : Bool := (String.utf8EncodeChar c).contains 0x9C

namespace Place

def shows (p : Place) (c : Char) : Bool :=
  match p with
  | outside => isBetween 0x20 0x7E c || 0x80 ≤ c.toNat || isLayout c
  | escape | intermediate | parameters => isLayout c
  | _ => false

/-- The place behind a character that gives no sequence up. -/
def next (p : Place) (c : Char) : Place :=
  match p with
  | outside => outside
  | escape =>
    if isBetween 0x20 0x2F c then intermediate
    else if c = '[' then parameters
    else if c = ']' then command
    else if c = 'P' then device
    else if c = 'X' ∨ c = '^' ∨ c = '_' then body
    else if isBetween 0x30 0x7E c then outside else escape
  | intermediate => if isBetween 0x30 0x7E c then outside else intermediate
  | parameters => if isBetween 0x40 0x7E c then outside else parameters
  | device =>
    if isBetween 0x20 0x2F c then deviceIntermediate
    else if isBetween 0x30 0x3F c then deviceParameters
    else if isBetween 0x40 0x7E c then body else device
  | deviceParameters =>
    if isBetween 0x20 0x2F c then deviceIntermediate
    else if isBetween 0x3C 0x7E c then body else deviceParameters
  | deviceIntermediate => if isBetween 0x30 0x7E c then body else deviceIntermediate
  | body => if endsBody c then outside else body
  | command => if c = '\x07' then outside else command

/-- The place behind a character. An escape starts anew, and two controls give a sequence up. -/
def after (p : Place) (c : Char) : Place :=
  if c = '\x18' ∨ c = '\x1a' then outside else if c = '\x1b' then escape else p.next c

end Place

/-- What was shown so far, last character first. -/
structure Scan where
  shown : List Char := []
  place : Place := .outside
  /-- Whether the last character was shown. -/
  showing : Bool := false

namespace Scan

/-- One more character. What is shown inside of a sequence ends it, unless `resumes` says that the
sequence goes on behind a run of shown characters of one byte. -/
def push (resumes : Bool) (s : Scan) (c : Char) : Scan :=
  let place := if s.showing then .outside else s.place
  if place.shows c then
    { shown := c :: s.shown
      place := if resumes ∧ c.toNat < 0x80 then s.place else .outside
      showing := true }
  else { s with place := s.place.after c, showing := false }

def ofChars (resumes : Bool) (cs : List Char) : Scan := cs.foldl (push resumes) {}

theorem shown_foldl_push (resumes : Bool) {cs : List Char} (h : ∀ c ∈ cs, Place.outside.shows c)
    {s : Scan} (hs : s.place = .outside) :
    (cs.foldl (push resumes) s).shown = cs.reverse ++ s.shown := by
  induction cs generalizing s with
  | nil => rfl
  | cons c cs ih =>
    have hc := h c List.mem_cons_self
    rw [List.foldl_cons, ih fun d hd => h d (List.mem_cons_of_mem _ hd)]
    · simp [push, hs, hc]
    · simp [push, hs, hc]

end Scan

/-- What is left of text without its control sequences. -/
def plain (text : String) : String := String.ofList (Scan.ofChars false text.toList).shown.reverse

/-- What is left of text that is written to a stream, where a sequence can be resumed. -/
def plainStream (text : String) : String :=
  String.ofList (Scan.ofChars true text.toList).shown.reverse

theorem plain_of_shows {text : String} (h : ∀ c ∈ text.toList, Place.outside.shows c) :
    plain text = text := by
  simp [plain, Scan.ofChars, Scan.shown_foldl_push false h]

theorem plainStream_of_shows {text : String} (h : ∀ c ∈ text.toList, Place.outside.shows c) :
    plainStream text = text := by
  simp [plainStream, Scan.ofChars, Scan.shown_foldl_push true h]

end TapeMachine.Text.Terminal
