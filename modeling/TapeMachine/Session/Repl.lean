import TapeMachine.Session.Command
import TapeMachine.Session.Console
import TapeMachine.Session.Execute
import TapeMachine.Text.Backspace

/-!
# The prompt

Lines are gathered until no loop is left open by count, and then run as one program of its own. A
program reads from the same input, right after the line that completed it. Commands are recognised
where an entry could begin. The input is no terminal, so the backspaces in a line are still to be
applied. Each time, the first line is taken off the input, and no more than that (`hears`).
-/

namespace TapeMachine.Session

def banner : String :=
  "Corten BF Runtime v0.1.0\nType a program, .help for commands or 'exit' to quit.\n\n"

/-- The first line with its newline, and the bytes after it. -/
def splitLine (input : List UInt8) : List UInt8 × List UInt8 :=
  let length := (input.takeWhile (· ≠ 10)).length + 1
  (input.take length, input.drop length)

/-- In front of `rest`, `bytes` are a line: it ends with its only newline, or with the input. -/
def IsLine (bytes rest : List UInt8) : Prop :=
  ∃ text, 10 ∉ text ∧ (bytes = text ++ [10] ∨ bytes = text ∧ text ≠ [] ∧ rest = [])

theorem splitLine_append (input : List UInt8) :
    (splitLine input).1 ++ (splitLine input).2 = input := List.take_append_drop ..

theorem takeWhile_newline {text : List UInt8} (h : 10 ∉ text) (rest : List UInt8) :
    (text ++ rest).takeWhile (· ≠ 10) = text ++ rest.takeWhile (· ≠ 10) := by
  refine List.takeWhile_append_of_pos fun b hb => ?_
  simp only [decide_eq_true_eq]
  rintro rfl
  exact h hb

theorem splitLine_of_not_mem {input : List UInt8} (h : 10 ∉ input) :
    splitLine input = (input, []) := by
  have hall := takeWhile_newline h []
  rw [List.append_nil, List.takeWhile_nil, List.append_nil] at hall
  simp only [splitLine, hall, List.take_of_length_le (Nat.le_succ _),
    List.drop_of_length_le (Nat.le_succ _)]

theorem splitLine_append_newline {text : List UInt8} (h : 10 ∉ text) (rest : List UInt8) :
    splitLine (text ++ 10 :: rest) = (text ++ [10], rest) := by
  have hfront : (text ++ 10 :: rest).takeWhile (· ≠ 10) = text := by
    rw [takeWhile_newline h]
    simp
  simp only [splitLine, hfront, List.take_length_add_append, List.drop_length_add_append]
  rfl

theorem isLine_splitLine {input : List UInt8} (h : input ≠ []) :
    IsLine (splitLine input).1 (splitLine input).2 := by
  by_cases hnew : 10 ∈ input
  · obtain ⟨text, rest, rfl, htext⟩ := List.eq_append_cons_of_mem hnew
    rw [splitLine_append_newline htext]
    exact ⟨text, htext, .inl rfl⟩
  · rw [splitLine_of_not_mem hnew]
    exact ⟨input, hnew, .inr ⟨rfl, h, rfl⟩⟩

/-- A line without its newline, and without a carriage return in front of that. -/
def chomp (line : String) : String :=
  match line.toList.reverse with
  | '\n' :: '\r' :: cs => String.ofList cs.reverse
  | '\n' :: cs => String.ofList cs.reverse
  | _ => line

/-- The bytes of a line are those of a text, of which `line` is what was meant. -/
def Spells (bytes : List UInt8) (line : String) : Prop :=
  ∃ text, String.fromUTF8? ⟨bytes.toArray⟩ = some text ∧ line = Text.applyBackspaces (chomp text)

/-- How many more loops are opened than closed. -/
def openSurplus (text : String) : Int :=
  text.toUTF8.data.foldl (fun depth b =>
    if b = Symbol.loopOpen.byte then depth + 1
    else if b = Symbol.loopClose.byte then depth - 1 else depth) 0

def isClosed (text : String) : Bool := openSurplus text ≤ 0

def isCommandText (text : String) : Bool := text.startsWith "." || text = "exit" || text = "quit"

def join (entry line : String) : String := if entry = "" then line else entry ++ "\n" ++ line

def unreadableLine : Failure := .prompt "Readline error: stream did not contain valid UTF-8"

/-- How a dialogue ended. -/
structure Dialogue where
  failure? : Option Failure
  session : Session
  console : Console

/-- Evaluates a complete entry. -/
def enter (fuel : Nat) (entry : String) (s : Session) (c : Console) : Option (Session × Console) :=
  (s.evaluate fuel entry c.ends).map fun e =>
    let c := (c.absorb e.ends).remark e.response.remarks
    match e.response.result with
    | .ok _ => (e.response.session, c)
    | .error f => (e.response.session, (c.print "\n").complain ("Error: " ++ f.message ++ "\n"))

/-- What a console gives when it is asked for a line, and the console afterwards. -/
inductive Heard where
  | nothing (c : Console)
  | unreadable (c : Console)
  | line (text : String) (c : Console)

def hear (c : Console) : Heard :=
  let c := c.remark [.note .noTerminal]
  if c.input.isEmpty then .nothing c
  else
    let (bytes, rest) := splitLine c.input
    let c := { c with input := rest }
    match String.fromUTF8? ⟨bytes.toArray⟩ with
    | none => .unreadable c
    | some text => .line (Text.applyBackspaces (chomp text)) c

/-- What is heard of an input. At its end, and nowhere else, that is nothing. Else it is the first
line, which is taken off the input, and no more than the line. -/
inductive Hears : List UInt8 → Heard → Prop
  | nothing {c : Console} : c.input = [] → Hears [] (.nothing c)
  | unreadable {bytes : List UInt8} {c : Console} : IsLine bytes c.input →
    String.fromUTF8? ⟨bytes.toArray⟩ = none → Hears (bytes ++ c.input) (.unreadable c)
  | line {bytes : List UInt8} {line : String} {c : Console} : IsLine bytes c.input →
    Spells bytes line → Hears (bytes ++ c.input) (.line line c)

theorem hears (c : Console) : Hears c.input (hear c) := by
  unfold hear
  by_cases h : c.input = []
  · simp only [Console.remark, h, List.isEmpty_nil, if_true]
    exact .nothing rfl
  · have hempty : c.input.isEmpty = false := by simpa using h
    have hline := isLine_splitLine h
    have hparts := splitLine_append c.input
    rcases hsplit : splitLine c.input with ⟨bytes, rest⟩
    simp only [hsplit] at hline hparts
    simp only [Console.remark, hempty, hsplit, Bool.false_eq_true, if_false]
    rw [← hparts]
    rcases htext : String.fromUTF8? ⟨bytes.toArray⟩ with _ | text
    · exact .unreadable (c := ⟨rest, _, _⟩) hline htext
    · exact .line (c := ⟨rest, _, _⟩) hline ⟨text, htext, rfl⟩

/-- What a line is taken for. -/
inductive Role where
  | command
  /-- It belongs to an entry that goes on. -/
  | gathered
  /-- It completes an entry. -/
  | last
deriving DecidableEq

/-- A line after those gathered in `entry`. -/
def role (entry line : String) : Role :=
  if entry = "" ∧ isCommandText (Text.trim line) then .command
  else if isClosed (join entry line) then .last
  else .gathered

/-- A place in a dialogue where a line is about to be read. -/
structure Moment where
  /-- The lines gathered so far, joined. -/
  entry : String := ""
  session : Session
  console : Console

/-- What comes of reading a line. -/
inductive Pass where
  | on (next : Moment)
  | over (dialogue : Dialogue)
  /-- The program of an entry has not come to its end. -/
  | running

def Moment.pass (fuel : Nat) (m : Moment) : Pass :=
  match hear m.console with
  | .nothing c => .over ⟨none, m.session, c.print "\nGoodbye!\n"⟩
  | .unreadable c => .over ⟨some unreadableLine, m.session, c⟩
  | .line line c =>
    match role m.entry line with
    | .command =>
      match m.session.obey (Text.trim line) with
      | ⟨.leave, s, printed⟩ => .over ⟨none, s, (c.print printed).print "Goodbye!\n"⟩
      | ⟨.goOn, s, printed⟩ => .on ⟨"", s, c.print printed⟩
    | .gathered => .on ⟨join m.entry line, m.session, c⟩
    | .last =>
      match enter fuel (join m.entry line) m.session c with
      | some (s, c) => .on ⟨"", s, c⟩
      | none => .running

/-- Reads lines on. -/
def converse : (fuel : Nat) → Moment → Option Dialogue
  | 0, _ => none
  | fuel + 1, m =>
    match m.pass fuel with
    | .on next => converse fuel next
    | .over dialogue => some dialogue
    | .running => none

def greet (s : Session) (c : Console) : Moment := { session := s, console := c.print banner }

/-- Greets and reads lines until the input ends or the user leaves. -/
def repl (fuel : Nat) (s : Session) (c : Console) : Option Dialogue := converse fuel (greet s c)

end TapeMachine.Session
