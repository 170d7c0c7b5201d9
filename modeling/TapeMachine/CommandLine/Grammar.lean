import TapeMachine.Text.Column
import TapeMachine.Text.Terminal

/-!
# Command lines

A command line consists of switches, some with a value, and operands. Values are kept back until
the next known switch or operand, so that a switch nobody knows is reported before a value nobody
understands. Each switch and operand changes a record of options.
-/

namespace TapeMachine.CommandLine

inductive Refusal where
  /-- An empty text is no value. -/
  | absent
  | notListed
  | because (reason : String)

inductive Effect (σ : Type) where
  /-- At most once. -/
  | flag (apply : σ → σ)
  | counter (apply : σ → σ)
  /-- With a value, at most once. -/
  | value (name : String) (apply : String → σ → Except Refusal σ)
  | help
  | version

structure Switch (σ : Type) where
  short : Option Char := none
  long : String
  effect : Effect σ
  about : String

structure Operand (σ : Type) where
  name : String
  repeats : Bool
  apply : String → σ → Except Refusal σ
  about : String

structure Grammar (σ : Type) where
  program : String
  release : String
  about : String
  initial : σ
  switches : List (Switch σ)
  operand : Operand σ
  /-- Switches and operands, as they are displayed, that exclude each other. -/
  conflicts : List (String × String)

inductive ParseError where
  | unknown (shown : String)
  | unexpectedValue (value argument : String)
  | missingValue (argument : String)
  | notListed (value argument : String)
  | invalid (value argument reason : String)
  | repeated (argument : String)
  | conflict (argument : String) (others : List String)
  /-- The user asked for this text. -/
  | help (text : String)
  | version (text : String)

namespace ParseError

open Text.Terminal (styled)

def given (value : String) : String := "'" ++ styled .invalid value ++ "'"

def named (argument : String) : String := "'" ++ styled .strong argument ++ "'"

/-- What is wrong. Values are told as they were given, and the reason for refusing one may hold it
again. -/
def complaint : ParseError → String
  | unknown shown => "error: unexpected argument " ++ given shown ++ " found"
  | unexpectedValue value argument =>
    "error: unexpected value " ++ given value ++ " for " ++ named argument ++
      " found; no more were expected"
  | missingValue argument =>
    "error: a value is required for " ++ named argument ++ " but none was supplied"
  | notListed value argument => "error: invalid value " ++ given value ++ " for " ++ named argument
  | invalid value argument reason =>
    "error: invalid value " ++ given value ++ " for " ++ named argument ++ ": " ++ reason
  | repeated argument =>
    "error: the argument " ++ named argument ++ " cannot be used multiple times"
  | conflict argument [other] =>
    "error: the argument " ++ named argument ++ " cannot be used with " ++ named other
  | conflict argument others =>
    "error: the argument " ++ named argument ++ " cannot be used with:" ++
      String.join (others.map ("\n  " ++ styled .strong ·))
  | help text | version text => text

def advice : String := "\n\nFor more information, try " ++ named "--help" ++ ".\n"

/-- Requests for a text are no mistakes. -/
def isMistake : ParseError → Bool
  | help _ | version _ => false
  | _ => true

/-- The whole text, with its styles. -/
def text (e : ParseError) : String := if e.isMistake then e.complaint ++ advice else e.complaint

def message (e : ParseError) : String := Text.Terminal.plain e.text

/-- The message as it is written to the standard streams. -/
def printed (e : ParseError) : String := Text.Terminal.plainStream e.text

end ParseError

variable {σ : Type}

namespace Switch

def display (s : Switch σ) : String :=
  match s.effect with
  | .value name _ => "--" ++ s.long ++ " <" ++ name ++ ">"
  | .counter _ => "--" ++ s.long ++ "..."
  | _ => "--" ++ s.long

def usage (s : Switch σ) : String :=
  match s.short with
  | some c => String.ofList ['-', c, ',', ' '] ++ s.display
  | none => "    " ++ s.display

end Switch

def Operand.display (o : Operand σ) : String :=
  "[" ++ o.name ++ "]" ++ if o.repeats then "..." else ""

/-- A value that waits to be understood. -/
inductive Pending (σ : Type) where
  | nothing
  | value (display : String) (apply : String → σ → Except Refusal σ) (given : Option String)
  | operands (values : List String)

structure Progress (σ : Type) where
  options : σ
  /-- What was understood so far, in order of first use. -/
  seen : List String := []
  pending : Pending σ := .nothing
  /-- No operand is accepted any more. -/
  full : Bool := false

namespace Progress

variable (p : Progress σ)

def see (display : String) : Progress σ :=
  if display ∈ p.seen then p else { p with seen := p.seen ++ [display] }

def expectsValue : Bool :=
  match p.pending with
  | .value _ _ none => true
  | _ => false

def give (value : String) : Progress σ :=
  match p.pending with
  | .value display apply none => { p with pending := .value display apply (some value) }
  | _ => p

/-- Takes a value of the switch or operand with this display. -/
def take (display value : String) (apply : String → σ → Except Refusal σ) :
    Except ParseError (Progress σ) :=
  match apply value p.options with
  | .ok options => .ok ({ p with options }.see display)
  | .error .absent => .error (.missingValue display)
  | .error .notListed => .error (.notListed value display)
  | .error (.because reason) => .error (.invalid value display reason)

/-- Takes the value of a switch, which may have only one. -/
def takeOnce (display value : String) (apply : String → σ → Except Refusal σ) :
    Except ParseError (Progress σ) :=
  if display ∈ p.seen then .error (.repeated display) else p.take display value apply

def takeAll (display : String) (apply : String → σ → Except Refusal σ) :
    List String → Progress σ → Except ParseError (Progress σ)
  | [], p => .ok p
  | value :: rest, p =>
    match p.take display value apply with
    | .ok p => takeAll display apply rest p
    | .error e => .error e

end Progress

namespace Grammar

variable (g : Grammar σ)

def helpText : String :=
  let width := (g.switches.map fun s => s.usage.length).foldl max 0
  let lines := g.switches.map fun s => "  " ++ Text.padEnd width s.usage ++ "  " ++ s.about ++ "\n"
  g.about ++ "\n\nUsage: " ++ g.program ++ " [OPTIONS] " ++ g.operand.display ++
    "\n\nArguments:\n  " ++ g.operand.display ++ "  " ++ g.operand.about ++
    "\n\nOptions:\n" ++ String.join lines

def versionText : String := g.program ++ " " ++ g.release ++ "\n"

/-- Understands the value that was kept back. -/
def settle (p : Progress σ) : Except ParseError (Progress σ) :=
  let q := { p with pending := .nothing }
  match p.pending with
  | .nothing => .ok q
  | .value display _ none => .error (.missingValue display)
  | .value display apply (some value) => q.takeOnce display value apply
  | .operands values => Progress.takeAll g.operand.display g.operand.apply values q

/-- A switch without a value attached to it. -/
def react (p : Progress σ) (s : Switch σ) : Except ParseError (Progress σ) :=
  match g.settle p with
  | .error e => .error e
  | .ok p =>
    match s.effect with
    | .flag apply =>
      if s.display ∈ p.seen then .error (.repeated s.display)
      else .ok ({ p with options := apply p.options }.see s.display)
    | .counter apply => .ok ({ p with options := apply p.options }.see s.display)
    | .value _ apply => .ok { p with pending := .value s.display apply none }
    | .help => .error (.help g.helpText)
    | .version => .error (.version g.versionText)

/-- A switch with a value attached to it. -/
def reactWith (p : Progress σ) (s : Switch σ) (value : String) : Except ParseError (Progress σ) :=
  match s.effect with
  | .value _ apply =>
    match g.settle p with
    | .error e => .error e
    | .ok p => p.takeOnce s.display value apply
  | _ => .error (.unexpectedValue value s.display)

def long (p : Progress σ) (body : List Char) : Except ParseError (Progress σ) :=
  let name := String.ofList (body.takeWhile (· ≠ '='))
  match g.switches.find? (·.long = name), body.dropWhile (· ≠ '=') with
  | none, _ => .error (.unknown ("--" ++ name))
  | some s, [] => g.react p s
  | some s, _ :: value => g.reactWith p s (String.ofList value)

/-- Short switches in one argument. What follows a switch with a value is the value. -/
def cluster (p : Progress σ) : List Char → Except ParseError (Progress σ)
  | [] => .ok p
  | c :: rest =>
    match g.switches.find? (·.short = some c) with
    | none => .error (.unknown (String.ofList ['-', c]))
    | some s =>
      match s.effect, rest with
      | .value .., '=' :: value => g.reactWith p s (String.ofList value)
      | .value .., v :: value => g.reactWith p s (String.ofList (v :: value))
      | _, rest =>
        match g.react p s with
        | .ok p => cluster p rest
        | .error e => .error e

def addOperand (p : Progress σ) (value : String) : Except ParseError (Progress σ) :=
  if p.full then .error (.unknown value)
  else
    match p.pending with
    | .operands values => .ok { p with pending := .operands (values ++ [value]) }
    | _ => (g.settle p).map fun p =>
      { p with pending := .operands [value], full := !g.operand.repeats }

/-- Reads the arguments; behind a double dash, which sets `onlyOperands`, there are no switches. -/
def readArguments (onlyOperands : Bool) (p : Progress σ) :
    List String → Except ParseError (Progress σ)
  | [] => g.settle p
  | arg :: rest =>
    let next :=
      if onlyOperands then (g.addOperand p arg).map (·, true)
      else
        match arg.toList with
        | ['-', '-'] => .ok (p, true)
        | '-' :: '-' :: body => (g.long p body).map (·, false)
        | '-' :: c :: body => (g.cluster p (c :: body)).map (·, false)
        | _ =>
          if p.expectsValue then .ok (p.give arg, false) else (g.addOperand p arg).map (·, false)
    match next with
    | .ok (p, onlyOperands) => readArguments onlyOperands p rest
    | .error e => .error e

/-- What was used and excludes the argument displayed so, in order of use. -/
def rivals (seen : List String) (display : String) : List String :=
  seen.filter fun other => (display, other) ∈ g.conflicts ∨ (other, display) ∈ g.conflicts

def checkConflicts (seen : List String) : List String → Except ParseError Unit
  | [] => .ok ()
  | display :: rest =>
    match g.rivals seen display with
    | [] => checkConflicts seen rest
    | others => .error (.conflict display others)

def parse (args : List String) : Except ParseError σ :=
  match g.readArguments false { options := g.initial } args with
  | .error e => .error e
  | .ok p => (g.checkConflicts p.seen p.seen).map fun _ => p.options

end Grammar

/-- The two switches that every command has. -/
def commonSwitches : List (Switch σ) :=
  [{ short := some 'h', long := "help", effect := .help, about := "Print help" },
    { short := some 'V', long := "version", effect := .version, about := "Print version" }]

end TapeMachine.CommandLine
