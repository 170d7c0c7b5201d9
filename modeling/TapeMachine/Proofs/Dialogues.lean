import TapeMachine.Proofs.Fuel
import TapeMachine.Proofs.PlainRuns
import TapeMachine.Session.Repl

/-!
# Dialogues

Of the lines read at the prompt, each is a command or belongs to one entry, and an entry is
evaluated once, with the first line after which the loops that it opens do not outnumber those that
it closes (`dialogue_in_entries`). What is gathered of an entry is never closed and so never empty,
which is why an empty text can stand for the place where an entry could begin
(`Unfinished.staysOpen`, `Parted.follow`). Lines and the programs of entries are served from one
input, one after the other, and none of it is passed over (`Follows.takes`, `Finishes.stops`).
-/

namespace TapeMachine.Session

/-! ## The text of an entry -/

/-- The loops that a text opens outnumber those that it closes. -/
def StaysOpen (text : String) : Prop :=
  text.toUTF8.data.toList.count Symbol.loopClose.byte
    < text.toUTF8.data.toList.count Symbol.loopOpen.byte

theorem foldl_surplus (bytes : List UInt8) (depth : Int) :
    bytes.foldl (fun depth b =>
        if b = Symbol.loopOpen.byte then depth + 1
        else if b = Symbol.loopClose.byte then depth - 1 else depth) depth
      = depth + bytes.count Symbol.loopOpen.byte - bytes.count Symbol.loopClose.byte := by
  have hne : Symbol.loopOpen.byte ≠ Symbol.loopClose.byte := by decide
  induction bytes generalizing depth with
  | nil => simp
  | cons b bytes ih =>
    rw [List.foldl_cons, ih, List.count_cons, List.count_cons]
    by_cases ho : b = Symbol.loopOpen.byte
    · simp [ho, hne]
      omega
    · by_cases hc : b = Symbol.loopClose.byte
      · simp [hc, hne.symm]
        omega
      · simp [ho, hc]

theorem isClosed_iff (text : String) : isClosed text ↔ ¬ StaysOpen text := by
  rw [isClosed, openSurplus, ← Array.foldl_toList, foldl_surplus, decide_eq_true_iff, StaysOpen]
  omega

theorem not_staysOpen_empty : ¬ StaysOpen "" := by
  unfold StaysOpen
  decide

/-- Lines as one text. -/
def joined (lines : List String) : String := "\n".intercalate lines

/-- The lines of an entry that goes on. The first of them is no command, and after none of them are
as many loops closed as opened. -/
structure Unfinished (lines : List String) : Prop where
  begins : ∀ line ∈ lines.head?, ¬ isCommandText (Text.trim line)
  opens : ∀ n < lines.length, StaysOpen (joined (lines.take (n + 1)))

namespace Unfinished

variable {lines : List String} {line : String}

theorem nil : Unfinished [] := ⟨by simp, by simp⟩

theorem staysOpen (h : Unfinished lines) (hne : lines ≠ []) : StaysOpen (joined lines) := by
  have hpos := List.length_pos_iff.2 hne
  have hopen := h.opens (lines.length - 1) (by omega)
  rwa [Nat.sub_add_cancel hpos, List.take_length] at hopen

theorem joined_eq_empty_iff (h : Unfinished lines) : joined lines = "" ↔ lines = [] := by
  refine ⟨fun hj => ?_, fun hl => by rw [hl]; rfl⟩
  by_contra hne
  exact not_staysOpen_empty (hj ▸ h.staysOpen hne)

/-- To put a line behind those gathered needs no separator before the first. -/
theorem join_joined (h : Unfinished lines) (line : String) :
    join (joined lines) line = joined (lines ++ [line]) := by
  unfold join
  split
  · rename_i hj
    rw [h.joined_eq_empty_iff.1 hj]
    exact String.intercalate_singleton.symm
  · rename_i hj
    have hne : lines ≠ [] := fun hl => hj (h.joined_eq_empty_iff.2 hl)
    rw [joined, joined, String.intercalate_append_of_ne_nil hne (List.cons_ne_nil _ _),
      String.intercalate_singleton]

theorem begins_concat (h : Unfinished lines)
    (hline : ¬ (joined lines = "" ∧ isCommandText (Text.trim line))) :
    ∀ first ∈ (lines ++ [line]).head?, ¬ isCommandText (Text.trim first) := by
  rcases lines with _ | ⟨first, rest⟩
  · simpa [joined] using hline
  · exact h.begins

theorem concat (h : Unfinished lines)
    (hline : ¬ (joined lines = "" ∧ isCommandText (Text.trim line)))
    (hopen : StaysOpen (joined (lines ++ [line]))) : Unfinished (lines ++ [line]) := by
  refine ⟨h.begins_concat hline, fun n hn => ?_⟩
  rw [List.length_append, List.length_singleton] at hn
  rcases Nat.eq_or_lt_of_le (Nat.le_of_lt_succ hn) with rfl | hlt
  · rwa [List.take_of_length_le (by simp)]
  · rw [List.take_append_of_le_length hlt]
    exact h.opens n hlt

end Unfinished

/-! ## Turns -/

/-- What was made of a line. -/
inductive Turn where
  | obeyed (line : String)
  | gathered (line : String)
  /-- With the line, `entry` was complete. -/
  | evaluated (line entry : String) (result : Except Failure Outcome)

/-- What is shown once an entry was evaluated. -/
def showResult (c : Console) (e : Execution) : Console :=
  let c := (c.absorb e.ends).remark e.response.remarks
  match e.response.result with
  | .ok _ => c
  | .error f => (c.print "\n").complain ("Error: " ++ f.message ++ "\n")

/-- From a moment, a line leads to the next. -/
inductive Follows : Moment → Turn → Moment → Prop
  | obeyed {m : Moment} {line printed : String} {c : Console} {s : Session} :
    hear m.console = .line line c → m.entry = "" → isCommandText (Text.trim line) →
    m.session.obey (Text.trim line) = ⟨.goOn, s, printed⟩ →
    Follows m (.obeyed line) ⟨"", s, c.print printed⟩
  | gathered {m : Moment} {line : String} {c : Console} :
    hear m.console = .line line c → ¬ (m.entry = "" ∧ isCommandText (Text.trim line)) →
    StaysOpen (join m.entry line) →
    Follows m (.gathered line) ⟨join m.entry line, m.session, c⟩
  | evaluated {m : Moment} {line : String} {c : Console} {fuel : Nat} {e : Execution} :
    hear m.console = .line line c → ¬ (m.entry = "" ∧ isCommandText (Text.trim line)) →
    ¬ StaysOpen (join m.entry line) →
    m.session.evaluate fuel (join m.entry line) c.ends = some e →
    Follows m (.evaluated line (join m.entry line) e.response.result)
      ⟨"", e.response.session, showResult c e⟩

/-- Line by line, from one moment to another. -/
inductive Leads : Moment → List Turn → Moment → Prop
  | here (m : Moment) : Leads m [] m
  | on {a b c : Moment} {turns : List Turn} {turn : Turn} :
    Leads a turns b → Follows b turn c → Leads a (turns ++ [turn]) c

theorem Leads.cons {a b c : Moment} {turn : Turn} {turns : List Turn} (h : Follows a turn b)
    (h' : Leads b turns c) : Leads a (turn :: turns) c := by
  induction h' with
  | here => exact .on (.here a) h
  | on _ hlast ih => exact .on ih hlast

/-- Where a dialogue ends, and with what. -/
inductive Finishes : Moment → Dialogue → Prop
  | input {m : Moment} {c : Console} : hear m.console = .nothing c →
    Finishes m ⟨none, m.session, c.print "\nGoodbye!\n"⟩
  | unreadable {m : Moment} {c : Console} : hear m.console = .unreadable c →
    Finishes m ⟨some unreadableLine, m.session, c⟩
  | left {m : Moment} {line printed : String} {c : Console} :
    hear m.console = .line line c → m.entry = "" → isCommandText (Text.trim line) →
    m.session.obey (Text.trim line) = ⟨.leave, m.session, printed⟩ →
    Finishes m ⟨none, m.session, (c.print printed).print "Goodbye!\n"⟩

/-! ## The input -/

/-- What is taken off the input in a turn. That is a line, and after the line that completes an
entry what the program of the entry reads. -/
inductive Turn.Takes (config : Config) : List UInt8 → Turn → List UInt8 → Prop
  | obeyed {bytes rest : List UInt8} {line : String} : IsLine bytes rest → Spells bytes line →
    Takes config (bytes ++ rest) (.obeyed line) rest
  | gathered {bytes rest : List UInt8} {line : String} : IsLine bytes rest → Spells bytes line →
    Takes config (bytes ++ rest) (.gathered line) rest
  | evaluated {bytes rest left out : List UInt8} {line entry : String}
    {result : Except Failure Outcome} : IsLine bytes rest → Spells bytes line →
    (Source.ofString entry).Spends config rest result.isOk left out →
    Takes config (bytes ++ rest) (.evaluated line entry result) left

/-- How a dialogue ends, what was gathered by then, and what of the input it takes at the end: none
if there is none, or else a line, which is no text or a command. -/
inductive Stops (entry : String) : List UInt8 → Option Failure → List UInt8 → Prop
  | input : Stops entry [] none []
  | unreadable {bytes rest : List UInt8} : IsLine bytes rest →
    String.fromUTF8? ⟨bytes.toArray⟩ = none →
    Stops entry (bytes ++ rest) (some unreadableLine) rest
  | left {bytes rest : List UInt8} {line : String} : IsLine bytes rest → Spells bytes line →
    entry = "" → isCommandText (Text.trim line) → Stops entry (bytes ++ rest) none rest

theorem Turn.Takes.suffix {config : Config} {input left : List UInt8} {turn : Turn}
    (h : turn.Takes config input left) : left <:+ input := by
  cases h with
  | obeyed _ _ => exact List.suffix_append ..
  | gathered _ _ => exact List.suffix_append ..
  | evaluated _ _ hspends => exact hspends.suffix.trans (List.suffix_append ..)

theorem input_showResult (c : Console) (e : Execution) :
    (showResult c e).input = e.ends.reader.remaining := by
  unfold showResult
  cases e.response.result <;> rfl

theorem input_greet (s : Session) (c : Console) : (greet s c).console.input = c.input := by
  simp only [greet, Console.print]

theorem input_of_hear_line {c d : Console} {line : String} (h : hear c = .line line d) :
    ∃ bytes, c.input = bytes ++ d.input ∧ IsLine bytes d.input ∧ Spells bytes line := by
  have hears := hears c
  rw [h] at hears
  generalize c.input = input at hears ⊢
  cases hears with
  | line hline hspells => exact ⟨_, rfl, hline, hspells⟩

theorem Follows.takes {m m' : Moment} {turn : Turn} (h : Follows m turn m') :
    turn.Takes m.session.config m.console.input m'.console.input := by
  cases h with
  | obeyed hh _ _ _ =>
    obtain ⟨bytes, hinput, hline, hspells⟩ := input_of_hear_line hh
    rw [hinput]
    exact .obeyed hline hspells
  | gathered hh _ _ =>
    obtain ⟨bytes, hinput, hline, hspells⟩ := input_of_hear_line hh
    rw [hinput]
    exact .gathered hline hspells
  | evaluated hh _ _ he =>
    obtain ⟨bytes, hinput, hline, hspells⟩ := input_of_hear_line hh
    rw [hinput, input_showResult]
    exact .evaluated hline hspells (spends_evaluate he)

theorem Leads.suffix {a b : Moment} {turns : List Turn} (h : Leads a turns b) :
    b.console.input <:+ a.console.input := by
  induction h with
  | here => exact List.suffix_refl _
  | on _ hlast ih => exact hlast.takes.suffix.trans ih

theorem Finishes.stops {m : Moment} {d : Dialogue} (h : Finishes m d) :
    Stops m.entry m.console.input d.failure? d.console.input := by
  have hears := hears m.console
  cases h with
  | @input c hh =>
    rw [hh] at hears
    generalize m.console.input = input at hears ⊢
    cases hears with
    | nothing hnil =>
      show Stops m.entry [] none c.input
      rw [hnil]
      exact .input
  | unreadable hh =>
    rw [hh] at hears
    generalize m.console.input = input at hears ⊢
    cases hears with
    | unreadable hline htext => exact .unreadable hline htext
  | left hh hentry hcommand _ =>
    obtain ⟨bytes, hinput, hline, hspells⟩ := input_of_hear_line hh
    rw [hinput]
    exact .left hline hspells hentry hcommand

/-! ## A pass through the loop -/

theorem role_eq_command_iff {entry line : String} :
    role entry line = .command ↔ entry = "" ∧ isCommandText (Text.trim line) := by
  unfold role
  split
  · simp_all
  · split <;> simp_all

theorem role_eq_gathered_iff {entry line : String} : role entry line = .gathered ↔
    ¬ (entry = "" ∧ isCommandText (Text.trim line)) ∧ StaysOpen (join entry line) := by
  have hclosed := isClosed_iff (join entry line)
  unfold role
  split
  · simp_all
  · split <;> simp_all

theorem role_eq_last_iff {entry line : String} : role entry line = .last ↔
    ¬ (entry = "" ∧ isCommandText (Text.trim line)) ∧ ¬ StaysOpen (join entry line) := by
  have hclosed := isClosed_iff (join entry line)
  unfold role
  split
  · simp_all
  · split <;> simp_all

/-- In an open loop no line is a command. -/
example : role "+[" ".exit" = .gathered := by decide +kernel

theorem enter_eq (fuel : Nat) (entry : String) (s : Session) (c : Console) :
    enter fuel entry s c
      = (s.evaluate fuel entry c.ends).map fun e => (e.response.session, showResult c e) := by
  unfold enter showResult
  congr 1
  funext e
  cases e.response.result <;> rfl

/-- To leave changes nothing. -/
theorem eq_of_obey_leave {s s' : Session} {text printed : String}
    (h : s.obey text = ⟨.leave, s', printed⟩) : s' = s := by
  rcases hc : Command.parse text with _ | _ | _ | name | _ | size | _ | _ <;>
    simp only [obey, hc] at h
  case leave =>
    cases h
    rfl
  case setMode => split at h <;> cases h
  case setHeap =>
    split at h
    · cases h
    · split at h <;> cases h
  all_goals cases h

/-- A pass leads on, ends the dialogue, or is held up by a program. -/
theorem Moment.pass_cases (fuel : Nat) (m : Moment) :
    (∃ turn next, m.pass fuel = .on next ∧ Follows m turn next)
      ∨ (∃ d, m.pass fuel = .over d ∧ Finishes m d) ∨ m.pass fuel = .running := by
  rcases hh : hear m.console with c | c | ⟨line, c⟩ <;> simp only [Moment.pass, hh]
  · exact .inr (.inl ⟨_, rfl, .input hh⟩)
  · exact .inr (.inl ⟨_, rfl, .unreadable hh⟩)
  rcases hr : role m.entry line with _ | _ | _ <;> simp only
  · obtain ⟨hentry, hcommand⟩ := role_eq_command_iff.1 hr
    rcases ho : m.session.obey (Text.trim line) with ⟨_ | _, s, printed⟩
    · exact .inl ⟨_, _, rfl, .obeyed hh hentry hcommand ho⟩
    · obtain rfl := eq_of_obey_leave ho
      exact .inr (.inl ⟨_, rfl, .left hh hentry hcommand ho⟩)
  · obtain ⟨hline, hopen⟩ := role_eq_gathered_iff.1 hr
    exact .inl ⟨_, _, rfl, .gathered hh hline hopen⟩
  · obtain ⟨hline, hclosed⟩ := role_eq_last_iff.1 hr
    rw [enter_eq]
    rcases he : m.session.evaluate fuel (join m.entry line) c.ends with _ | e
    · exact .inr (.inr rfl)
    · exact .inl ⟨_, _, rfl, .evaluated hh hline hclosed he⟩

theorem follows_of_pass {fuel : Nat} {m m' : Moment} (h : m.pass fuel = .on m') :
    ∃ turn, Follows m turn m' := by
  rcases m.pass_cases fuel with ⟨turn, next, hp, hf⟩ | ⟨d, hp, -⟩ | hp <;> cases h.symm.trans hp
  exact ⟨turn, hf⟩

theorem finishes_of_pass {fuel : Nat} {m : Moment} {d : Dialogue} (h : m.pass fuel = .over d) :
    Finishes m d := by
  rcases m.pass_cases fuel with ⟨turn, next, hp, -⟩ | ⟨d', hp, hd⟩ | hp <;> cases h.symm.trans hp
  exact hd

/-- With enough fuel, the loop goes the way of the dialogue. -/
theorem Follows.pass {m m' : Moment} {turn : Turn} (h : Follows m turn m') :
    ∃ n, ∀ fuel, n ≤ fuel → m.pass fuel = .on m' := by
  cases h with
  | obeyed hh hentry hcommand ho =>
    refine ⟨0, fun fuel _ => ?_⟩
    simp only [Moment.pass, hh, role_eq_command_iff.2 ⟨hentry, hcommand⟩, ho]
  | gathered hh hline hopen =>
    refine ⟨0, fun fuel _ => ?_⟩
    simp only [Moment.pass, hh, role_eq_gathered_iff.2 ⟨hline, hopen⟩]
  | @evaluated line c n e hh hline hclosed he =>
    refine ⟨n, fun fuel hle => ?_⟩
    have he' := m.session.lasting_evaluate (join m.entry line) c.ends n e he fuel hle
    simp only [Moment.pass, hh, role_eq_last_iff.2 ⟨hline, hclosed⟩, enter_eq, he',
      Option.map_some]

theorem Finishes.pass {m : Moment} {d : Dialogue} (h : Finishes m d) (fuel : Nat) :
    m.pass fuel = .over d := by
  cases h with
  | input hh => simp only [Moment.pass, hh]
  | unreadable hh => simp only [Moment.pass, hh]
  | left hh hentry hcommand ho =>
    simp only [Moment.pass, hh, role_eq_command_iff.2 ⟨hentry, hcommand⟩, ho]

theorem Leads.converse {a b : Moment} {turns : List Turn} (h : Leads a turns b) :
    ∃ n, ∀ fuel, n ≤ fuel → converse (fuel + turns.length) a = converse fuel b := by
  induction h with
  | here => exact ⟨0, fun _ _ => rfl⟩
  | @on b c turns turn _ hlast ih =>
    obtain ⟨n, hn⟩ := ih
    obtain ⟨n', hn'⟩ := hlast.pass
    refine ⟨max n n', fun fuel hle => ?_⟩
    have h1 := hn (fuel + 1) (by omega)
    have h2 : Session.converse (fuel + 1) b = Session.converse fuel c := by
      rw [Session.converse, hn' fuel (by omega)]
    rw [List.length_append, List.length_singleton, ← h2, ← h1]
    congr 1
    omega

theorem Leads.converse_finishes {a b : Moment} {turns : List Turn} {d : Dialogue}
    (h : Leads a turns b) (hd : Finishes b d) : ∃ fuel, Session.converse fuel a = some d := by
  obtain ⟨n, hn⟩ := h.converse
  refine ⟨n + 1 + turns.length, ?_⟩
  rw [hn (n + 1) (Nat.le_succ n), Session.converse, hd.pass]

/-- A dialogue that ends has come line by line to the moment where it ends. -/
theorem leads_of_converse : ∀ {fuel : Nat} {a : Moment} {d : Dialogue},
    converse fuel a = some d → ∃ turns b, Leads a turns b ∧ Finishes b d
  | 0, a, d, h => by cases h
  | fuel + 1, a, d, h => by
    rw [converse] at h
    rcases hp : a.pass fuel with next | d' | _ <;> simp only [hp] at h
    · obtain ⟨turn, hturn⟩ := follows_of_pass hp
      obtain ⟨turns, b, hleads, hfinishes⟩ := leads_of_converse h
      exact ⟨turn :: turns, b, .cons hturn hleads, hfinishes⟩
    · cases h
      exact ⟨[], a, .here a, finishes_of_pass hp⟩
    · cases h

/-! ## Commands and entries -/

/-- A command, or the lines of an entry and what came of it. -/
inductive Part where
  | command (line : String)
  | entry (before : List String) (last : String) (result : Except Failure Outcome)

namespace Part

/-- The last line of an entry is the first after which it does not stay open. -/
def Proper : Part → Prop
  | command line => isCommandText (Text.trim line)
  | entry before last _ => Unfinished before
    ∧ (∀ first ∈ (before ++ [last]).head?, ¬ isCommandText (Text.trim first))
    ∧ ¬ StaysOpen (joined (before ++ [last]))

def turns : Part → List Turn
  | command line => [.obeyed line]
  | entry before last result =>
    before.map .gathered ++ [.evaluated last (joined (before ++ [last])) result]

end Part

/-- The turns are those of commands and entries one after the other, and of the lines that are
gathered in `entry`. -/
def Parted (turns : List Turn) (entry : String) : Prop :=
  ∃ (parts : List Part) (rest : List String),
    turns = parts.flatMap Part.turns ++ rest.map .gathered ∧ (∀ part ∈ parts, part.Proper)
      ∧ Unfinished rest ∧ entry = joined rest

theorem Parted.staysOpen {turns : List Turn} {entry : String} (h : Parted turns entry) :
    entry = "" ∨ StaysOpen entry := by
  obtain ⟨parts, rest, -, -, hrest, rfl⟩ := h
  rcases eq_or_ne rest [] with hnil | hne
  · exact .inl (hrest.joined_eq_empty_iff.2 hnil)
  · exact .inr (hrest.staysOpen hne)

/-- The next line is a command where nothing is gathered, goes to what is gathered, or completes
it. -/
theorem Parted.follow {turns : List Turn} {turn : Turn} {m m' : Moment}
    (h : Parted turns m.entry) (hf : Follows m turn m') : Parted (turns ++ [turn]) m'.entry := by
  obtain ⟨parts, rest, rfl, hparts, hrest, hentry⟩ := h
  have hproper : ∀ part : Part, part.Proper → ∀ p ∈ parts ++ [part], p.Proper := by
    intro part hpart p hp
    rcases List.mem_append.1 hp with hp | hp
    · exact hparts p hp
    · rwa [List.mem_singleton.1 hp]
  cases hf with
  | @obeyed line _ _ _ _ hempty hcommand _ =>
    rw [hempty] at hentry
    obtain rfl := hrest.joined_eq_empty_iff.1 hentry.symm
    exact ⟨parts ++ [.command line], [], by simp [Part.turns], hproper (.command line) hcommand,
      .nil, rfl⟩
  | @gathered line _ _ hline hopen =>
    rw [hentry] at hline
    rw [hentry, hrest.join_joined] at hopen
    refine ⟨parts, rest ++ [line], by simp, hparts, hrest.concat hline hopen, ?_⟩
    rw [hentry, hrest.join_joined]
  | @evaluated line _ _ e _ hline hclosed _ =>
    rw [hentry] at hline
    rw [hentry, hrest.join_joined] at hclosed ⊢
    exact ⟨parts ++ [.entry rest line e.response.result], [], by simp [Part.turns],
      hproper (.entry rest line e.response.result) ⟨hrest, hrest.begins_concat hline, hclosed⟩,
      .nil, rfl⟩

theorem Leads.parted {a b : Moment} {turns : List Turn} (h : Leads a turns b)
    (ha : a.entry = "") : Parted turns b.entry := by
  induction h with
  | here => exact ⟨[], [], rfl, by simp, .nil, ha⟩
  | on _ hlast ih => exact ih.follow hlast

theorem Leads.last {a m : Moment} {turns : List Turn} {turn : Turn}
    (h : Leads a (turns ++ [turn]) m) : ∃ b, Leads a turns b ∧ Follows b turn m := by
  generalize hall : turns ++ [turn] = all at h
  cases h with
  | here => simp at hall
  | on hleads hlast =>
    obtain ⟨rfl, rfl⟩ := List.append_singleton_inj.1 hall
    exact ⟨_, hleads, hlast⟩

theorem Leads.entry_of_evaluated {a b : Moment} {turns : List Turn} {line entry : String}
    {result : Except Failure Outcome}
    (h : Leads a (turns ++ [.evaluated line entry result]) b) : b.entry = "" := by
  obtain ⟨m, -, hlast⟩ := h.last
  cases hlast
  rfl

/-- Wherever a line is about to be read, nothing is gathered, or lines that open more loops than
they close. The lines before are, in order, commands, entries that were each evaluated with their
last line, and the lines that are gathered; the loop goes on from there, also after an entry that
failed. A dialogue that ends does so where the input does, or else with a line that is no text or a
command, and drops only what is gathered. In each turn the next line of the input is taken, and what
the program of an entry reads behind it, and nothing is passed over. -/
theorem dialogue_in_entries (s : Session) (c : Console) :
    (∀ m m' : Moment, (∃ fuel, m.pass fuel = .on m') ↔ ∃ turn, Follows m turn m')
      ∧ (∀ turns m, Leads (greet s c) turns m →
        (m.entry = "" ∨ StaysOpen m.entry) ∧ Parted turns m.entry
          ∧ m.console.input <:+ c.input
          ∧ ∃ n, ∀ fuel, n ≤ fuel → s.repl (fuel + turns.length) c = converse fuel m)
      ∧ (∀ turns line entry f m,
        Leads (greet s c) (turns ++ [.evaluated line entry (.error f)]) m → m.entry = "")
      ∧ (∀ d, (∃ fuel, s.repl fuel c = some d)
        ↔ ∃ turns m, Leads (greet s c) turns m ∧ Finishes m d)
      ∧ (∀ m turn m', Follows m turn m' →
        turn.Takes m.session.config m.console.input m'.console.input)
      ∧ ∀ m d, Finishes m d → Stops m.entry m.console.input d.failure? d.console.input := by
  refine ⟨fun m m' => ⟨?_, ?_⟩, fun turns m h => ?_, fun turns line entry f m h => ?_,
    fun d => ⟨?_, ?_⟩, fun m turn m' h => h.takes, fun m d h => h.stops⟩
  · rintro ⟨fuel, hp⟩
    exact follows_of_pass hp
  · rintro ⟨turn, hf⟩
    obtain ⟨n, hn⟩ := hf.pass
    exact ⟨n, hn n le_rfl⟩
  · have hparted := h.parted rfl
    have hsuffix := h.suffix
    rw [input_greet] at hsuffix
    exact ⟨hparted.staysOpen, hparted, hsuffix, h.converse⟩
  · exact h.entry_of_evaluated
  · rintro ⟨fuel, hd⟩
    exact leads_of_converse hd
  · rintro ⟨turns, m, hleads, hfinishes⟩
    exact hleads.converse_finishes hfinishes

end TapeMachine.Session
