import TapeMachine.Proofs.Arguments
import TapeMachine.Proofs.Turns

/-!
# Files in turn

The files of a command line run one after the other, each as it would alone on what those before it
left of the input (`files_in_turn`). The command does with a file, wherever it stands, what it does
with it first, and goes on with the others as if there had been no file before, but for the status
and for what is written already (`runFiles_cons`).
-/

namespace TapeMachine

namespace CommandLine

open Desk

/-! ## Exits -/

/-- One exit and then another as one. -/
def Exit.add (a b : Exit) : Exit :=
  ⟨if b.status = 0 then a.status else 1, a.console.followedBy b.console⟩

/-- Exits one after the other as one. -/
def together (input : List UInt8) (exits : List Exit) : Exit where
  status := if ∀ exit ∈ exits, exit.status = 0 then 0 else 1
  console :=
    { input := (exits.getLast?.map (·.console.input)).getD input
      output := (exits.flatMap (·.console.output.toList)).toArray
      remarks := (exits.flatMap (·.console.remarks.toList)).toArray }

theorem console_together_cons (input : List UInt8) (exit : Exit) (exits : List Exit) :
    (together input (exit :: exits)).console
      = exit.console.followedBy (together exit.console.input exits).console := by
  have hinput : (((exit :: exits).getLast?.map (·.console.input)).getD input)
      = (exits.getLast?.map (·.console.input)).getD exit.console.input := by
    rw [List.getLast?_cons]
    cases exits.getLast? <;> rfl
  simp only [together, Console.followedBy, hinput, Console.mk.injEq, true_and]
  exact ⟨Array.ext' (by simp), Array.ext' (by simp)⟩

theorem foldl_add (exits : List Exit) (a : Exit) : exits.foldl Exit.add a
    = ⟨if ∀ exit ∈ exits, exit.status = 0 then a.status else 1,
      a.console.followedBy (together a.console.input exits).console⟩ := by
  induction exits generalizing a with
  | nil => simp [together, Console.followedBy]
  | cons exit exits ih =>
    rw [List.foldl_cons, ih, console_together_cons]
    simp only [Exit.add, Console.followedBy_assoc, List.forall_mem_cons]
    by_cases hexit : exit.status = 0 <;> simp [hexit, Console.followedBy]

theorem together_eq (input : List UInt8) (exits : List Exit) :
    together input exits = exits.foldl Exit.add ⟨0, { input }⟩ := by
  rw [foldl_add, Console.blank_followedBy]
  rfl

/-! ## The files of a command -/

section Watched

variable {watch : Stopwatch Id} (hw : watch.Fair) {o : Options} (ht : o.time = false) (fuel : Nat)
  (read : FileReader)
include hw ht

theorem timedCycle_eq (load : Session → Session.Response Unit) (d : Desk) :
    (timedCycle watch fuel o load d).run = d.cycle fuel load := by
  have hvalue := hw _ fun _ => d.cycle fuel load
  rcases hwatch : watch.time (fun _ => d.cycle fuel load) with ⟨r, ms⟩
  rw [hwatch] at hvalue
  simp only [timedCycle, bind, pure, Id.run, hwatch, ht, Bool.false_eq_true, if_false]
  rcases r with _ | ⟨_ | f, d'⟩ <;> exact hvalue

theorem runFiles_cons_eq (status : Nat) (d : Desk) (path : String) (rest : List String) :
    (runFiles watch fuel o read status d (path :: rest)).run
      = (d.cycle fuel (·.loadFile read path)).bind fun
        | (none, d) => (runFiles watch fuel o read status d rest).run
        | (some f, d) => (runFiles watch fuel o read 1
          { d with console := d.console.complain (fileComplaint path f) } rest).run := by
  have htimed := timedCycle_eq hw ht fuel (·.loadFile read path) d
  simp only [Id.run] at htimed ⊢
  simp only [runFiles, bind, pure, htimed]
  rcases d.cycle fuel (·.loadFile read path) with _ | ⟨_ | f, d'⟩ <;> rfl

theorem runFiles_congr {s s' : Session} (hc : s'.config = s.config)
    (hl : s'.showListing = s.showListing) (status : Nat) (c : Console) (paths : List String) :
    (runFiles watch fuel o read status ⟨s', c⟩ paths).run
      = (runFiles watch fuel o read status ⟨s, c⟩ paths).run := by
  rcases paths with _ | ⟨path, rest⟩
  · rfl
  · have hcycle : cycle fuel (·.loadFile read path) ⟨s', c⟩
        = cycle fuel (·.loadFile read path) ⟨s, c⟩ :=
      cycle_congr fuel (Session.loadFile_congr hc hl read path) c
    rw [runFiles_cons_eq hw ht, runFiles_cons_eq hw ht, hcycle]

/-- The first file has its turn, and the others go on from its end. -/
theorem runFiles_cons (s : Session) (status : Nat) (c : Console) (path : String)
    (rest : List String) : (runFiles watch fuel o read status ⟨s, c⟩ (path :: rest)).run
      = (turn fuel read s path c.input).bind fun exit =>
        (runFiles watch fuel o read (if exit.status = 0 then status else 1)
          ⟨s, c.followedBy exit.console⟩ rest).run := by
  have hfollows := cycle_followedBy fuel (·.loadFile read path) s c { input := c.input }
  rw [Console.followedBy_blank] at hfollows
  rw [runFiles_cons_eq hw ht, hfollows, turn]
  rcases hcycle : cycle fuel (·.loadFile read path) ⟨s, { input := c.input }⟩ with _ | ⟨f?, d⟩
  · rfl
  · obtain ⟨hc, hl⟩ := cycle_kept fuel hcycle
    rcases f? with _ | f <;>
      simp only [Option.map_some, Option.bind_some, exitOf, Console.complain_followedBy,
        Nat.one_ne_zero, if_true, if_false] <;>
      exact runFiles_congr hw ht fuel read hc hl ..

end Watched

/-- Options that ask for files to be run, and not for the time that takes. -/
structure Options.RunsFiles (o : Options) : Prop where
  heapSize : 0 < o.heapSize
  repl : o.repl = false
  code : o.code? = none
  files : o.files ≠ []
  time : o.time = false

/-- The session that options ask for. -/
def Options.session (o : Options) (h : 0 < o.heapSize) : Session :=
  { config := ⟨o.heapSize, o.mode, h⟩, showListing := o.showListing }

/-- The same options with a single file. -/
def Options.only (o : Options) (path : String) : Options := { o with files := [path] }

theorem Options.RunsFiles.only {o : Options} (h : o.RunsFiles) (path : String) :
    (o.only path).RunsFiles :=
  ⟨h.heapSize, h.repl, h.code, List.cons_ne_nil path [], h.time⟩

/-- The command comes to this end. -/
def EndsWith (watch : Stopwatch Id) (read : FileReader) (o : Options) (input : List UInt8)
    (exit : Exit) : Prop :=
  ∃ fuel, (runOptions watch fuel read o { input }).run = some exit

/-- Each of the files alone comes to its end, on what those before it left of the input. -/
inductive InTurn (watch : Stopwatch Id) (read : FileReader) (o : Options) :
    List UInt8 → List String → List Exit → Prop
  | nil (input : List UInt8) : InTurn watch read o input [] []
  | cons {input : List UInt8} {path : String} {paths : List String} {exit : Exit}
    {exits : List Exit} : EndsWith watch read (o.only path) input exit →
    InTurn watch read o exit.console.input paths exits →
    InTurn watch read o input (path :: paths) (exit :: exits)

section Command

variable {watch : Stopwatch Id} (hw : watch.Fair) {o : Options} (h : o.RunsFiles)
  {read : FileReader} {input : List UInt8} {path : String} {paths : List String} {exit : Exit}
  {exits : List Exit}

theorem runOptions_files (watch : Stopwatch Id) (fuel : Nat) (read : FileReader) (h : o.RunsFiles)
    (c : Console) : (runOptions watch fuel read o c).run
      = (runFiles watch fuel o read 0 ⟨o.session h.heapSize, c⟩ o.files).run := by
  have hconfig : o.config = .ok ⟨o.heapSize, o.mode, h.heapSize⟩ := dif_pos h.heapSize
  obtain ⟨path, rest, hfiles⟩ := List.exists_cons_of_ne_nil h.files
  simp only [runOptions, hconfig, h.repl, h.code, hfiles, Bool.false_eq_true, if_false]
  rfl

include hw

theorem endsWith_only : EndsWith watch read (o.only path) input exit
    ↔ ∃ fuel, turn fuel read (o.session h.heapSize) path input = some exit := by
  have hrun : ∀ fuel, (runOptions watch fuel read (o.only path) { input }).run
      = turn fuel read (o.session h.heapSize) path input := by
    intro fuel
    rw [runOptions_files watch fuel read (h.only path)]
    refine (runFiles_cons hw h.time fuel read (o.session h.heapSize) 0 { input } path []).trans ?_
    rcases hturn : turn fuel read (o.session h.heapSize) path input with _ | exit
    · rfl
    · have hle := status_turn_le hturn
      obtain ⟨status, c⟩ := exit
      rw [Option.bind_some, Console.blank_followedBy]
      rcases Nat.le_one_iff_eq_zero_or_eq_one.1 hle with rfl | rfl <;> rfl
  simp only [EndsWith, hrun]

/-- A command that ends has given each file its turn. -/
theorem inTurn_of_runFiles {fuel : Nat} : ∀ {paths : List String} {status : Nat} {c : Console}
    {exit : Exit},
    (runFiles watch fuel o read status ⟨o.session h.heapSize, c⟩ paths).run = some exit →
    ∃ exits, InTurn watch read o c.input paths exits ∧ exit = exits.foldl Exit.add ⟨status, c⟩
  | [], status, c, exit, hrun => by
    cases hrun
    exact ⟨[], .nil c.input, rfl⟩
  | path :: rest, status, c, exit, hrun => by
    rw [runFiles_cons hw h.time] at hrun
    obtain ⟨first, hfirst, hrest⟩ := Option.bind_eq_some_iff.1 hrun
    obtain ⟨exits, hexits, rfl⟩ := inTurn_of_runFiles hrest
    exact ⟨first :: exits, .cons ((endsWith_only hw h).2 ⟨fuel, hfirst⟩) hexits, rfl⟩

/-- With enough fuel for each of the turns, the command ends. -/
theorem InTurn.runFiles (hturns : InTurn watch read o input paths exits) :
    ∀ (status : Nat) (c : Console), c.input = input → ∃ n, ∀ fuel, n ≤ fuel →
      (Desk.runFiles watch fuel o read status ⟨o.session h.heapSize, c⟩ paths).run
        = some (exits.foldl Exit.add ⟨status, c⟩) := by
  induction hturns with
  | nil input => exact fun status c _ => ⟨0, fun fuel _ => rfl⟩
  | @cons input path rest exit exits hends _ ih =>
    rintro status c rfl
    obtain ⟨n, hn⟩ := (endsWith_only hw h).1 hends
    obtain ⟨n', hn'⟩ := ih (if exit.status = 0 then status else 1) (c.followedBy exit.console) rfl
    refine ⟨max n n', fun fuel hle => ?_⟩
    have hturn : turn fuel read (o.session h.heapSize) path c.input = some exit :=
      lasting_turn _ _ _ _ n exit hn fuel (by omega)
    rw [runFiles_cons hw h.time, hturn, Option.bind_some, hn' fuel (by omega)]
    rfl

include h

theorem endsWith_iff : EndsWith watch read o input exit
    ↔ ∃ exits, InTurn watch read o input o.files exits ∧ exit = together input exits := by
  simp only [EndsWith, runOptions_files watch _ read h, together_eq]
  constructor
  · rintro ⟨fuel, hrun⟩
    exact inTurn_of_runFiles hw h hrun
  · rintro ⟨exits, hturns, rfl⟩
    obtain ⟨n, hn⟩ := hturns.runFiles hw h 0 { input } rfl
    exact ⟨n, hn n (Nat.le_refl n)⟩

theorem complaints_of_endsWith (hends : EndsWith watch read (o.only path) input exit) :
    exit.complaints = exit.status ∧ exit.status ≤ 1
      ∧ (exit.status = 0 ↔ RunsWell read (o.session h.heapSize) path input) := by
  obtain ⟨fuel, hturn⟩ := (endsWith_only hw h).1 hends
  exact ⟨complaints_turn hturn, status_turn_le hturn, status_turn_iff hturn⟩

theorem uses_of_endsWith (hends : EndsWith watch read (o.only path) input exit) :
    exit.Uses read (o.session h.heapSize).config path input := by
  obtain ⟨fuel, hturn⟩ := (endsWith_only hw h).1 hends
  exact uses_turn hturn

/-- As many complaints are made as there are files that fail. -/
theorem InTurn.complaints_together (hturns : InTurn watch read o input paths exits) :
    (together input exits).complaints = exits.countP (·.status ≠ 0) := by
  induction hturns with
  | nil input => rfl
  | @cons input path rest exit exits hends _ ih =>
    obtain ⟨hcomplaints, hle, -⟩ := complaints_of_endsWith hw h hends
    have hsum : (together input (exit :: exits)).complaints
        = exit.complaints + (together exit.console.input exits).complaints := by
      simp only [Exit.complaints, console_together_cons, Console.followedBy, Array.toList_append,
        List.countP_append]
    rw [hsum, ih, hcomplaints, List.countP_cons, Nat.add_comm]
    rcases Nat.le_one_iff_eq_zero_or_eq_one.1 hle with hstatus | hstatus <;> simp [hstatus]

end Command

/-! ## Either mode -/

theorem Exit.Alike.add {a a' b b' : Exit} (ha : a.Alike a') (hb : b.Alike b') :
    (a.add b).Alike (a'.add b') where
  status := by simp only [Exit.add, ha.status, hb.status]
  input := hb.input
  output := by simp only [Exit.add, Console.followedBy, ha.output, hb.output]

/-- With this status and this output the command can be seen to end. -/
def Shows (watch : Stopwatch Id) (read : FileReader) (o : Options) (input : List UInt8)
    (status : Nat) (output : Array UInt8) : Prop :=
  ∃ exit, EndsWith watch read o input exit ∧ exit.status = status ∧ exit.console.output = output

section Alike

variable {watch : Stopwatch Id} (hw : watch.Fair) {o o' : Options} (h : o.RunsFiles)
  (h' : o'.RunsFiles) (hheap : o'.heapSize = o.heapSize) {read : FileReader}
  (hsize : ∀ path data, read path = .ok data → data.size ≤ wordMax)
  {input : List UInt8} {paths : List String} {exits : List Exit}
include hw h h' hheap hsize

/-- Turn for turn alike, and so together, whatever was before. -/
theorem InTurn.alike (hturns : InTurn watch read o input paths exits) :
    ∃ exits', InTurn watch read o' input paths exits'
      ∧ ∀ a a' : Exit, a.Alike a' → (exits.foldl Exit.add a).Alike (exits'.foldl Exit.add a') := by
  induction hturns with
  | nil input => exact ⟨[], .nil input, fun a a' ha => ha⟩
  | cons hends _ ih =>
    obtain ⟨fuel, hturn⟩ := (endsWith_only hw h).1 hends
    have hsession : (o'.session h'.heapSize).config.heapSize
        = (o.session h.heapSize).config.heapSize := hheap
    obtain ⟨fuel', exit', hturn', halike⟩ := turn_alike hsession (hsize _) hturn
    obtain ⟨exits', hturns', hfold⟩ := ih
    rw [← halike.input] at hturns'
    exact ⟨exit' :: exits', .cons ((endsWith_only hw h').2 ⟨fuel', hturn'⟩) hturns',
      fun a a' ha => hfold _ _ (ha.add halike)⟩

theorem Shows.alike {status : Nat} {output : Array UInt8}
    (hshows : Shows watch read o input status output) (hfiles : o'.files = o.files) :
    Shows watch read o' input status output := by
  obtain ⟨exit, hends, rfl, rfl⟩ := hshows
  obtain ⟨exits, hturns, rfl⟩ := (endsWith_iff hw h).1 hends
  obtain ⟨exits', hturns', hfold⟩ := hturns.alike hw h h' hheap hsize
  have halike := hfold ⟨0, { input }⟩ ⟨0, { input }⟩ ⟨rfl, rfl, rfl⟩
  rw [← together_eq, ← together_eq] at halike
  rw [← hfiles] at hturns'
  exact ⟨_, (endsWith_iff hw h').2 ⟨exits', hturns', rfl⟩, halike.status, halike.output⟩

end Alike

/-- The files of a command line run one after the other, each as it would alone on what those before
it left of the input, whatever became of those. The command comes to an end if they all do; what it
writes is what they write, and it succeeds if they do. A file fails that cannot be loaded or does
not run well, and is complained about once. It leaves of the input what its program did not read,
and all if there was nothing to run; and it writes what its program writes. At any level, and with a
listing or without, the output and the status are the same. -/
theorem files_in_turn {watch : Stopwatch Id} (hw : watch.Fair) {args : List String} {o : Options}
    (hargs : Options.parse args = .ok o) (hrepl : o.repl = false) (hcode : o.code? = none)
    (hfiles : o.files ≠ []) (htime : o.time = false) (read : FileReader) (input : List UInt8) :
    (∀ exit, EndsWith watch read o input exit
        ↔ ∃ exits, InTurn watch read o input o.files exits ∧ exit = together input exits)
      ∧ (∀ path left exit, EndsWith watch read (o.only path) left exit →
        (exit.status = 0
            ↔ RunsWell read (o.session (Options.heapSize_pos_of_parse hargs)) path left)
          ∧ exit.status ≤ 1 ∧ exit.complaints = exit.status
          ∧ exit.Uses read (o.session (Options.heapSize_pos_of_parse hargs)).config path left)
      ∧ (∀ exits, InTurn watch read o input o.files exits →
        (together input exits).complaints = exits.countP (·.status ≠ 0))
      ∧ ((∀ path data, read path = .ok data → data.size ≤ wordMax) →
        ∀ level listing status output, Shows watch read o input status output
          ↔ Shows watch read { o with level, showListing := listing } input status output) := by
  have h : o.RunsFiles := ⟨Options.heapSize_pos_of_parse hargs, hrepl, hcode, hfiles, htime⟩
  refine ⟨fun exit => endsWith_iff hw h, fun path left exit hends => ?_,
    fun exits hturns => hturns.complaints_together hw h,
    fun hsize level listing status output => ?_⟩
  · obtain ⟨hcomplaints, hle, hstatus⟩ := complaints_of_endsWith hw h hends
    exact ⟨hstatus, hle, hcomplaints, uses_of_endsWith hw h hends⟩
  · have h' : ({ o with level, showListing := listing } : Options).RunsFiles :=
      ⟨h.heapSize, hrepl, hcode, hfiles, htime⟩
    exact ⟨fun hshows => hshows.alike hw h h' rfl hsize rfl,
      fun hshows => hshows.alike hw h' h rfl hsize rfl⟩

/-- A program that reads a byte and writes it, and no other file. -/
def onlyEcho : FileReader :=
  fun path => if path = "echo" then .ok #[44, 46] else .error Files.missing

/-- A file that is missing does not keep the next ones from their input, of which each reads its
own byte. -/
theorem files_in_turn_echo :
    Options.parse ["-H1", "gone", "echo", "echo"]
        = .ok { files := ["gone", "echo", "echo"], heapSize := 1 }
      ∧ (∀ path data, onlyEcho path = .ok data → data.size ≤ wordMax)
      ∧ (⟨#[44, 46]⟩ : Source).Spends ⟨1, .ir, Nat.one_pos⟩ [97, 98] true [98] [97, 10]
      ∧ Shows (.stopped 0) onlyEcho { files := ["gone", "echo", "echo"], heapSize := 1, level := 0 }
        [97, 98] 1 #[97, 10, 98, 10] := by
  have hargs : Options.parse ["-H1", "gone", "echo", "echo"]
      = .ok { files := ["gone", "echo", "echo"], heapSize := 1 } := by cbv
  have hsize : ∀ path data, onlyEcho path = .ok data → data.size ≤ wordMax := by
    intro path data hread
    unfold onlyEcho at hread
    split at hread <;> cases hread
    decide
  have hfair := Stopwatch.fair_stopped 0
  have h : ({ files := ["gone", "echo", "echo"], heapSize := 1 } : Options).RunsFiles :=
    ⟨Nat.one_pos, rfl, rfl, List.cons_ne_nil _ _, rfl⟩
  obtain ⟨hends, halone, -, hmodes⟩ :=
    files_in_turn hfair hargs rfl rfl (List.cons_ne_nil _ _) rfl onlyEcho [97, 98]
  have hgone : turn 3 onlyEcho (Options.session _ h.heapSize) "gone" [97, 98] = some _ :=
    turn_of_error rfl
  have hfirst : (turn 3 onlyEcho (Options.session _ h.heapSize) "echo" [97, 98]).map
      (fun exit => (exit.status, exit.console.input, exit.console.output))
        = some (0, [98], #[97, 10]) := by cbv
  have hsecond : (turn 3 onlyEcho (Options.session _ h.heapSize) "echo" [98]).map
      (fun exit => (exit.status, exit.console.output)) = some (0, #[98, 10]) := by cbv
  obtain ⟨first, hturn, hexit⟩ := Option.map_eq_some_iff.1 hfirst
  obtain ⟨second, hturn', hexit'⟩ := Option.map_eq_some_iff.1 hsecond
  obtain ⟨hstatus, hleft, houtput⟩ : first.status = 0 ∧ first.console.input = [98]
      ∧ first.console.output = #[97, 10] := by simpa using hexit
  obtain ⟨hstatus', houtput'⟩ : second.status = 0 ∧ second.console.output = #[98, 10] := by
    simpa using hexit'
  have halone' := (endsWith_only hfair h).2 ⟨3, hturn⟩
  obtain ⟨-, -, -, huses⟩ := halone "echo" [97, 98] first halone'
  have hspent := huses.spent #[44, 46] rfl
  rw [hstatus, hleft, houtput] at hspent
  have hturns : InTurn (.stopped 0) onlyEcho { files := ["gone", "echo", "echo"], heapSize := 1 }
      [97, 98] ["gone", "echo", "echo"] _ := .cons ((endsWith_only hfair h).2 ⟨3, hgone⟩)
    (.cons halone' (.cons ((endsWith_only hfair h).2 ⟨3, hleft ▸ hturn'⟩) (.nil _)))
  refine ⟨hargs, hsize, hspent, (hmodes hsize 0 false 1 #[97, 10, 98, 10]).1
    ⟨_, (hends _).2 ⟨_, hturns, rfl⟩, ?_, ?_⟩⟩
  · simp [together]
  · simp [together, houtput, houtput', Console.complain, Console.remark]

end CommandLine

end TapeMachine
