import TapeMachine.Proofs.Complaints
import TapeMachine.Proofs.Fuel
import TapeMachine.Proofs.PlainRuns

/-!
# The turn of a file

What the command comes to with one file (`turn`): its complaints are as many as its status says
(`complaints_turn`), the status is zero if the file is loaded and runs well (`status_turn_iff`), of
the input is gone what the program has read and nothing else (`uses_turn`), and in either mode the
rest is the same but for the error stream (`turn_alike`). Of a session, a cycle
looks at the configuration only, and leaves that as it was (`Desk.cycle_kept`); of the console, it
looks at the input only, and adds to the rest (`Desk.cycle_followedBy`).
-/

namespace TapeMachine

namespace Console

variable (c d : Console)

/-- What happened at `d` after what happened at `c`. -/
def followedBy : Console := ⟨d.input, c.output ++ d.output, c.remarks ++ d.remarks⟩

theorem followedBy_blank : c.followedBy { input := c.input } = c := by
  simp [followedBy]

theorem blank_followedBy (input : List UInt8) : ({ input } : Console).followedBy d = d := by
  simp [followedBy]

theorem followedBy_assoc (e : Console) :
    (c.followedBy d).followedBy e = c.followedBy (d.followedBy e) := by
  simp only [followedBy, Array.append_assoc]

@[simp]
theorem remark_followedBy (remarks : List Remark) :
    (c.followedBy d).remark remarks = c.followedBy (d.remark remarks) := by
  have hassoc : c.remarks ++ d.remarks ++ remarks = c.remarks ++ (d.remarks ++ remarks) :=
    Array.ext' (by simp)
  simp only [followedBy, remark, hassoc]

@[simp]
theorem complain_followedBy (text : String) :
    (c.followedBy d).complain text = c.followedBy (d.complain text) :=
  remark_followedBy c d _

@[simp]
theorem absorb_followedBy (ends : Endpoints) :
    (c.followedBy d).absorb ends = c.followedBy (d.absorb ends) := by
  simp only [followedBy, absorb, Array.append_assoc]

@[simp]
theorem ends_followedBy : (c.followedBy d).ends = d.ends := rfl

end Console

namespace Session

variable {s s' : Session}

theorem loadFile_congr (hc : s'.config = s.config) (hl : s'.showListing = s.showListing)
    (read : FileReader) (path : String) : s'.loadFile read path = s.loadFile read path := by
  simp only [loadFile, accept, forget, hc, hl]

theorem loadFile_kept (s : Session) (read : FileReader) (path : String) :
    (s.loadFile read path).session.config = s.config
      ∧ (s.loadFile read path).session.showListing = s.showListing := by
  unfold loadFile
  split <;> exact ⟨rfl, rfl⟩

end Session

namespace CommandLine

open Session (Execution Calm)

namespace Desk

variable (fuel : Nat)

theorem cycle_followedBy (load : Session → Session.Response Unit) (s : Session) (c d : Console) :
    cycle fuel load ⟨s, c.followedBy d⟩
      = (cycle fuel load ⟨s, d⟩).map fun r => (r.1, ⟨r.2.session, c.followedBy r.2.console⟩) := by
  unfold cycle
  rcases load s with ⟨f | _, s', remarks⟩
  · simp only [Console.remark_followedBy, Option.map_some]
  · simp only [Console.remark_followedBy, Console.absorb_followedBy, Console.ends_followedBy,
      Option.map_map]
    rfl

theorem cycle_kept {read : FileReader} {path : String} {s : Session} {c : Console}
    {r : Option Session.Failure × Desk}
    (h : cycle fuel (·.loadFile read path) ⟨s, c⟩ = some r) :
    r.2.session.config = s.config ∧ r.2.session.showListing = s.showListing := by
  have hkept := s.loadFile_kept read path
  have hnone := s.program?_loadFile read path
  unfold cycle at h
  rcases hload : s.loadFile read path with ⟨f | _, s', remarks⟩ <;>
    simp only [hload] at h hkept hnone
  · cases h
    exact hkept
  · obtain ⟨e, he, rfl⟩ := Option.map_eq_some_iff.1 h
    have hrun := Session.runAsConfigured_kept (Session.coherent_of_none hnone) he
    exact ⟨hrun.config.trans hkept.1, hrun.showListing.trans hkept.2⟩

theorem cycle_congr {load : Session → Session.Response Unit} {s s' : Session}
    (h : load s' = load s) (c : Console) : cycle fuel load ⟨s', c⟩ = cycle fuel load ⟨s, c⟩ := by
  simp only [cycle, h]

end Desk

/-! ## One file -/

/-- The end of the command after the cycle of its only file. -/
def exitOf (path : String) : Option Session.Failure × Desk → Exit
  | (none, d) => ⟨0, d.console⟩
  | (some f, d) => ⟨1, d.console.complain (Desk.fileComplaint path f)⟩

/-- What the command comes to with one file. -/
def turn (fuel : Nat) (read : FileReader) (s : Session) (path : String) (input : List UInt8) :
    Option Exit :=
  (Desk.cycle fuel (·.loadFile read path) ⟨s, { input }⟩).map (exitOf path)

/-- The end of the command when the program of its only file has come to its own. -/
def exitAfter (path : String) (loaded : List Remark) (input : List UInt8) (e : Execution) : Exit :=
  let c := ((({ input } : Console).remark loaded).absorb e.ends).remark e.response.remarks
  match e.response.result with
  | .ok _ => ⟨0, c⟩
  | .error f => ⟨1, c.complain (Desk.fileComplaint path f)⟩

section Turn

variable {fuel : Nat} {read : FileReader} {s : Session} {path : String} {input : List UInt8}

theorem turn_of_error {f : IoFailure} (h : read path = .error f) : turn fuel read s path input
    = some ⟨1, ({ input } : Console).complain (Desk.fileComplaint path (.load path f))⟩ := by
  simp only [turn, Desk.cycle, Session.loadFile, h, Option.map_some, exitOf]
  rfl

theorem turn_of_ok {data : Array UInt8} (h : read path = .ok data) : turn fuel read s path input
    = ((s.accept ⟨data⟩ path).session.runAsConfigured fuel (.ofBytes input)).map
      (exitAfter path (s.accept ⟨data⟩ path).remarks input) := by
  simp only [turn, Desk.cycle, Session.loadFile, h, Session.accept, Option.map_map]
  congr 1
  funext e
  simp only [Function.comp, exitAfter]
  rcases e.response.result with f | outcome <;> rfl

theorem lasting_turn (read : FileReader) (s : Session) (path : String) (input : List UInt8) :
    Lasting fun fuel => turn fuel read s path input := by
  rcases h : read path with f | data
  · simp only [turn_of_error h]
    exact .const _
  · simp only [turn_of_ok h]
    exact (Session.lasting_runAsConfigured _ _).map _

/-! ### Complaints -/

/-- How many complaints are made. -/
def Exit.complaints (exit : Exit) : Nat := exit.console.remarks.toList.countP Remark.isComplaint

theorem isComplaint_fileComplaint (path : String) (f : Session.Failure) :
    (Remark.text (Desk.fileComplaint path f)).isComplaint := by
  unfold Desk.fileComplaint
  split <;> simp only [String.append_assoc] <;> exact isComplaint_error _

theorem countP_of_calm {remarks : List Remark} (h : Calm remarks) :
    remarks.countP Remark.isComplaint = 0 :=
  List.countP_eq_zero.2 h

theorem complaints_exitAfter {loaded : List Remark} {e : Execution} (hl : Calm loaded)
    (he : Calm e.response.remarks) (path : String) (input : List UInt8) :
    (exitAfter path loaded input e).complaints = (exitAfter path loaded input e).status := by
  unfold exitAfter
  rcases e.response.result with f | outcome
  · simp [Exit.complaints, Console.complain, Console.remark, Console.absorb, countP_of_calm hl,
      countP_of_calm he, isComplaint_fileComplaint]
  · simp [Exit.complaints, Console.remark, Console.absorb, countP_of_calm hl, countP_of_calm he]

/-- A file that fails is complained about once, and no other. -/
theorem complaints_turn {exit : Exit} (h : turn fuel read s path input = some exit) :
    exit.complaints = exit.status := by
  rcases hread : read path with f | data
  · rw [turn_of_error hread] at h
    cases h
    simp [Exit.complaints, Console.complain, Console.remark, isComplaint_fileComplaint]
  · rw [turn_of_ok hread] at h
    obtain ⟨e, he, rfl⟩ := Option.map_eq_some_iff.1 h
    exact complaints_exitAfter (Session.calm_notes [_]) (Session.calm_runAsConfigured he) path input

/-! ### The status -/

theorem status_exitAfter (path : String) (loaded : List Remark) (input : List UInt8)
    (e : Execution) :
    (exitAfter path loaded input e).status = if e.response.result.isOk then 0 else 1 := by
  unfold exitAfter
  rcases e.response.result with f | outcome <;> rfl

theorem status_turn_le {exit : Exit} (h : turn fuel read s path input = some exit) :
    exit.status ≤ 1 := by
  obtain ⟨⟨_ | f, d⟩, -, rfl⟩ := Option.map_eq_some_iff.1 h
  · exact Nat.zero_le 1
  · exact Nat.le_refl 1

/-- A session loads the file, and what is in it runs well. -/
def RunsWell (read : FileReader) (s : Session) (path : String) (input : List UInt8) : Prop :=
  ∃ data fuel e outcome, read path = .ok data
    ∧ (s.accept ⟨data⟩ path).session.runAsConfigured fuel (.ofBytes input) = some e
    ∧ e.response.result = .ok outcome

theorem status_turn_iff {exit : Exit} (h : turn fuel read s path input = some exit) :
    exit.status = 0 ↔ RunsWell read s path input := by
  rcases hread : read path with f | data
  · rw [turn_of_error hread] at h
    cases h
    simp [RunsWell, hread]
  rw [turn_of_ok hread] at h
  obtain ⟨e, he, rfl⟩ := Option.map_eq_some_iff.1 h
  rw [status_exitAfter]
  constructor
  · intro hstatus
    rcases hresult : e.response.result with f | outcome
    · simp [hresult, Except.isOk, Except.toBool] at hstatus
    · exact ⟨data, fuel, e, outcome, hread, he, hresult⟩
  · rintro ⟨data', fuel', e', outcome, hread', he', hresult⟩
    cases hread.symm.trans hread'
    cases (Session.lasting_runAsConfigured _ _).unique he he'
    rw [hresult]
    rfl

/-! ### The streams -/

/-- A run is handed the input, and the console takes over what is left of it and what was put
out. -/
theorem console_exitAfter (path : String) (loaded : List Remark) (input : List UInt8)
    (e : Execution) : (exitAfter path loaded input e).console.input = e.ends.reader.remaining
      ∧ (exitAfter path loaded input e).console.output = e.ends.sink.accepted := by
  unfold exitAfter
  rcases e.response.result with f | outcome <;>
    simp [Console.complain, Console.remark, Console.absorb]

/-- The turn of a file uses the streams as its program does. If the file cannot be read, they stay
as they are. -/
structure Exit.Uses (read : FileReader) (config : Config) (path : String) (input : List UInt8)
    (exit : Exit) : Prop where
  unread : ∀ f, read path = .error f →
    exit.status = 1 ∧ exit.console.input = input ∧ exit.console.output = #[]
  spent : ∀ data, read path = .ok data → (⟨data⟩ : Source).Spends config input
    (decide (exit.status = 0)) exit.console.input exit.console.output.toList

theorem uses_turn {exit : Exit} (h : turn fuel read s path input = some exit) :
    exit.Uses read s.config path input := by
  rcases hread : read path with f | data
  · rw [turn_of_error hread] at h
    cases h
    exact ⟨fun _ _ => ⟨rfl, rfl, rfl⟩, fun data hdata => by cases hread.symm.trans hdata⟩
  · rw [turn_of_ok hread] at h
    obtain ⟨e, he, rfl⟩ := Option.map_eq_some_iff.1 h
    refine ⟨fun f hf => (by cases hread.symm.trans hf), fun data' hdata => ?_⟩
    cases hread.symm.trans hdata
    obtain ⟨hleft, hout⟩ := console_exitAfter path (s.accept ⟨data⟩ path).remarks input e
    have hspends := Session.spends_runAsConfigured (s := (s.accept ⟨data⟩ path).session) rfl rfl he
    rw [status_exitAfter, hleft, hout]
    cases hwell : e.response.result.isOk <;> rw [hwell] at hspends <;> exact hspends

/-! ### Either mode -/

/-- All but what is written on the error stream. -/
structure Exit.Alike (a b : Exit) : Prop where
  status : b.status = a.status
  input : b.console.input = a.console.input
  output : b.console.output = a.console.output

theorem exitAfter_alike {e e' : Execution}
    (h : Session.sight e'.report = Session.sight e.report) (path : String)
    (loaded : List Remark) (input : List UInt8) :
    (exitAfter path loaded input e).Alike (exitAfter path loaded input e') := by
  obtain ⟨⟨result, s, remarks⟩, ends⟩ := e
  obtain ⟨⟨result', s', remarks'⟩, ends'⟩ := e'
  obtain ⟨hwell, hreader, haccepted⟩ := Session.Sight.mk.inj h
  simp only [Execution.report] at hwell hreader haccepted
  simp only [exitAfter]
  rcases result with f | outcome <;> rcases result' with f' | outcome' <;>
    simp only [Except.isOk, Except.toBool, Bool.false_eq_true, Bool.true_eq_false] at hwell
  · constructor <;> simp only [Console.complain, Console.remark, Console.absorb, hreader, haccepted]
  · constructor <;> simp only [Console.remark, Console.absorb, hreader, haccepted]

/-- What comes of a file depends on the size of the tape only. -/
theorem turn_alike {s' : Session} (hheap : s'.config.heapSize = s.config.heapSize)
    (hsize : ∀ data, read path = .ok data → data.size ≤ wordMax) {exit : Exit}
    (h : turn fuel read s path input = some exit) :
    ∃ fuel' exit', turn fuel' read s' path input = some exit' ∧ exit.Alike exit' := by
  rcases hread : read path with f | data
  · rw [turn_of_error hread] at h
    cases h
    exact ⟨0, _, turn_of_error hread, rfl, rfl, rfl⟩
  · rw [turn_of_ok hread] at h
    obtain ⟨e, he, rfl⟩ := Option.map_eq_some_iff.1 h
    have hloaded : (s'.accept ⟨data⟩ path).session.config.heapSize
        = (s.accept ⟨data⟩ path).session.config.heapSize := hheap
    obtain ⟨fuel', e', he', hsight⟩ :=
      Session.sight_congr (hsize data hread) rfl rfl rfl rfl hloaded he
    refine ⟨fuel', _, ?_, exitAfter_alike hsight path (s.accept ⟨data⟩ path).remarks input⟩
    rw [turn_of_ok hread, he']
    rfl

end Turn

end CommandLine

end TapeMachine
