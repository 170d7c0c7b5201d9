import TapeMachine.Proofs.Cache
import TapeMachine.Proofs.Interaction
import TapeMachine.Proofs.Orders

/-!
# Jobs

An engine is given a source or a lowered program. What is true of both is stated of jobs: the
brackets of a balanced job never stop it, and what the channel has taken by the end of a job is what
was written on the way (`Job.goes_execute`). An execution of a session comes down to the run of one
job, and the newline after it (`Session.report_execute`).
-/

namespace TapeMachine

open Machine
open Channel (Operation Exchange Goes exchanges afterAll)

/-- What an order asks of the channel, over a cell. -/
def Order.asks? (cell : UInt8) : Order → Option Operation
  | .act .output _ => some (.write cell)
  | .act .input _ => some .read
  | _ => none

theorem Source.asks?_eq (s : Source) (m : Machine) :
    s.asks? m = (s.order m.world.tape.current m.pc).asks? m.world.tape.current := by
  unfold asks? order
  rcases s.bytes[m.pc]? with _ | b
  · rfl
  rcases hsym : Symbol.ofByte? b with _ | sym <;> simp only [hsym, Option.bind_some]
  · rfl
  · cases sym <;> rfl

theorem Program.asks?_eq (p : Program) (m : Machine) :
    p.asks? m = (p.order m.world.tape.current m.pc).asks? m.world.tape.current := by
  unfold asks? order
  rcases p.opcode? m.pc with _ | a | t | t
  · rfl
  · cases a <;> rfl
  · rfl
  · rfl

/-- A run is aborted by a fault of its engine, and by nothing else. -/
theorem Machine.conclude_eq_aborted_iff {e : Ending} {f : Fault} {steps : Nat} :
    (conclude e).1 = .aborted f steps ↔ e.fault? = some f ∧ e.machine.steps = steps := by
  obtain ⟨_ | g, ⟨⟨tape, channel⟩, pc, n⟩⟩ := e <;>
    rcases hc : channel.flush with ⟨_, c⟩ | ⟨_, c⟩ <;> simp [conclude, hc]

/-- What an engine is given to run. -/
inductive Job where
  | source (s : Source)
  | program (p : Program)

namespace Job

def engine : Job → Machine → Step
  | source s => s.step
  | program p => p.step

def execute : Job → Nat → Machine → Option Ending
  | source s => s.execute
  | program p => p.execute

/-- What is to be done at a place, over a cell. -/
def order : Job → UInt8 → Nat → Order
  | source s => s.order
  | program p => p.order

def asks? : Job → Machine → Option Operation
  | source s => s.asks?
  | program p => p.asks?

def progress : Job → Nat → Machine → Progress
  | source s => s.progress
  | program p => p.progress

def run : Job → Nat → Config → Endpoints → Option (Completion × Endpoints)
  | source s => s.run
  | program p => p.run

/-- At `pc` stands an instruction that reads. -/
def Reads : Job → Nat → Prop
  | source s, pc => s.bytes[pc]? = some Symbol.input.byte
  | program p, pc => p.opcode? pc = some (.act .input)

/-- The brackets of a source are checked before it runs. A program runs as it is. -/
def Balanced : Job → Prop
  | source s => s.checkBalance = .ok ()
  | program _ => True

/-- The bytes that are written on the way. -/
def written (j : Job) (fuel : Nat) (m : Machine) : List UInt8 :=
  (exchanges m.world.channel (j.progress fuel m).asked).flatMap Exchange.output

variable {j : Job} {fuel : Nat} {m : Machine} {e : Ending}

theorem run_eq (j : Job) (fuel : Nat) (config : Config) (ends : Endpoints) :
    j.run fuel config ends = (j.execute fuel (entry config ends)).map conclude := by
  cases j <;> rfl

theorem ordered (hj : j.Balanced) : Ordered j.engine j.Reads := by
  cases j with
  | source s => exact Source.ordered hj
  | program p => exact p.ordered

theorem engine_eq_follow (hj : j.Balanced) (m : Machine) :
    j.engine m = m.follow (j.order m.world.tape.current m.pc) := by
  cases j with
  | source s => exact Source.step_eq_follow hj m
  | program p => exact p.step_eq_follow m

theorem asks?_eq (j : Job) (m : Machine) :
    j.asks? m = (j.order m.world.tape.current m.pc).asks? m.world.tape.current := by
  cases j with
  | source s => exact s.asks?_eq m
  | program p => exact p.asks?_eq m

theorem asks (j : Job) : Asks j.engine j.asks? := by
  cases j with
  | source s => exact s.asks
  | program p => exact p.asks

theorem execute_of_balanced (hj : j.Balanced) (fuel : Nat) (m : Machine) :
    j.execute fuel m = Machine.run j.engine fuel m := by
  cases j with
  | source s =>
    have hs : s.checkBalance = .ok () := hj
    simp only [execute, Source.execute, hs, engine]
  | program p => rfl

/-- A source with a bracket to blame fails before its first step. -/
theorem balanced_or_failed (j : Job) :
    j.Balanced ∨ ∃ f, f.isStructural ∧ ∀ fuel m, j.execute fuel m = some ⟨some f, m⟩ := by
  cases j with
  | source s =>
    rcases hs : s.checkBalance with f | _
    · refine .inr ⟨f, ?_, fun fuel m => by simp only [execute, Source.execute, hs]⟩
      unfold Source.checkBalance at hs
      rcases hu : s.unmatched with (i | i) | _ <;> rw [hu] at hs <;> cases hs <;> rfl
    · exact .inl hs
  | program p => exact .inl trivial

theorem progress_of_balanced (hj : j.Balanced) (fuel : Nat) (m : Machine) :
    j.progress fuel m = Machine.progress j.engine j.asks? fuel m := by
  cases j with
  | source s =>
    have hs : s.checkBalance = .ok () := hj
    simp only [progress, Source.progress, hs, engine, asks?]
  | program p => rfl

theorem progress_of_not_balanced (hj : ¬ j.Balanced) (fuel : Nat) (m : Machine) :
    j.progress fuel m = ⟨m, []⟩ := by
  cases j with
  | source s =>
    have hs : ¬ s.checkBalance = .ok () := hj
    simp only [progress, Source.progress]
    rcases hc : s.checkBalance with f | _
    · rfl
    · exact absurd hc hs
  | program p => exact absurd trivial hj

theorem channel_progress (j : Job) (fuel : Nat) (m : Machine) :
    (j.progress fuel m).machine.world.channel
      = m.world.channel.afterAll (j.progress fuel m).asked := by
  by_cases hj : j.Balanced
  · rw [progress_of_balanced hj]
    exact j.asks.channel_progress fuel m
  · rw [progress_of_not_balanced hj]
    rfl

/-- A run that ends has come to its end. -/
theorem machine_progress (h : j.execute fuel m = some e) :
    (j.progress fuel m).machine = e.machine := by
  by_cases hj : j.Balanced
  · rw [execute_of_balanced hj] at h
    rw [progress_of_balanced hj, Machine.machine_progress h]
  · obtain hb | ⟨f, -, hf⟩ := j.balanced_or_failed
    · exact absurd hb hj
    · rw [hf] at h
      cases h
      rw [progress_of_not_balanced hj]

theorem asked_succ (j : Job) (fuel : Nat) (m : Machine) :
    ∃ later, (Machine.progress j.engine j.asks? (fuel + 1) m).asked
      = (j.asks? m).toList ++ later := by
  rw [Machine.progress]
  split
  · exact ⟨_, rfl⟩
  · exact ⟨[], (List.append_nil _).symm⟩
  · exact ⟨[], (List.append_nil _).symm⟩

theorem goes_execute (h : j.execute fuel m = some e) :
    ∃ calls, Goes m.world.channel e.machine.world.channel calls (j.written fuel m) := by
  rw [← machine_progress h, channel_progress]
  exact ⟨_, Channel.goes_exchanges _ _⟩

end Job

/-- What is run for a source in a mode: the source itself, or what it is lowered to. -/
def Source.job (s : Source) : Mode → Except Fault Job
  | .direct => .ok (.source s)
  | .ir => s.lower.map fun r => .program r.1

namespace Session

/-- What is made of the run of a job: after one that went well comes a newline. -/
def settle (r : Completion × Endpoints) : Except Failure Outcome × Endpoints :=
  match r.1.result with
  | .error fault => (.error (.program fault), r.2)
  | .ok outcome =>
    match endLine r.2 with
    | (some f, ends) => (.error (.stream f), ends)
    | (none, ends) => (.ok outcome, ends)

/-- What an execution gives back, beside its session and its remarks. -/
def Execution.report (e : Execution) : Except Failure Outcome × Endpoints :=
  (e.response.result, e.ends)

/-- What a session has to run in a mode, if there is something. -/
def job (s : Session) : Mode → Except Failure Job
  | .direct =>
    match s.source? with
    | none => .error (.program .noProgram)
    | some source => .ok (.source source)
  | .ir => s.obtainProgram.result.map .program

theorem report_conclude (s : Session) (mode : Mode) (remarks : List Remark)
    (completion : Completion) (ends : Endpoints) :
    (s.conclude mode remarks completion ends).report = settle (completion, ends) := by
  simp only [conclude, settle]
  rcases completion.result with f | outcome
  · rfl
  · rcases endLine ends with ⟨_ | f, ends⟩ <;> rfl

theorem map_report_conclude (s : Session) (mode : Mode) (remarks : List Remark)
    (r : Option (Completion × Endpoints)) :
    (r.map fun (completion, ends) => s.conclude mode remarks completion ends).map Execution.report
      = r.map settle := by
  rw [Option.map_map]
  exact congrArg (r.map ·) (funext fun _ => report_conclude ..)

theorem report_execute (s : Session) (fuel : Nat) (mode : Mode) (ends : Endpoints) :
    (s.execute fuel mode ends).map Execution.report =
      match s.job mode with
      | .ok j => (j.run fuel s.config ends).map settle
      | .error f => some (.error f, ends) := by
  cases mode with
  | direct =>
    simp only [execute, job]
    rcases s.source? with _ | source
    · rfl
    · exact map_report_conclude ..
  | ir =>
    have hkept := s.obtainProgram_kept.config
    simp only [execute, job]
    rcases hobtain : s.obtainProgram with ⟨f | p, s', remarks⟩ <;> rw [hobtain] at hkept
    · rfl
    · rw [← hkept]
      exact map_report_conclude ..

end Session

end TapeMachine
