import Mathlib
import TapeMachine.Proofs.Edges
import TapeMachine.Proofs.Streams

/-!
# Longer tapes

More cells at the end of a tape make no difference to a run that never asks for them: they stay
zero, and every step is the same but for them (`Machine.follow_extend`). Only a move to the right
that was refused may go well on the longer tape. The run goes on then, and what it has asked of its
channel before is the beginning of all that it asks (`Job.asked_prefix`).
-/

namespace TapeMachine

open Machine
open Channel (Exchange exchanges)

/-- The same fault, on a tape with `n` more cells. -/
def Fault.lengthen (n : Nat) : Fault → Fault
  | outOfTape i size => outOfTape i (size + n)
  | f => f

namespace Tape

variable {t t' : Tape} {k : Nat}

/-- The tape with `n` more cells behind the others, all zero. -/
def extend (t : Tape) (n : Nat) : Tape where
  cells := t.cells ++ Array.replicate n 0
  head := t.head
  head_lt := by
    rw [Array.size_append]
    exact Nat.lt_add_right _ t.head_lt

theorem size_extend (t : Tape) (n : Nat) : (t.extend n).size = t.size + n := by
  simp [size, extend]

theorem current_extend (t : Tape) (n : Nat) : (t.extend n).current = t.current :=
  Array.getElem_append_left t.head_lt

theorem set_extend (t : Tape) (n : Nat) (v : UInt8) : (t.extend n).set v = (t.set v).extend n := by
  simp only [set, extend, Array.set_append_left t.head_lt]

theorem right_extend (h : t.head + k < t.size) (n : Nat) :
    (t.extend n).right k = (t.right k).map (·.extend n) := by
  rw [right_of_lt h, right_of_lt (show t.head + k < (t.extend n).size by rw [size_extend]; omega)]
  rfl

theorem left_extend (t : Tape) (n k : Nat) : (t.extend n).left k =
    match t.left k with
    | .ok t' => .ok (t'.extend n)
    | .error f => .error (f.lengthen n) := by
  rcases Nat.lt_or_ge t.head k with hk | hk
  · rw [left_of_lt hk, left_of_lt (show (t.extend n).head < k from hk), size_extend]
    rfl
  · rw [left_of_le hk, left_of_le (show k ≤ (t.extend n).head from hk)]
    rfl

theorem blank_extend {h h' n : Nat} (hn : h' = h + n) (h0 : 0 < h) (h0' : 0 < h') :
    (blank h h0).extend n = blank h' h0' := by
  subst hn
  simp only [blank, extend, Array.replicate_append_replicate]

end Tape

namespace World

def extend (w : World) (n : Nat) : World := { w with tape := w.tape.extend n }

def Result.extend (r : Result) (n : Nat) : Result :=
  match r with
  | .ok _ w => .ok () (w.extend n)
  | .error f w => .error (f.lengthen n) (w.extend n)

theorem perform_extend (w : World) (n : Nat) {a : Action}
    (h : ∀ k, a = .right k → w.tape.head + k < w.tape.size) :
    (w.extend n).perform a = (w.perform a).extend n := by
  obtain ⟨tape, c⟩ := w
  cases a with
  | add k =>
    simp only [extend, perform, Tape.add, Tape.current_extend, Tape.set_extend]
    rfl
  | sub k =>
    simp only [extend, perform, Tape.sub, Tape.current_extend, Tape.set_extend]
    rfl
  | clear =>
    simp only [extend, perform, Tape.set_extend]
    rfl
  | right k =>
    simp only [extend, perform, move, Tape.right_extend (h k rfl)]
    rw [Tape.right_of_lt (h k rfl)]
    rfl
  | left k =>
    simp only [extend, perform, move, Tape.left_extend]
    rcases tape.left k with f | t <;> rfl
  | output =>
    simp only [extend, perform, output, Tape.current_extend]
    rcases c.writeByte tape.current with ⟨_, c'⟩ | ⟨f, c'⟩ <;> rfl
  | input =>
    simp only [extend, perform, input, Tape.set_extend]
    rcases c.readByte with ⟨b, c'⟩ | ⟨f, c'⟩ <;> rfl

end World

def Machine.extend (m : Machine) (n : Nat) : Machine := { m with world := m.world.extend n }

def Ending.extend (e : Ending) (n : Nat) : Ending :=
  ⟨e.fault?.map (·.lengthen n), e.machine.extend n⟩

def Step.extend (step : Step) (n : Nat) : Step :=
  match step with
  | .next m => .next (m.extend n)
  | .halted m => .halted (m.extend n)
  | .failed f m => .failed (f.lengthen n) (m.extend n)

def Completion.extend (n : Nat) : Completion → Completion
  | finished o => finished { o with tape := o.tape.extend n }
  | aborted f steps => aborted (f.lengthen n) steps
  | undelivered f => undelivered f

namespace Machine

theorem follow_extend (m : Machine) (n : Nat) {o : Order}
    (h : ∀ k pc, o = .act (.right k) pc → m.world.tape.head + k < m.world.tape.size) :
    (m.extend n).follow o = (m.follow o).extend n := by
  cases o with
  | halt => rfl
  | pass => rfl
  | jump pc => rfl
  | act a pc =>
    have hw : (m.world.extend n).perform a = (m.world.perform a).extend n :=
      m.world.perform_extend n fun k ha => h k pc (ha ▸ rfl)
    simp only [extend, follow, act, hw]
    rcases m.world.perform a with ⟨_, w⟩ | ⟨f, w⟩ <;> rfl

theorem conclude_extend (e : Ending) (n : Nat) :
    conclude (e.extend n) = ((conclude e).1.extend n, (conclude e).2) := by
  obtain ⟨_ | f, ⟨⟨tape, c⟩, pc, steps⟩⟩ := e <;>
    simp only [Ending.extend, extend, World.extend, conclude, Option.map_none, Option.map_some] <;>
    rcases c.flush with ⟨_, c'⟩ | ⟨f, c'⟩ <;> rfl

end Machine

namespace Job

variable {j : Job} {fuel : Nat} {m : Machine} {e : Ending}

/-- The longer tape comes into a step only where a move to the right is refused. -/
theorem engine_extend (hj : j.Balanced) (m : Machine) (n : Nat)
    (h : ∀ i size m', j.engine m = .failed (.outOfTape i size) m' → i < 0) :
    j.engine (m.extend n) = (j.engine m).extend n := by
  have hcurrent : (m.extend n).world.tape.current = m.world.tape.current := Tape.current_extend ..
  have hb := engine_eq_follow hj (m.extend n)
  rw [hcurrent, show (m.extend n).pc = m.pc from rfl] at hb
  rw [engine_eq_follow hj m] at h ⊢
  rw [hb]
  refine m.follow_extend n fun k pc ho => ?_
  rcases Nat.lt_or_ge (m.world.tape.head + k) m.world.tape.size with hk | hk
  · exact hk
  · have hfail : m.follow (.act (.right k) pc) = .failed
        (.outOfTape (clampHead (m.world.tape.head + k)) m.world.tape.size)
        { m with steps := m.steps + 1 } := by
      simp only [follow, act, World.perform, World.move, Tape.right_of_le hk]
    have hneg := h _ _ _ (ho ▸ hfail)
    have := clampHead_nonneg (i := m.world.tape.head + k) (by omega)
    omega

/-- Every ending is that on the longer tape, but for moves that were refused at the right end. -/
theorem execute_extend (n : Nat) (h : j.execute fuel m = some e)
    (hleft : ∀ i size, e.fault? = some (.outOfTape i size) → i < 0) :
    j.execute fuel (m.extend n) = some (e.extend n) := by
  rcases j.balanced_or_failed with hj | ⟨f, hf, hfail⟩
  · rw [execute_of_balanced hj] at h ⊢
    induction fuel generalizing m with
    | zero => cases h
    | succ fuel ih =>
      rcases hm : j.engine m with m' | m' | ⟨f, m'⟩ <;> rw [Machine.run, hm] at h
      · rw [Machine.run, engine_extend hj m n (by simp [hm]), hm]
        exact ih h
      · cases h
        rw [Machine.run, engine_extend hj m n (by simp [hm]), hm]
        rfl
      · -- by assumption the fault names no place on the right
        cases h
        have hm' := engine_extend hj m n fun i size m'' hf => by
          rw [hm] at hf
          cases hf
          exact hleft i size rfl
        rw [Machine.run, hm', hm]
        rfl
  · rw [hfail] at h ⊢
    cases h
    cases f with
    | outOfTape i size => cases hf
    | _ => rfl

/-- What was asked of the channel is the beginning of what is asked on a longer tape. -/
theorem asked_prefix (j : Job) (n more : Nat) (fuel : Nat) (m : Machine) :
    (j.progress fuel m).asked <+: (j.progress (fuel + more) (m.extend n)).asked := by
  by_cases hj : j.Balanced
  · rw [progress_of_balanced hj, progress_of_balanced hj]
    induction fuel generalizing m with
    | zero => exact List.nil_prefix
    | succ fuel ih =>
      have hasks : j.asks? (m.extend n) = j.asks? m := by
        rw [asks?_eq, asks?_eq]
        simp only [extend, World.extend, Tape.current_extend]
      rw [Nat.add_right_comm]
      rcases hm : j.engine m with m' | m' | ⟨f, m'⟩
      · have hm' := engine_extend hj m n (by simp [hm])
        rw [hm] at hm'
        simp only [Machine.progress, hm, hm', Step.extend, hasks]
        exact (List.prefix_append_right_inj _).2 (ih m')
      all_goals
        obtain ⟨later, hlater⟩ := j.asked_succ (fuel + more) (m.extend n)
        rw [hlater, hasks, Machine.progress, hm]
        exact List.prefix_append ..
  · rw [progress_of_not_balanced hj]
    exact List.nil_prefix

/-- The bytes that arrived on the way. -/
def arrived (j : Job) (fuel : Nat) (m : Machine) : List UInt8 :=
  (exchanges m.world.channel (j.progress fuel m).asked).flatMap Exchange.input

theorem bytesRead_progress (j : Job) (fuel : Nat) (m : Machine) :
    (j.progress fuel m).machine.world.channel.bytesRead
      = m.world.channel.bytesRead + (j.arrived fuel m).length := by
  rw [j.channel_progress, Channel.bytesRead_afterAll, arrived]

variable {config config' : Config} {ends ends' : Endpoints} {completion : Completion}

theorem entry_extend (hle : config.heapSize ≤ config'.heapSize) (ends : Endpoints) :
    (entry config ends).extend (config'.heapSize - config.heapSize) = entry config' ends := by
  simp only [entry, start, extend, World.extend]
  rw [Tape.blank_extend (Nat.add_sub_cancel' hle).symm]

theorem exchanges_prefix (j : Job) (hle : config.heapSize ≤ config'.heapSize) {fuel' : Nat}
    (hfuel : fuel ≤ fuel') (ends : Endpoints) :
    exchanges { ends } (j.progress fuel (entry config ends)).asked
      <+: exchanges { ends } (j.progress fuel' (entry config' ends)).asked := by
  have hasked := j.asked_prefix (config'.heapSize - config.heapSize) (fuel' - fuel) fuel
    (entry config ends)
  rw [entry_extend hle, Nat.add_sub_cancel' hfuel] at hasked
  obtain ⟨later, hlater⟩ := hasked
  rw [← hlater, Channel.exchanges_append]
  exact List.prefix_append ..

theorem run_extend (hle : config.heapSize ≤ config'.heapSize)
    (h : j.run fuel config ends = some (completion, ends'))
    (hleft : ∀ i size steps, completion = .aborted (.outOfTape i size) steps → i < 0) :
    j.run fuel config' ends
      = some (completion.extend (config'.heapSize - config.heapSize), ends') := by
  rw [run_eq] at h ⊢
  obtain ⟨e, he, hc⟩ := Option.map_eq_some_iff.1 h
  have he' := execute_extend (config'.heapSize - config.heapSize) he fun i size hf =>
    hleft i size _ (by rw [← conclude_eq_aborted_iff.2 ⟨hf, rfl⟩, hc])
  rw [← entry_extend hle, he', Option.map_some, conclude_extend, hc]

/-- Of two tapes, the longer one. A run that goes well on the shorter goes well on the longer, with
the same use of its endpoints and the same counts, and leaves the same cells and zeros behind them.
A run that fails at an endpoint, or at the left end of the tape, fails in the same way. A run that
is stopped at the right end may go on, from what it has put out and read by then. -/
theorem longer_tape (j : Job) (hle : config.heapSize ≤ config'.heapSize)
    (h : j.run fuel config ends = some (completion, ends')) :
    (∀ o, completion = .finished o → ∃ o', j.run fuel config' ends = some (.finished o', ends')
      ∧ o'.steps = o.steps ∧ o'.bytesRead = o.bytesRead ∧ o'.bytesWritten = o.bytesWritten
      ∧ o'.tape.head = o.tape.head
      ∧ o'.tape.cells = o.tape.cells ++ Array.replicate (config'.heapSize - config.heapSize) 0)
    ∧ (∀ f, completion.result = .error (.io f) →
      j.run fuel config' ends = some (completion, ends'))
    ∧ (∀ i size steps, completion = .aborted (.outOfTape i size) steps → i < 0 →
      j.run fuel config' ends
        = some (.aborted (.outOfTape i config'.heapSize) steps, ends'))
    ∧ ∀ i size steps, completion = .aborted (.outOfTape i size) steps → 0 ≤ i →
      ∀ fuel', fuel ≤ fuel' →
        j.written fuel (entry config ends) <+: j.written fuel' (entry config' ends)
        ∧ j.arrived fuel (entry config ends) <+: j.arrived fuel' (entry config' ends) := by
  have hrun := run_extend hle h
  refine ⟨?_, fun f hf => ?_, ?_, ?_⟩
  · rintro o rfl
    exact ⟨_, hrun nofun, rfl, rfl, rfl, rfl, rfl⟩
  · cases completion with
    | finished o => cases hf
    | aborted g steps =>
      cases hf
      exact hrun nofun
    | undelivered f => exact hrun nofun
  · rintro i size steps rfl hi
    have hsize : size = config.heapSize := by
      rw [run_eq] at h
      obtain ⟨⟨fault?, m⟩, he, hc⟩ := Option.map_eq_some_iff.1 h
      obtain ⟨rfl, -⟩ := conclude_eq_aborted_iff.1 (congrArg Prod.fst hc)
      exact (size_of_outOfTape he).trans (Tape.size_blank config.heapSize_pos)
    have h' := hrun fun i' size' steps' heq => by cases heq; exact hi
    rw [h', Completion.extend, Fault.lengthen, hsize, Nat.add_sub_cancel' hle]
  · rintro i size steps rfl - fuel' hfuel
    have hbegins := j.exchanges_prefix hle hfuel ends
    exact ⟨hbegins.flatMap Exchange.output, hbegins.flatMap Exchange.input⟩

/-- A tape of one cell and a tape of two: a program that fits on both, one that leaves both on the
left, and one that leaves the shorter on the right. -/
theorem longer_tape_two :
    (∃ o', (Job.source ⟨#[43]⟩).run 2 ⟨2, .direct, by decide⟩ (.ofBytes [])
        = some (.finished o', ⟨.ofBytes [], {}, #[.flushed]⟩)
      ∧ o'.tape.cells = #[1] ++ Array.replicate 1 0)
    ∧ (Job.source ⟨#[60]⟩).run 1 ⟨2, .direct, by decide⟩ (.ofBytes [])
      = some (.aborted (.outOfTape (-1) 2) 1, ⟨.ofBytes [], {}, #[.flushed]⟩)
    ∧ [0] <+: (Job.source ⟨#[46, 62, 46]⟩).written 9
      (entry ⟨2, .direct, by decide⟩ (.ofBytes [])) := by
  have hle : (⟨1, .direct, by decide⟩ : Config).heapSize
      ≤ (⟨2, .direct, by decide⟩ : Config).heapSize := by decide
  have hfits : (Job.source ⟨#[43]⟩).run 2 ⟨1, .direct, by decide⟩ (.ofBytes [])
      = some (.finished ⟨⟨#[1], 0, by decide⟩, 1, 0, 0⟩, ⟨.ofBytes [], {}, #[.flushed]⟩) := by cbv
  have hleft : (Job.source ⟨#[60]⟩).run 1 ⟨1, .direct, by decide⟩ (.ofBytes [])
      = some (.aborted (.outOfTape (-1) 1) 1, ⟨.ofBytes [], {}, #[.flushed]⟩) := by cbv
  have hright : (Job.source ⟨#[46, 62, 46]⟩).run 2 ⟨1, .direct, by decide⟩ (.ofBytes [])
      = some (.aborted (.outOfTape 1 1) 2,
        ⟨.ofBytes [], { accepted := #[0] }, #[.wrote 1, .flushed]⟩) := by cbv
  have hwritten : (Job.source ⟨#[46, 62, 46]⟩).written 2
      (entry ⟨1, .direct, by decide⟩ (.ofBytes [])) = [0] := by cbv
  obtain ⟨o', hrun, -, -, -, -, hcells⟩ := (longer_tape _ hle hfits).1 _ rfl
  refine ⟨⟨o', hrun, hcells⟩, ?_, ?_⟩
  · exact (longer_tape _ hle hleft).2.2.1 _ _ _ rfl (by decide)
  · rw [← hwritten]
    exact ((longer_tape _ hle hright).2.2.2 _ _ _ rfl (by decide) 9 (by decide)).1

end Job

end TapeMachine
