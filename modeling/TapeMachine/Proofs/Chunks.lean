import TapeMachine.Proofs.Beside
import TapeMachine.Proofs.Jobs
import TapeMachine.Proofs.Streams

/-!
# Chunks

A run does not depend on the pieces in which its bytes come and go (`Job.runs_alike`). The bytes of
a stream may arrive one by one or all at once, with any number of interruptions between them: a read
finds the next byte either way (`Reader.next_fluent`). And however little a steady sink takes at a
time, it takes all that was put out.
-/

namespace TapeMachine

open Machine
open Channel (Goes)
open Reader (next answerOf Agree)

namespace Reader

/-- Nothing is to arrive but bytes and interruptions. -/
def Fluent (r : Reader) : Prop :=
  ∀ arrival ∈ r.script, (∃ data, arrival = .bytes data)
    ∨ ∃ f, arrival = .failure f ∧ f.kind = .interrupted

/-- A read from a fluent script finds the next byte, or the end if there is none. -/
theorem next_fluent : ∀ {script : List Arrival}, Fluent ⟨script⟩ →
    (next script).1 = answerOf (remaining ⟨script⟩) ∧ Fluent ⟨(next script).2⟩
      ∧ remaining ⟨(next script).2⟩ = (remaining ⟨script⟩).tail
  | [], h => ⟨rfl, h, rfl⟩
  | .bytes [] :: rest, h =>
    @next_fluent rest fun arrival ha => h arrival (List.mem_cons_of_mem _ ha)
  | .bytes (b :: data) :: rest, h => by
    refine ⟨rfl, fun arrival ha => ?_, rfl⟩
    rcases List.mem_cons.1 ha with rfl | ha
    · exact .inl ⟨data, rfl⟩
    · exact h arrival (List.mem_cons_of_mem _ ha)
  | .endOfInput :: rest, h => by
    obtain ⟨data, hd⟩ | ⟨f, hf, -⟩ := h _ List.mem_cons_self
    · cases hd
    · cases hf
  | .failure f :: rest, h => by
    obtain ⟨data, hd⟩ | ⟨g, hg, hkind⟩ := h _ List.mem_cons_self
    · cases hd
    · cases hg
      have ih := @next_fluent rest fun arrival ha => h arrival (List.mem_cons_of_mem _ ha)
      rw [next, if_pos hkind]
      exact ih

/-- Fluent scripts that carry the same bytes. -/
def Carry (script script' : List Arrival) : Prop :=
  Fluent ⟨script⟩ ∧ Fluent ⟨script'⟩ ∧ remaining ⟨script⟩ = remaining ⟨script'⟩

theorem Carry.agree {script script' : List Arrival} (h : Carry script script') :
    Agree Carry script script' := by
  obtain ⟨hf, hf', hsame⟩ := h
  obtain ⟨hanswer, hrest, hremaining⟩ := next_fluent hf
  obtain ⟨hanswer', hrest', hremaining'⟩ := next_fluent hf'
  exact ⟨by rw [hanswer, hanswer', hsame], hrest, hrest', by rw [hremaining, hremaining', hsame]⟩

end Reader

/-- The end of a run over a steady sink: nothing fails then, and all output is delivered. -/
theorem Machine.conclude_steady {e : Ending} (h : e.machine.world.channel.Steady) :
    (conclude e).1 = (match e.fault? with
      | some f => .aborted f e.machine.steps
      | none => .finished e.machine.outcome)
    ∧ (conclude e).2.sink.accepted.toList = e.machine.world.channel.output := by
  obtain ⟨fault?, ⟨⟨tape, c⟩, pc, steps⟩⟩ := e
  obtain ⟨c', hf, hp, -⟩ := Channel.flush_prints h
  obtain ⟨calls, hg, -⟩ := Channel.flush_ok_goes hf
  have hwritten : c'.bytesWritten = c.bytesWritten := hg.written
  have haccepted := Channel.accepted_close hp.steady
  rw [hp.output, List.append_nil] at haccepted
  constructor
  · cases fault? <;> simp only [conclude, hf, outcome, hp.bytesRead, hwritten]
  · cases fault? <;> simpa only [conclude, hf] using haccepted

namespace Job

open Reader (Carry)

variable {j : Job} {config : Config} {ends ends' : Endpoints}

/-- Runs that end side by side have the same outcome, and have put out the same. -/
theorem outcome_eq {S : List Arrival → List Arrival → Prop} {fuel fuel' : Nat} {e e' : Ending}
    (h : j.execute fuel (entry config ends) = some e)
    (h' : j.execute fuel' (entry config ends') = some e')
    (hb : e.Beside S ⟨ends.sink.accepted.toList, ends'.sink.accepted.toList, 0, 0⟩ e') :
    e.machine.outcome = e'.machine.outcome ∧ ∃ out,
      e.machine.world.channel.output = ends.sink.accepted.toList ++ out
        ∧ e'.machine.world.channel.output = ends'.sink.accepted.toList ++ out := by
  obtain ⟨-, htape, -, hsteps, hc⟩ := hb
  obtain ⟨calls, hg⟩ := goes_execute h
  obtain ⟨calls', hg'⟩ := goes_execute h'
  obtain ⟨out, ho, ho'⟩ := hc.output
  -- what either has put out is what it has written, so the writes are the same
  have hout := List.append_cancel_left (hg.output_of_start.symm.trans ho)
  have hout' := List.append_cancel_left (hg'.output_of_start.symm.trans ho')
  have hwritten := hg.written
  have hwritten' := hg'.written
  rw [hout] at hwritten
  rw [hout'] at hwritten'
  have hcount : e.machine.world.channel.bytesWritten = e'.machine.world.channel.bytesWritten :=
    hwritten.trans hwritten'.symm
  refine ⟨?_, out, ho, ho'⟩
  simp only [outcome, htape, hsteps, hc.bytesRead, hcount, Nat.add_zero]

/-- Two machines that are to read the same come to an end together, side by side. -/
theorem execute_alike {d : Apart} {a b : Machine} (j : Job) (h : a.Beside Carry d b) :
    ((∃ fuel e, j.execute fuel a = some e) ↔ ∃ fuel e, j.execute fuel b = some e)
    ∧ ∀ fuel fuel' e e', j.execute fuel a = some e → j.execute fuel' b = some e' →
      e.Beside Carry d e' := by
  rcases j.balanced_or_failed with hj | ⟨f, -, hf⟩
  · simp only [execute_of_balanced hj]
    have hsim := (j.ordered hj).simulates_of_agree (fun _ _ => Carry.agree) d
    refine ⟨⟨?_, ?_⟩, fun fuel fuel' e e' he he' => ?_⟩
    · rintro ⟨fuel, e, he⟩
      obtain ⟨e', ⟨fuel', he'⟩, -⟩ := hsim.ends_of_ends' h ⟨fuel, he⟩
      exact ⟨fuel', e', he'⟩
    · rintro ⟨fuel, e', he'⟩
      obtain ⟨e, ⟨fuel', he⟩, -⟩ := hsim.ends_of_ends h ⟨fuel, he'⟩
      exact ⟨fuel', e, he⟩
    · obtain ⟨e'', he'', hbeside⟩ := hsim.ends_of_ends' h ⟨fuel, he⟩
      rwa [ends_unique ⟨fuel', he'⟩ he'']
  · simp only [hf]
    refine ⟨⟨fun _ => ⟨0, _, rfl⟩, fun _ => ⟨0, _, rfl⟩⟩, fun fuel fuel' e e' he he' => ?_⟩
    cases he
    cases he'
    exact ⟨rfl, h⟩

/-- The same bytes arrive in any pieces, with interruptions anywhere, and sinks that never fail take
what is put out in any pieces: the runs of a job come to an end together, with the same outcome or
the same fault, and the sinks have taken the same. -/
theorem runs_alike (j : Job) (config : Config) (hr : ends.reader.Fluent)
    (hr' : ends'.reader.Fluent) (hbytes : ends.reader.remaining = ends'.reader.remaining)
    (hs : ends.sink.Steady) (hs' : ends'.sink.Steady) :
    ((∃ fuel r, j.run fuel config ends = some r) ↔ ∃ fuel r, j.run fuel config ends' = some r)
    ∧ ∀ fuel fuel' completion completion' e e',
      j.run fuel config ends = some (completion, e) →
      j.run fuel' config ends' = some (completion', e') →
      completion = completion' ∧ ∃ out,
        e.sink.accepted.toList = ends.sink.accepted.toList ++ out
          ∧ e'.sink.accepted.toList = ends'.sink.accepted.toList ++ out := by
  have hentry : (entry config ends).Beside Carry
      ⟨ends.sink.accepted.toList, ends'.sink.accepted.toList, 0, 0⟩ (entry config ends') :=
    ⟨rfl, rfl, rfl, hs, hs', ⟨hr, hr', hbytes⟩, ⟨[], rfl, rfl⟩, rfl⟩
  obtain ⟨htogether, hbeside⟩ := j.execute_alike hentry
  constructor
  · simp only [run_eq, Option.map_eq_some_iff]
    constructor
    · rintro ⟨fuel, r, e, he, -⟩
      obtain ⟨fuel', e', he'⟩ := htogether.1 ⟨fuel, e, he⟩
      exact ⟨fuel', _, e', he', rfl⟩
    · rintro ⟨fuel, r, e, he, -⟩
      obtain ⟨fuel', e', he'⟩ := htogether.2 ⟨fuel, e, he⟩
      exact ⟨fuel', _, e', he', rfl⟩
  · intro fuel fuel' completion completion' ends₁ ends₂ h h'
    rw [run_eq] at h h'
    obtain ⟨e, he, hc⟩ := Option.map_eq_some_iff.1 h
    obtain ⟨e', he', hc'⟩ := Option.map_eq_some_iff.1 h'
    have hb := hbeside fuel fuel' e e' he he'
    obtain ⟨houtcome, out, ho, ho'⟩ := outcome_eq he he' hb
    obtain ⟨hcompletion, haccepted⟩ := conclude_steady hb.2.channel.steady
    obtain ⟨hcompletion', haccepted'⟩ := conclude_steady hb.2.channel.steady'
    have hsteps : e.machine.steps = e'.machine.steps := congrArg Outcome.steps houtcome
    rw [hc] at hcompletion haccepted
    rw [hc'] at hcompletion' haccepted'
    refine ⟨?_, out, haccepted.trans ho, haccepted'.trans ho'⟩
    rw [show completion = _ from hcompletion, show completion' = _ from hcompletion', hb.1,
      houtcome, hsteps]

/-- A program that reads and echoes twice. Its bytes arrive at once, or one by one and with
interruptions; and they are taken at once, or one by one and with an interruption. -/
theorem runs_alike_echo : ∃ completion e fuel' e',
    (Job.source ⟨#[44, 46, 44, 46]⟩).run 5 ⟨1, .direct, by decide⟩ (.ofBytes [5, 6])
      = some (completion, e)
    ∧ (Job.source ⟨#[44, 46, 44, 46]⟩).run fuel' ⟨1, .direct, by decide⟩
      ⟨⟨[.failure ⟨.interrupted, "again"⟩, .bytes [5], .bytes [], .failure ⟨.interrupted, "again"⟩,
        .bytes [6]]⟩, { turns := [.interrupted, .takes 1], portion := some 1 }, #[]⟩
      = some (completion, e')
    ∧ e'.sink.accepted.toList = [5, 6] := by
  have hrun : (Job.source ⟨#[44, 46, 44, 46]⟩).run 5 ⟨1, .direct, by decide⟩ (.ofBytes [5, 6])
      = some (.finished ⟨⟨#[6], 0, by decide⟩, 4, 2, 2⟩, ⟨⟨[.bytes []]⟩, { accepted := #[5, 6] },
        #[.flushed, .read 1, .wrote 1, .flushed, .read 1, .wrote 1, .flushed]⟩) := by cbv
  have hfluent : (Endpoints.ofBytes [5, 6]).reader.Fluent := by
    simp [Reader.Fluent, Endpoints.ofBytes, Reader.ofBytes]
  have hfluent' : Reader.Fluent ⟨[.failure ⟨.interrupted, "again"⟩, .bytes [5], .bytes [],
      .failure ⟨.interrupted, "again"⟩, .bytes [6]]⟩ := by
    simp [Reader.Fluent]
  have hsteady : (Endpoints.ofBytes [5, 6]).sink.Steady :=
    Sink.Sound.steady (by constructor <;> simp [Endpoints.ofBytes])
  have hsteady' : Sink.Steady { turns := [.interrupted, .takes 1], portion := some 1 } :=
    Sink.Sound.steady (by constructor <;> simp)
  obtain ⟨htogether, hsame⟩ := @runs_alike (.ofBytes [5, 6]) ⟨_, _, #[]⟩
    (.source ⟨#[44, 46, 44, 46]⟩) ⟨1, .direct, by decide⟩ hfluent hfluent' rfl hsteady hsteady'
  obtain ⟨fuel', ⟨completion', e'⟩, hrun'⟩ := htogether.1 ⟨5, _, hrun⟩
  obtain ⟨rfl, out, hout, hout'⟩ := hsame 5 fuel' _ _ _ _ hrun hrun'
  exact ⟨_, _, fuel', e', hrun, hrun', hout'.trans hout.symm⟩

end Job

end TapeMachine
