import TapeMachine.Proofs.Beside
import TapeMachine.Proofs.Jobs

/-!
# Resuming after a failed read

A read that fails leaves the tape and the place as they were, and all output delivered. So nothing
is lost with the channel: a run that goes on from the context, on what arrives after the failure,
does what a run would have done from there that had met no failure (`Job.resume_after_failure`). Up
to the read that fails, a run with the failure and one without it are side by side; from there on,
the one that goes on and the one without the failure are.
-/

namespace TapeMachine

open Machine
open Reader (next Quiet Agree Alike)

namespace Reader

/-- Scripts that differ by a failure, behind a quiet part. -/
def Detour (f : IoFailure) (late script script' : List Arrival) : Prop :=
  ∃ early, Quiet early ∧ script = early ++ .failure f :: late ∧ script' = early ++ late

/-- Two such scripts agree until the failure is met. What is left then is as good as `late`. -/
theorem Detour.agree_or {f : IoFailure} {late script script' : List Arrival}
    (hf : f.kind ≠ .interrupted) (h : Detour f late script script') :
    (Agree (Detour f late) script script' ∧ ∀ g, (next script).1 ≠ .failure g)
      ∨ next script = (.failure f, late) ∧ Alike late script' := by
  obtain ⟨early, hq, rfl, rfl⟩ := h
  rcases Reader.next_append hq with ⟨answer, rest, hrest, hne, hn⟩ | hn
  · left
    rw [Agree, hn, hn]
    exact ⟨⟨rfl, rest, hrest, rfl, rfl⟩, hne⟩
  · right
    refine ⟨?_, (hn late).symm⟩
    rw [hn, next, if_neg hf]

end Reader

namespace Machine.Ordered

variable {engine : Machine → Step} {reads : Nat → Prop} {f : IoFailure} {late : List Arrival}
  {d : Apart}

/-- Up to the read that fails, the failure makes no difference. -/
theorem takes_to_failure (ho : Ordered engine reads) (hf : f.kind ≠ .interrupted) :
    ∀ {fuel : Nat} {a b m : Machine}, a.Beside (Reader.Detour f late) d b →
    run engine fuel a = some ⟨some (.io f), m⟩ → ∃ n a' b', Takes engine n a a' ∧
      Takes engine n b b' ∧ a'.Beside (Reader.Detour f late) d b' ∧ engine a' = .failed (.io f) m
  | 0, _, _, _, _, hr => by cases hr
  | fuel + 1, a, b, m, h, hr => by
    rw [run] at hr
    split at hr
    · rename_i a₁ ha
      have hstep := ho.beside h fun pc hin => by
        rcases Reader.Detour.agree_or hf h.channel.script with ⟨hagree, -⟩ | ⟨hn, -⟩
        · exact hagree
        · -- a read that met the failure would not have gone on
          obtain ⟨m', hm⟩ := act_input_failed h.channel.steady (congrArg Prod.fst hn) pc
          rw [← hin, ha] at hm
          cases hm
      rw [ha] at hstep
      generalize hb : engine b = y at hstep
      cases hstep with
      | next h₁ =>
        obtain ⟨n, a', b', hta, htb, h', hm⟩ := takes_to_failure ho hf h₁ hr
        exact ⟨n + 1, a', b', ⟨_, ha, hta⟩, ⟨_, hb, htb⟩, h', hm⟩
    · cases hr
    · rename_i ha
      cases hr
      exact ⟨0, a, b, rfl, rfl, h, ha⟩

/-- The read that fails leaves all but the script and the count of steps as they were, and what is
to arrive is as good as what the other machine is to read. -/
theorem failed_detour (ho : Ordered engine reads) (hf : f.kind ≠ .interrupted) {a b m : Machine}
    (h : a.Beside (Reader.Detour f late) d b) (hfail : engine a = .failed (.io f) m) :
    reads a.pc ∧ m.script = late ∧ Alike late b.script ∧
      ∃ c, a.world.channel.Awaits c ∧ m = ⟨⟨a.world.tape, c⟩, a.pc, a.steps + 1⟩ := by
  obtain ⟨hreads, hanswer, c, hc, rfl⟩ := ho.failed_io h.channel.steady hfail
  obtain ⟨-, hne⟩ | ⟨hnext, halike⟩ := Reader.Detour.agree_or hf h.channel.script
  · exact absurd hanswer (hne f)
  · refine ⟨hreads, ?_, halike, c, hc, rfl⟩
    rw [script, hc.script, hnext]

end Machine.Ordered

/-- With a new channel, a machine that stands where another does goes on beside it. -/
theorem Machine.Beside.resumed {S : List Arrival → List Arrival → Prop} {d : Apart} {a b : Machine}
    (h : a.Beside S d b) {late : List Arrival} (hlate : Alike late b.script) {sink : Sink}
    (hs : sink.Steady) (log : Array Call) :
    (ofContext ⟨a.world.tape, a.pc, a.steps + 1⟩ { ends := ⟨⟨late⟩, sink, log⟩ }).Beside Alike
      ⟨sink.accepted.toList, b.world.channel.output, b.world.channel.bytesRead, d.steps + 1⟩ b where
  tape := h.tape
  pc := h.pc
  steps := congrArg (· + 1) h.steps
  channel := ⟨hs, h.channel.steady', hlate, ⟨[], rfl, (List.append_nil _).symm⟩,
    (Nat.zero_add _).symm⟩

namespace Job

/-- How a run stands that a failed read has stopped. -/
structure Stopped (j : Job) (fuel : Nat) (start m : Machine) (f : IoFailure)
    (late : List Arrival) : Prop where
  /-- The read has left the tape and the place as it found them. -/
  failed : ∃ n a, Takes j.engine n start a ∧ j.engine a = .failed (.io f) m
    ∧ m.world.tape = a.world.tape ∧ m.pc = a.pc
  reads : j.Reads m.pc
  delivered : m.world.channel.ends.sink.accepted.toList
    = start.world.channel.ends.sink.accepted.toList ++ j.written fuel start
  pending : m.world.channel.pending = #[]
  script : m.script = late

end Job

/-- What was done until the run was stopped at `m`, and then by the run that went on and ended with
`e`, is what was done by the run that was not stopped and ended with `e'`. Their sinks were `sink`,
`sink'` and `sink''`. -/
structure Ending.Completes (sink sink' sink'' : Sink) (m : Machine) (e e' : Ending) : Prop where
  fault : e.fault? = e'.fault?
  tape : e.machine.world.tape = e'.machine.world.tape
  pc : e.machine.pc = e'.machine.pc
  /-- The read that failed was counted, and so was the one that was made in its place. -/
  steps : e.machine.steps = e'.machine.steps + 1
  bytesRead : m.world.channel.bytesRead + e.machine.world.channel.bytesRead
    = e'.machine.world.channel.bytesRead
  output : ∃ out out',
    m.world.channel.close.sink.accepted.toList = sink.accepted.toList ++ out
    ∧ e.machine.world.channel.close.sink.accepted.toList = sink'.accepted.toList ++ out'
    ∧ e'.machine.world.channel.close.sink.accepted.toList
      = sink''.accepted.toList ++ (out ++ out')

/-- The run that went on put out what the one without the failure put out from there. -/
theorem Ending.completes {S T : List Arrival → List Arrival → Prop} {a b m : Machine}
    {e e' : Ending} {sink sink' sink'' : Sink}
    (hab : Channel.Beside S ⟨sink.accepted.toList, sink''.accepted.toList, 0, 0⟩ a.world.channel
      b.world.channel)
    (hm : a.world.channel.Awaits m.world.channel)
    (he : Ending.Beside T ⟨sink'.accepted.toList, b.world.channel.output,
      b.world.channel.bytesRead, 1⟩ e e') : Completes sink sink' sink'' m e e' := by
  obtain ⟨hfault, hend⟩ := he
  obtain ⟨out, ho, ho'⟩ := hab.output
  obtain ⟨out', hmore, hmore'⟩ := hend.channel.output
  refine ⟨hfault, hend.tape, hend.pc, hend.steps, ?_, out, out', ?_, ?_, ?_⟩
  · rw [hend.channel.bytesRead, hm.bytesRead, hab.bytesRead, Nat.add_zero, Nat.add_comm]
  · rw [Channel.accepted_close hm.steady, hm.output, ho]
  · rw [Channel.accepted_close hend.channel.steady, hmore]
  · rw [Channel.accepted_close hend.channel.steady', hmore', ho', List.append_assoc]

namespace Job

/-- A read fails, as the first that does, and stops the run. The tape and the place are then what
they were before that read, an instruction that reads stands there, and all output was delivered.
A run that goes on from the context, with what is to arrive after the failure, comes to an end if
and only if a run does for which there was no failure; and then it brings the same about, in one
step more. -/
theorem resume_after_failure {j : Job} (hj : j.Balanced) (context : Context)
    {early late : List Arrival} {f : IoFailure} (hearly : Quiet early)
    (hf : f.kind ≠ .interrupted) {sink sink' sink'' : Sink} (hs : sink.Steady)
    (hs' : sink'.Steady) (hs'' : sink''.Steady) (log log' log'' : Array Call) {fuel : Nat}
    {m : Machine} :
    let start := ofContext context { ends := ⟨⟨early ++ .failure f :: late⟩, sink, log⟩ }
    let again := ofContext m.context { ends := ⟨⟨late⟩, sink', log'⟩ }
    let whole := ofContext context { ends := ⟨⟨early ++ late⟩, sink'', log''⟩ }
    j.execute fuel start = some ⟨some (.io f), m⟩ →
      j.Stopped fuel start m f late
      ∧ ((∃ fuel e, j.execute fuel again = some e) ↔ ∃ fuel e, j.execute fuel whole = some e)
      ∧ ∀ fuel fuel' e e', j.execute fuel again = some e → j.execute fuel' whole = some e' →
        Ending.Completes sink sink' sink'' m e e' := by
  intro start again whole h
  obtain ⟨calls, hgoes⟩ := goes_execute h
  simp only [execute_of_balanced hj] at h ⊢
  have ho := j.ordered hj
  have hbegin : start.Beside (Reader.Detour f late)
      ⟨sink.accepted.toList, sink''.accepted.toList, 0, 0⟩ whole :=
    ⟨rfl, rfl, rfl, hs, hs'', ⟨early, hearly, rfl, rfl⟩, ⟨[], rfl, rfl⟩, rfl⟩
  -- the run without the failure comes to the read that fails, and from there the one that goes on
  -- is beside it
  obtain ⟨n, a, b, hta, htb, hab, hfail⟩ := ho.takes_to_failure hf hbegin h
  obtain ⟨hreads, hscript, halike, c, hc, rfl⟩ := ho.failed_detour hf hab hfail
  have hagain := hab.resumed halike hs' log'
  have hsim := ho.simulates ⟨sink'.accepted.toList, b.world.channel.output,
    b.world.channel.bytesRead, 1⟩
  refine ⟨⟨⟨n, a, hta, hfail, rfl, rfl⟩, hreads, ?_, hc.pending, hscript⟩, ⟨?_, ?_⟩, ?_⟩
  · have hout := hgoes.output_eq
    simpa [Channel.output, hc.pending, start, ofContext] using hout
  · rintro ⟨fuel, e, he⟩
    obtain ⟨e', he', -⟩ := hsim.ends_of_ends' hagain ⟨fuel, he⟩
    obtain ⟨fuel', he'⟩ := htb.ends_iff.2 he'
    exact ⟨fuel', e', he'⟩
  · rintro ⟨fuel, e, he⟩
    obtain ⟨e', ⟨fuel', he'⟩, -⟩ := hsim.ends_of_ends hagain (htb.ends_iff.1 ⟨fuel, he⟩)
    exact ⟨fuel', e', he'⟩
  · intro fuel fuel' e e' he he'
    obtain ⟨e'', he'', hend⟩ := hsim.ends_of_ends' hagain ⟨fuel, he⟩
    obtain rfl := ends_unique (htb.ends_iff.2 he'') ⟨fuel', he'⟩
    exact Ending.completes hab.channel hc hend

/-- A program that reads, echoes and reads again. Its second read fails at first, and the first one
is interrupted. -/
theorem resume_after_failure_echo : ∃ m e e',
    (Job.source ⟨#[44, 46, 44]⟩).execute 3 (ofContext ⟨.blank 1 (by decide), 0, 0⟩
        { ends := ⟨⟨[.failure ⟨.interrupted, "again"⟩, .bytes [5], .failure ⟨.brokenPipe, "gone"⟩,
          .bytes [7]]⟩, {}, #[]⟩ }) = some ⟨some (.io ⟨.brokenPipe, "gone"⟩), m⟩
    ∧ (Job.source ⟨#[44, 46, 44]⟩).execute 2 (ofContext m.context
        { ends := ⟨⟨[.bytes [7]]⟩, {}, #[]⟩ }) = some e
    ∧ (Job.source ⟨#[44, 46, 44]⟩).execute 4 (ofContext ⟨.blank 1 (by decide), 0, 0⟩
        { ends := ⟨⟨[.failure ⟨.interrupted, "again"⟩, .bytes [5], .bytes [7]]⟩, {}, #[]⟩ })
      = some e'
    ∧ Ending.Completes {} {} {} m e e' := by
  have hm : (Job.source ⟨#[44, 46, 44]⟩).execute 3 (ofContext ⟨.blank 1 (by decide), 0, 0⟩
        { ends := ⟨⟨[.failure ⟨.interrupted, "again"⟩, .bytes [5], .failure ⟨.brokenPipe, "gone"⟩,
          .bytes [7]]⟩, {}, #[]⟩ })
      = some ⟨some (.io ⟨.brokenPipe, "gone"⟩), ⟨⟨⟨#[5], 0, by decide⟩,
        ⟨⟨⟨[.bytes [7]]⟩, { accepted := #[5] },
          #[.flushed, .readInterrupted, .read 1, .wrote 1, .flushed, .readFailed]⟩, #[], 1, 1⟩⟩,
        2, 3⟩⟩ := by cbv
  have he : (Job.source ⟨#[44, 46, 44]⟩).execute 2 (ofContext ⟨⟨#[5], 0, by decide⟩, 2, 3⟩
        { ends := ⟨⟨[.bytes [7]]⟩, {}, #[]⟩ })
      = some ⟨none, ⟨⟨⟨#[7], 0, by decide⟩, ⟨⟨⟨[.bytes []]⟩, {}, #[.flushed, .read 1]⟩, #[], 1, 0⟩⟩,
        3, 4⟩⟩ := by cbv
  have he' : (Job.source ⟨#[44, 46, 44]⟩).execute 4 (ofContext ⟨.blank 1 (by decide), 0, 0⟩
        { ends := ⟨⟨[.failure ⟨.interrupted, "again"⟩, .bytes [5], .bytes [7]]⟩, {}, #[]⟩ })
      = some ⟨none, ⟨⟨⟨#[7], 0, by decide⟩,
        ⟨⟨⟨[.bytes []]⟩, { accepted := #[5] },
          #[.flushed, .readInterrupted, .read 1, .wrote 1, .flushed, .read 1]⟩, #[], 2, 1⟩⟩,
        3, 3⟩⟩ := by cbv
  have hbalanced : (Job.source ⟨#[44, 46, 44]⟩).Balanced := by
    unfold Balanced
    cbv
  have hsteady : ({} : Sink).Steady := Sink.Sound.steady (by constructor <;> simp)
  have hquiet : Quiet [.failure ⟨.interrupted, "again"⟩, .bytes [5]] := by simp [Quiet]
  have hresume := resume_after_failure hbalanced ⟨.blank 1 (by decide), 0, 0⟩ hquiet (by decide)
    hsteady hsteady hsteady #[] #[] #[] hm
  exact ⟨_, _, _, hm, he, he', hresume.2.2 2 4 _ _ he he'⟩

end Job

end TapeMachine
