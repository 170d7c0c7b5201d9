import TapeMachine.Proofs.Attempts
import TapeMachine.Proofs.Equivalence

/-!
# Interaction

An engine uses its channel for what its instructions ask, one operation after the other, and for
nothing else; an operation that fails ends the run (`Machine.Asks`). So what a run has done to its
channel by any time is a row of exchanges, of which only the last one may have failed
(`Machine.Asks.channel_progress`, `Machine.Asks.eq_nil_of_error`). In the log of a run every
attempt to read comes after a flush, and finds the sink with all that the program has written
(`reads_follow_flushes`).
-/

namespace TapeMachine

open Channel (Operation Exchange exchanges afterAll Goes)

/-- What an action asks of the channel. -/
def Action.asks? (w : World) : Action → Option Operation
  | output => some (.write w.tape.current)
  | input => some .read
  | _ => none

def Source.asks? (s : Source) (m : Machine) : Option Operation :=
  match s.bytes[m.pc]?.bind Symbol.ofByte? with
  | some .output => Action.output.asks? m.world
  | some .input => Action.input.asks? m.world
  | _ => none

def Program.asks? (p : Program) (m : Machine) : Option Operation :=
  match p.opcode? m.pc with
  | some (.act a) => a.asks? m.world
  | _ => none

namespace Step

def machine : Step → Machine
  | next m | halted m | failed _ m => m

/-- The step goes on if the channel did what it was asked, and fails if the channel failed. -/
def Heeds (step : Step) : Channel.Result Unit → Prop
  | .ok _ c => ∃ m, step = .next m ∧ m.world.channel = c
  | .error f c => ∃ m, step = .failed (.io f) m ∧ m.world.channel = c

end Step

namespace Machine

/-- The engine uses the channel for what is asked, and for nothing else. -/
structure Asks (engine : Machine → Step) (asks? : Machine → Option Operation) : Prop where
  quiet : ∀ m, asks? m = none → (engine m).machine.world.channel = m.world.channel
  heeds : ∀ m op, asks? m = some op → (engine m).Heeds (m.world.channel.operate op)

theorem act_quiet {a : Action} {m : Machine} (h : a.asks? m.world = none) (pc : Nat) :
    (m.act a pc).machine.world.channel = m.world.channel := by
  cases a with
  | add n => rfl
  | sub n => rfl
  | clear => rfl
  | right n =>
    simp only [act, World.perform, World.move]
    cases m.world.tape.right n <;> rfl
  | left n =>
    simp only [act, World.perform, World.move]
    cases m.world.tape.left n <;> rfl
  | output => cases h
  | input => cases h

theorem act_heeds {a : Action} {m : Machine} {op : Operation} (h : a.asks? m.world = some op)
    (pc : Nat) : (m.act a pc).Heeds (m.world.channel.operate op) := by
  cases a <;> cases h
  · simp only [act, World.perform, World.output, Channel.operate]
    rcases m.world.channel.writeByte m.world.tape.current with ⟨_, c⟩ | ⟨f, c⟩
    · exact ⟨_, rfl, rfl⟩
    · exact ⟨_, rfl, rfl⟩
  · simp only [act, World.perform, World.input, Channel.operate]
    rcases m.world.channel.readByte with ⟨b, c⟩ | ⟨f, c⟩
    · exact ⟨_, rfl, rfl⟩
    · exact ⟨_, rfl, rfl⟩

end Machine

open Machine

theorem Program.asks (p : Program) : Asks p.step p.asks? := by
  constructor
  · intro m h
    rcases hop : p.opcode? m.pc with _ | a | t | t
    · rw [step_halted (size_le_of_opcode? hop)]
      rfl
    · rw [step_act hop]
      simp only [asks?, hop] at h
      exact act_quiet h _
    · rw [step_loopStart hop]
      rfl
    · rw [step_loopEnd hop]
      rfl
  · intro m op h
    unfold asks? at h
    split at h
    · rename_i a hop
      rw [step_act hop]
      exact act_heeds h _
    · cases h

theorem Source.asks (s : Source) : Asks s.step s.asks? := by
  constructor
  · intro m h
    unfold step
    split
    · rename_i hlt
      simp only [asks?, Array.getElem?_eq_getElem hlt, Option.bind_some] at h
      split <;> rename_i hb <;> simp only [hb] at h
      · rfl
      · exact act_quiet rfl _
      · exact act_quiet rfl _
      · exact act_quiet rfl _
      · exact act_quiet rfl _
      · cases h
      · cases h
      · repeat' split
        all_goals rfl
      · repeat' split
        all_goals rfl
    · rfl
  · intro m op h
    unfold asks? at h
    split at h
    · rename_i hb
      obtain ⟨b, hget, hb⟩ := Option.bind_eq_some_iff.1 hb
      rw [Symbol.ofByte?_eq_some_iff.1 hb] at hget
      rw [step_output hget]
      exact act_heeds h _
    · rename_i hb
      obtain ⟨b, hget, hb⟩ := Option.bind_eq_some_iff.1 hb
      rw [Symbol.ofByte?_eq_some_iff.1 hb] at hget
      rw [step_input hget]
      exact act_heeds h _
    · cases h

/-- How far a run has come, and what it has asked of the channel on the way. -/
structure Progress where
  machine : Machine
  asked : List Operation

namespace Machine

/-- At most `fuel` steps of an engine, whether they bring it to an end or not. -/
def progress (engine : Machine → Step) (asks? : Machine → Option Operation) :
    (fuel : Nat) → Machine → Progress
  | 0, m => ⟨m, []⟩
  | fuel + 1, m =>
    match engine m with
    | .next m' =>
      let r := progress engine asks? fuel m'
      ⟨r.machine, (asks? m).toList ++ r.asked⟩
    | .halted m' | .failed _ m' => ⟨m', (asks? m).toList⟩

variable {engine : Machine → Step} {asks? : Machine → Option Operation}

theorem machine_progress : ∀ {fuel : Nat} {m : Machine} {e : Ending},
    run engine fuel m = some e → (progress engine asks? fuel m).machine = e.machine
  | 0, m, e, h => by cases h
  | fuel + 1, m, e, h => by
    rcases hs : engine m with m' | m' | ⟨f, m'⟩ <;> simp only [run, hs] at h <;>
      simp only [progress, hs]
    · exact machine_progress h
    · cases h
      rfl
    · cases h
      rfl

namespace Asks

variable (h : Asks engine asks?)

include h

theorem channel_step (m : Machine) :
    (engine m).machine.world.channel = m.world.channel.afterAll (asks? m).toList := by
  rcases ha : asks? m with _ | op
  · exact h.quiet m ha
  · have hh := h.heeds m op ha
    have hafter : m.world.channel.afterAll [op] = (m.world.channel.operate op).channel := rfl
    rw [Option.toList_some, hafter]
    rcases hop : m.world.channel.operate op with ⟨_, c⟩ | ⟨f, c⟩ <;> rw [hop] at hh
    · obtain ⟨m', hs, hc⟩ := hh
      rw [hs]
      exact hc
    · obtain ⟨m', hs, hc⟩ := hh
      rw [hs]
      exact hc

theorem channel_progress : ∀ (fuel : Nat) (m : Machine),
    (progress engine asks? fuel m).machine.world.channel
      = m.world.channel.afterAll (progress engine asks? fuel m).asked
  | 0, m => rfl
  | fuel + 1, m => by
    have hstep := h.channel_step m
    rw [progress]
    split <;> rename_i m' hm <;> rw [hm] at hstep
    · simp only [Channel.afterAll_append, ← hstep]
      exact channel_progress fuel m'
    · exact hstep
    · exact hstep

theorem ne_next_of_error {m : Machine} {x : Exchange} {f : IoFailure} {c : Channel}
    (hx : x ∈ exchanges m.world.channel (asks? m).toList) (hf : x.result = .error f c)
    (m' : Machine) : engine m ≠ .next m' := by
  rcases ha : asks? m with _ | op <;> rw [ha] at hx
  · cases hx
  · obtain rfl := List.mem_singleton.1 hx
    have hheeds : (engine m).Heeds (.error f c) := hf ▸ h.heeds m op ha
    obtain ⟨_, hm, -⟩ := hheeds
    rw [hm]
    nofun

/-- Nothing is asked after a failure. -/
theorem eq_nil_of_error : ∀ {fuel : Nat} {m : Machine} {before after : List Exchange} {x : Exchange}
    {f : IoFailure} {c : Channel},
    exchanges m.world.channel (progress engine asks? fuel m).asked = before ++ x :: after →
    x.result = .error f c → after = []
  | 0, m, before, after, x, f, c, hx, _ => by simp [progress, exchanges] at hx
  | fuel + 1, m, before, after, x, f, c, hx, hf => by
    have hstep := h.channel_step m
    have hlast : exchanges m.world.channel (asks? m).toList = before ++ x :: after →
        after = [] := by
      intro hx
      have hone := Channel.length_exchanges (asks? m).toList m.world.channel
      have hle := (asks? m).length_toList_le
      rw [hx, List.length_append, List.length_cons] at hone
      exact List.length_eq_zero_iff.1 (by omega)
    rcases hs : engine m with m' | m' | ⟨g, m'⟩ <;> simp only [progress, hs] at hx
    · rw [Channel.exchanges_append, ← hstep, hs] at hx
      rcases List.append_eq_append_iff.1 hx with ⟨d, rfl, hd⟩ | ⟨d, hd, hd'⟩
      · exact eq_nil_of_error hd hf
      cases d with
      | nil =>
        have hrest : exchanges m'.world.channel (progress engine asks? fuel m').asked
            = [] ++ x :: after := hd'.symm
        exact eq_nil_of_error hrest hf
      | cons y d =>
        obtain ⟨rfl, -⟩ := List.cons.inj hd'
        exact absurd hs (h.ne_next_of_error (by simp [hd]) hf m')
    · exact hlast hx
    · exact hlast hx

end Asks

end Machine

def Source.progress (s : Source) (fuel : Nat) (m : Machine) : Progress :=
  match s.checkBalance with
  | .error _ => ⟨m, []⟩
  | .ok _ => Machine.progress s.step s.asks? fuel m

def Program.progress (p : Program) (fuel : Nat) (m : Machine) : Progress :=
  Machine.progress p.step p.asks? fuel m

/-- What a run does before it reads. The run has come as far as `r` says, and has the result `done?`
if it has one. -/
structure FlushesFirst (ends : Endpoints) (r : Progress) (done? : Option (Completion × Endpoints)) :
    Prop where
  channel : r.machine.world.channel = afterAll { ends } r.asked
  /-- Only the last exchange may have failed. -/
  last : ∀ before x after f c, exchanges { ends } r.asked = before ++ x :: after →
    x.result = .error f c → after = []
  /-- An attempt to read comes after a flush, or after an interrupted attempt of its exchange. -/
  guarded : ∀ x ∈ exchanges { ends } r.asked, Call.Guarded x.calls
  /-- By an attempt to read, the sink has taken all that was written. -/
  delivered : ∀ before x after a call b, exchanges { ends } r.asked = before ++ x :: after →
    x.calls = a ++ call :: b → call.isRead →
    Call.takenIn (before.flatMap Exchange.calls ++ a) = (before.flatMap Exchange.output).length
      ∧ x.after.ends.sink.accepted.toList
        = ends.sink.accepted.toList ++ before.flatMap Exchange.output
  /-- If the flush before a read fails, nothing is read, then or later. -/
  refused : ∀ before x after f c, exchanges { ends } r.asked = before ++ x :: after →
    x.operation = .read → x.before.flush = .error f c →
    (∀ call ∈ x.calls, ¬ call.isRead) ∧ x.after.ends.reader = x.before.ends.reader ∧ after = []
  log : r.machine.world.channel.ends.log.toList
        = ends.log.toList ++ (exchanges { ends } r.asked).flatMap Exchange.calls
      ∧ Call.Guarded ((exchanges { ends } r.asked).flatMap Exchange.calls)
  /-- The end of a run adds calls, and none that reads. -/
  ending : ∀ completion e, done? = some (completion, e) → ∃ rest,
    e.log.toList
        = ends.log.toList ++ ((exchanges { ends } r.asked).flatMap Exchange.calls ++ rest)
      ∧ Call.Guarded ((exchanges { ends } r.asked).flatMap Exchange.calls ++ rest)
      ∧ (∀ call ∈ rest, ¬ call.isRead) ∧ e.reader = r.machine.world.channel.ends.reader

theorem ends_conclude (e : Ending) :
    (conclude e).2 = e.machine.world.channel.flush.channel.close := by
  obtain ⟨fault?, ⟨⟨tape, channel⟩, pc, steps⟩⟩ := e
  rcases hc : channel.flush with ⟨_, c⟩ | ⟨f, c⟩ <;> simp only [conclude, hc] <;> rfl

theorem flushesFirst_of_asked {ends : Endpoints} {r : Progress}
    {done? : Option (Completion × Endpoints)}
    (hchannel : r.machine.world.channel = afterAll { ends } r.asked)
    (hlast : ∀ before x after f c, exchanges { ends } r.asked = before ++ x :: after →
      x.result = .error f c → after = [])
    (hdone : ∀ completion e, done? = some (completion, e) →
      ∃ fault?, conclude ⟨fault?, r.machine⟩ = (completion, e)) : FlushesFirst ends r done? where
  channel := hchannel
  last := hlast
  guarded := fun x _ => x.guarded_calls
  delivered := fun _ _ _ _ _ _ hxs hc hr => Channel.delivered_of_isRead hxs hc hr
  refused := by
    rintro before ⟨op, c⟩ after f c' hxs rfl hflush
    obtain ⟨hq, hr, hresult⟩ := Exchange.read_refused hflush
    exact ⟨hq, hr, hlast _ _ _ _ _ hxs hresult⟩
  log := by
    rw [hchannel]
    exact ⟨(Channel.goes_exchanges r.asked { ends }).log, Exchange.guarded_flatMap _⟩
  ending := by
    intro completion e hd
    obtain ⟨fault?, hc⟩ := hdone completion e hd
    obtain ⟨rest, hl, hq, hr⟩ := r.machine.world.channel.close_flush
    have hends : e = r.machine.world.channel.flush.channel.close := by
      rw [← ends_conclude ⟨fault?, r.machine⟩, hc]
    have hg := Channel.goes_exchanges r.asked { ends }
    rw [hends, hl, hr, hchannel, hg.log, List.append_assoc]
    have hguarded := (Exchange.guarded_flatMap (exchanges { ends } r.asked)).append
      (Call.guarded_of_not_isRead hq)
    exact ⟨rest, rfl, hguarded, hq, rfl⟩

theorem Machine.Asks.flushesFirst {engine : Machine → Step} {asks? : Machine → Option Operation}
    (h : Asks engine asks?) (config : Config) (ends : Endpoints) (fuel : Nat) :
    FlushesFirst ends (Machine.progress engine asks? fuel (entry config ends))
      (conduct (Machine.run engine fuel) config ends) := by
  refine flushesFirst_of_asked (h.channel_progress fuel _) ?_ ?_
  · exact fun _ _ _ _ _ hxs hf => h.eq_nil_of_error (m := entry config ends) hxs hf
  · intro completion e hd
    obtain ⟨⟨fault?, m⟩, hrun, hc⟩ := Option.map_eq_some_iff.1 hd
    have hm : (Machine.progress engine asks? fuel (entry config ends)).machine = m :=
      machine_progress hrun
    exact ⟨fault?, by rw [hm, hc]⟩

/-- Whatever a program does and however its endpoints fail, a run reads only right after a flush
that went well, or again after an attempt that was interrupted; what the program has written by then
is all with the sink; and if the flush fails, nothing is read. It is so at any time of a run, be it
one that never ends. -/
theorem reads_follow_flushes (config : Config) (ends : Endpoints) (fuel : Nat) :
    (∀ s : Source, FlushesFirst ends (s.progress fuel (entry config ends))
      (s.run fuel config ends))
    ∧ ∀ p : Program, FlushesFirst ends (p.progress fuel (entry config ends))
      (p.run fuel config ends) := by
  refine ⟨fun s => ?_, fun p => p.asks.flushesFirst config ends fuel⟩
  rcases hb : s.checkBalance with f | _
  · have hrun : s.run fuel config ends = some (conclude ⟨some f, entry config ends⟩) := by
      simp only [Source.run, conduct, Source.execute, hb, Option.map_some, entry]
    have hasked : s.progress fuel (entry config ends) = ⟨entry config ends, []⟩ := by
      simp only [Source.progress, hb]
    rw [hasked, hrun]
    refine flushesFirst_of_asked rfl ?_ fun completion e hd => ⟨some f, Option.some.inj hd⟩
    intro before x after _ _ hxs
    simp [exchanges] at hxs
  · have hrun : s.run fuel config ends = conduct (Machine.run s.step fuel) config ends := by
      simp only [Source.run, conduct, Source.execute, hb]
    have hasked : s.progress fuel (entry config ends)
        = Machine.progress s.step s.asks? fuel (entry config ends) := by
      simp only [Source.progress, hb]
    rw [hasked, hrun]
    exact s.asks.flushesFirst config ends fuel

/-- What was written goes out before the reader is asked. -/
example : ((⟨#[46, 44]⟩ : Source).run 3 ⟨1, .direct, by decide⟩ (.ofBytes [7])).map (·.2.log)
    = some #[.wrote 1, .flushed, .read 1, .flushed] := by cbv

end TapeMachine
