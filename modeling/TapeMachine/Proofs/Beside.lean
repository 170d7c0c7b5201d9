import TapeMachine.Proofs.Orders
import TapeMachine.Proofs.Running
import TapeMachine.Proofs.Steady

/-!
# Machines side by side

Two machines over steady sinks stand side by side if they have the same tape and the same place, and
have put out the same since some moment. They do the same as long as their readers answer the same
(`Machine.Ordered.beside`): neither the logs, the buffers and the sinks nor what was counted or put
out before makes a difference. If the readers always do, the two come to an end together.
-/

namespace TapeMachine

open Reader (next)

/-- How far two machines are apart. -/
structure Apart where
  /-- What the first put out before they did the same. -/
  out : List UInt8
  /-- What the second put out before that. -/
  out' : List UInt8
  /-- How many bytes the second has read that the first has not. -/
  read : Nat
  /-- How many steps the first has counted that the second has not. -/
  steps : Nat

/-- Both scripts give the same answer now, and what they leave is in `S`. -/
def Reader.Agree (S : List Arrival → List Arrival → Prop) (script script' : List Arrival) : Prop :=
  (next script).1 = (next script').1 ∧ S (next script).2 (next script').2

/-- Scripts that give the same answers for good. -/
def Reader.Alike (script script' : List Arrival) : Prop := next script = next script'

theorem Reader.Alike.agree {script script' : List Arrival} (h : Alike script script') :
    Agree Alike script script' :=
  ⟨congrArg Prod.fst h, congrArg (next ∘ Prod.snd) h⟩

variable {S : List Arrival → List Arrival → Prop} {d : Apart}

namespace Channel

/-- What has gone through two channels over steady sinks differs by `d`. -/
structure Beside (S : List Arrival → List Arrival → Prop) (d : Apart) (c c' : Channel) : Prop where
  steady : c.Steady
  steady' : c'.Steady
  script : S c.ends.reader.script c'.ends.reader.script
  output : ∃ out, c.output = d.out ++ out ∧ c'.output = d.out' ++ out
  bytesRead : c'.bytesRead = c.bytesRead + d.read

namespace Beside

variable {c c' : Channel}

theorem writeByte (h : Beside S d c c') (b : UInt8) : ∃ c₁ c₁',
    c.writeByte b = .ok () c₁ ∧ c'.writeByte b = .ok () c₁' ∧ Beside S d c₁ c₁' := by
  obtain ⟨c₁, hw, hp⟩ := writeByte_prints h.steady b
  obtain ⟨c₁', hw', hp'⟩ := writeByte_prints h.steady' b
  refine ⟨c₁, c₁', hw, hw', hp.steady, hp'.steady, ?_, ?_, ?_⟩
  · rw [hp.reader, hp'.reader]
    exact h.script
  · obtain ⟨out, ho, ho'⟩ := h.output
    exact ⟨out ++ [b], by rw [hp.output, ho, List.append_assoc],
      by rw [hp'.output, ho', List.append_assoc]⟩
  · rw [hp.bytesRead, hp'.bytesRead, h.bytesRead]

theorem readByte (h : Beside S d c c')
    (hs : Reader.Agree S c.ends.reader.script c'.ends.reader.script) : ∃ c₁ c₁' answer,
    c.readByte = c₁.receive answer ∧ c'.readByte = c₁'.receive answer ∧ Beside S d c₁ c₁' := by
  obtain ⟨c₁, ha, hr⟩ := readByte_awaits h.steady
  obtain ⟨c₁', ha', hr'⟩ := readByte_awaits h.steady'
  refine ⟨c₁, c₁', _, hr, by rw [hr', hs.1], ha.steady, ha'.steady, ?_, ?_, ?_⟩
  · rw [ha.script, ha'.script]
    exact hs.2
  · rw [ha.output, ha'.output]
    exact h.output
  · rw [ha.bytesRead, ha'.bytesRead, h.bytesRead]

theorem counted (h : Beside S d c c') : Beside S d { c with bytesRead := c.bytesRead + 1 }
    { c' with bytesRead := c'.bytesRead + 1 } :=
  ⟨h.steady, h.steady', h.script, h.output, by have := h.bytesRead; simp only; omega⟩

end Beside

end Channel

namespace Machine

structure Beside (S : List Arrival → List Arrival → Prop) (d : Apart) (a b : Machine) : Prop where
  tape : a.world.tape = b.world.tape
  pc : a.pc = b.pc
  steps : a.steps = b.steps + d.steps
  channel : Channel.Beside S d a.world.channel b.world.channel

def script (m : Machine) : List Arrival := m.world.channel.ends.reader.script

end Machine

/-- Two steps of the same kind, that leave machines side by side. -/
inductive Step.Beside (S : List Arrival → List Arrival → Prop) (d : Apart) : Step → Step → Prop
  | next {a b : Machine} (h : a.Beside S d b) : Beside S d (.next a) (.next b)
  | halted {a b : Machine} (h : a.Beside S d b) : Beside S d (.halted a) (.halted b)
  | failed {a b : Machine} (f : Fault) (h : a.Beside S d b) : Beside S d (.failed f a) (.failed f b)

/-- The same fault, if there is one, and machines side by side. -/
def Ending.Beside (S : List Arrival → List Arrival → Prop) (d : Apart) (e e' : Ending) : Prop :=
  e.fault? = e'.fault? ∧ e.machine.Beside S d e'.machine

namespace Machine

open Reader (Agree Alike)

variable {a b m : Machine}

theorem act_beside (h : a.Beside S d b) (action : Action) (pc : Nat)
    (hread : action = .input → Agree S a.script b.script) :
    Step.Beside S d (a.act action pc) (b.act action pc) := by
  obtain ⟨⟨tape, c⟩, pc, steps⟩ := a
  obtain ⟨⟨_, c'⟩, _, steps'⟩ := b
  obtain ⟨rfl, rfl, hsteps, hc⟩ := h
  have hsteps : steps + 1 = steps' + 1 + d.steps := by simp only at hsteps; omega
  cases action with
  | add n => exact .next ⟨rfl, rfl, hsteps, hc⟩
  | sub n => exact .next ⟨rfl, rfl, hsteps, hc⟩
  | clear => exact .next ⟨rfl, rfl, hsteps, hc⟩
  | right n =>
    simp only [act, World.perform, World.move]
    rcases tape.right n with f | tape
    · exact .failed f ⟨rfl, rfl, hsteps, hc⟩
    · exact .next ⟨rfl, rfl, hsteps, hc⟩
  | left n =>
    simp only [act, World.perform, World.move]
    rcases tape.left n with f | tape
    · exact .failed f ⟨rfl, rfl, hsteps, hc⟩
    · exact .next ⟨rfl, rfl, hsteps, hc⟩
  | output =>
    obtain ⟨c₁, c₁', hw, hw', hc⟩ := hc.writeByte tape.current
    simp only [act, World.perform, World.output, hw, hw']
    exact .next ⟨rfl, rfl, hsteps, hc⟩
  | input =>
    obtain ⟨c₁, c₁', answer, hr, hr', hc⟩ := hc.readByte (hread rfl)
    simp only [act, World.perform, World.input, hr, hr']
    cases answer with
    | byte b => exact .next ⟨rfl, rfl, hsteps, hc.counted⟩
    | endOfInput => exact .next ⟨rfl, rfl, hsteps, hc⟩
    | failure f => exact .failed (.io f) ⟨rfl, rfl, hsteps, hc⟩

theorem follow_beside (h : a.Beside S d b) (o : Order)
    (hread : ∀ pc, o = .act .input pc → Agree S a.script b.script) :
    Step.Beside S d (a.follow o) (b.follow o) := by
  cases o with
  | halt => exact .halted h
  | pass => exact .next ⟨h.tape, congrArg (· + 1) h.pc, h.steps, h.channel⟩
  | jump pc =>
    have hsteps : a.steps + 1 = b.steps + 1 + d.steps := by rw [h.steps, Nat.add_right_comm]
    exact .next ⟨h.tape, rfl, hsteps, h.channel⟩
  | act action pc => exact act_beside h action pc fun ha => hread pc (by rw [ha])

/-- Over a steady sink only a read fails at an endpoint. It leaves the tape and the place as they
were, the output delivered, and the script after the failure. -/
theorem act_failed_io {action : Action} {pc : Nat} {f : IoFailure} (hs : a.world.channel.Steady)
    (h : a.act action pc = .failed (.io f) m) : action = .input ∧ (next a.script).1 = .failure f ∧
      ∃ c, a.world.channel.Awaits c ∧ m = ⟨⟨a.world.tape, c⟩, a.pc, a.steps + 1⟩ := by
  simp only [act] at h
  split at h
  · cases h
  rename_i fault w hw
  cases h
  obtain hk | ⟨-, rfl | rfl⟩ := World.kind_of_perform hw
  · cases hk
  · obtain ⟨c, hc, -⟩ := Channel.writeByte_prints hs a.world.tape.current
    simp only [World.perform, World.output, hc] at hw
    cases hw
  · obtain ⟨c, hc, hr⟩ := Channel.readByte_awaits hs
    simp only [World.perform, World.input, hr] at hw
    rcases ha : (next a.world.channel.ends.reader.script).1 with b | _ | g <;> rw [ha] at hw <;>
      cases hw
    exact ⟨rfl, ha, c, hc, rfl⟩

theorem act_input_failed {f : IoFailure} (hs : a.world.channel.Steady)
    (h : (next a.script).1 = .failure f) (pc : Nat) :
    ∃ m, a.act .input pc = .failed (.io f) m := by
  obtain ⟨c, -, hr⟩ := Channel.readByte_awaits hs
  have h : (next a.world.channel.ends.reader.script).1 = .failure f := h
  simp only [act, World.perform, World.input, hr, h]
  exact ⟨_, rfl⟩

namespace Ordered

variable {engine : Machine → Step} {reads : Nat → Prop}

theorem beside (ho : Ordered engine reads) (h : a.Beside S d b)
    (hread : ∀ pc, engine a = a.act .input pc → Agree S a.script b.script) :
    Step.Beside S d (engine a) (engine b) := by
  obtain ⟨o, -, ho⟩ := ho a.world.tape a.pc
  have ha : engine a = a.follow o := ho a.world.channel a.steps
  have hb : engine b = b.follow o := by
    have hb := ho b.world.channel b.steps
    rwa [h.tape, h.pc] at hb
  rw [ha, hb]
  refine follow_beside h o fun pc hin => hread pc ?_
  rw [ha, hin, follow]

theorem failed_io (ho : Ordered engine reads) {f : IoFailure} (hs : a.world.channel.Steady)
    (h : engine a = .failed (.io f) m) : reads a.pc ∧ (next a.script).1 = .failure f ∧
      ∃ c, a.world.channel.Awaits c ∧ m = ⟨⟨a.world.tape, c⟩, a.pc, a.steps + 1⟩ := by
  obtain ⟨o, hr, ho⟩ := ho a.world.tape a.pc
  have ha : engine a = a.follow o := ho a.world.channel a.steps
  rw [ha] at h
  cases o with
  | halt => cases h
  | pass => cases h
  | jump pc => cases h
  | act action pc =>
    obtain ⟨rfl, hm⟩ := act_failed_io hs h
    exact ⟨hr pc rfl, hm⟩

/-- Where the readers answer the same for good, so do the machines. -/
theorem simulates_of_agree (ho : Ordered engine reads)
    (hS : ∀ script script', S script script' → Agree S script script') (d : Apart) :
    Simulates engine engine (Beside S d) (Ending.Beside S d) := by
  intro a b h
  have hstep := ho.beside h fun _ _ => hS _ _ h.channel.script
  generalize ha : engine a = x, engine b = y at hstep
  cases hstep with
  | next h => exact ⟨0, _, .one ha, h⟩
  | halted h => exact ⟨_, ends_of_halted ha, rfl, h⟩
  | failed f h => exact ⟨_, ends_of_failed ha, rfl, h⟩

theorem simulates (ho : Ordered engine reads) (d : Apart) :
    Simulates engine engine (Beside Alike d) (Ending.Beside Alike d) :=
  ho.simulates_of_agree (fun _ _ => Alike.agree) d

end Ordered

end Machine

end TapeMachine
