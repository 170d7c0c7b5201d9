import TapeMachine.Proofs.Jobs
import TapeMachine.Proofs.Streams

/-!
# Runs in lockstep

Of two runs that differ in what is to arrive, each does what the other does as long as their plain
streams are the same (`Job.lockstep`). They part at a read that may find different bytes, after its
flush, and not earlier: no order, no write and no flush has to do with the reader.
-/

namespace TapeMachine

open Machine
open Channel (Operation)

def Machine.withReader (m : Machine) (r : Reader) : Machine :=
  m.withChannel (m.world.channel.withReader r)

def Ending.withReader (e : Ending) (r : Reader) : Ending := ⟨e.fault?, e.machine.withReader r⟩

def Step.withReader (step : Step) (r : Reader) : Step :=
  match step with
  | .next m => .next (m.withReader r)
  | .halted m => .halted (m.withReader r)
  | .failed f m => .failed f (m.withReader r)

namespace Channel

/-- How many attempts to read the log shows. -/
def attempts (c : Channel) : Nat := c.ends.log.toList.countP Call.isRead

theorem Quiet.attempts_eq {c c' : Channel} (h : c.Quiet c') : c'.attempts = c.attempts := by
  obtain ⟨calls, hl, hc⟩ := h.log
  rw [attempts, attempts, hl, List.countP_append, List.countP_eq_zero.2 hc, Nat.add_zero]

/-- Up to the `k`-th attempt a channel will read the same from `r` as from its own reader. -/
structure Foretells (k : Nat) (c : Channel) (r : Reader) : Prop where
  plain : c.ends.reader.Plain
  plain' : r.Plain
  attempts_le : c.attempts ≤ k
  take_eq : c.ends.reader.remaining.take (k - c.attempts) = r.remaining.take (k - c.attempts)

variable {k : Nat} {c c' : Channel} {r : Reader}

theorem Foretells.of_quiet (h : c.Foretells k r) (hq : c.Quiet c') : c'.Foretells k r where
  plain := by
    rw [hq.reader]
    exact h.plain
  plain' := h.plain'
  attempts_le := by
    rw [hq.attempts_eq]
    exact h.attempts_le
  take_eq := by
    rw [hq.reader, hq.attempts_eq]
    exact h.take_eq

theorem eq_of_take_succ {n : Nat} {data data' : List UInt8}
    (h : data.take (n + 1) = data'.take (n + 1)) (d : UInt8) :
    data.headD d = data'.headD d ∧ data.take 1 = data'.take 1
      ∧ data.tail.take n = data'.tail.take n := by
  cases data <;> cases data' <;> simp_all

/-- A read that comes before the `k`-th attempt gives the same from either reader. -/
theorem Foretells.readByte (h : c.Foretells k r) (hf : c.flush = .ok () c') (hlt : c.attempts < k) :
    ∃ b c₁ r₁, c.readByte = .ok b c₁ ∧ (c.withReader r).readByte = .ok b (c₁.withReader r₁)
      ∧ c₁.Foretells k r₁ := by
  obtain ⟨n, hn⟩ : ∃ n, k - c.attempts = n + 1 := ⟨k - c.attempts - 1, by omega⟩
  have htake := h.take_eq
  rw [hn] at htake
  obtain ⟨hhead, hone, htail⟩ := eq_of_take_succ htake endOfInputByte
  have hf' : (c.withReader r).flush = .ok () (c'.withReader r) := by
    rw [flush_withReader, hf]
    rfl
  obtain ⟨q, hq, hrest, hread⟩ := readByte_plain hf h.plain
  obtain ⟨q', hq', hrest', hread'⟩ := readByte_plain hf' h.plain'
  have hattempts : c'.attempts = c.attempts := (quiet_of_flush hf).attempts_eq
  refine ⟨_, _, q', hread, ?_, hq, hq', ?_, ?_⟩
  · rw [hread', hhead, hone]
    rfl
  all_goals
    simp only [attempts, Array.toList_push, List.countP_append, Call.isRead, List.countP_singleton,
      if_true] at hattempts hlt hn ⊢
    rw [hattempts]
  · exact hlt
  · rw [hrest, hrest', show k - (c.ends.log.toList.countP Call.isRead + 1) = n by omega]
    exact htail

end Channel

namespace Machine

variable {m : Machine} {r : Reader} {o : Order}

theorem act_input_ok {b : UInt8} {c : Channel} (h : m.world.channel.readByte = .ok b c) (pc : Nat) :
    m.act .input pc = .next ⟨⟨m.world.tape.set b, c⟩, pc, m.steps + 1⟩ := by
  simp only [act, World.perform, World.input, h]

theorem act_input_error {f : IoFailure} {c : Channel} (h : m.world.channel.readByte = .error f c)
    (pc : Nat) : m.act .input pc = .failed (.io f) ⟨⟨m.world.tape, c⟩, m.pc, m.steps + 1⟩ := by
  simp only [act, World.perform, World.input, h]

theorem follow_withReader (m : Machine) (r : Reader) (ho : ∀ pc, o ≠ .act .input pc) :
    (m.withReader r).follow o = (m.follow o).withReader r := by
  obtain ⟨⟨tape, c⟩, pc, steps⟩ := m
  cases o with
  | halt => rfl
  | pass => rfl
  | jump pc => rfl
  | act a pc =>
    cases a with
    | add n => rfl
    | sub n => rfl
    | clear => rfl
    | right n =>
      simp only [withReader, withChannel, follow, act, World.perform, World.move]
      rcases tape.right n with f | t <;> rfl
    | left n =>
      simp only [withReader, withChannel, follow, act, World.perform, World.move]
      rcases tape.left n with f | t <;> rfl
    | output =>
      simp only [withReader, withChannel, follow, act, World.perform, World.output,
        Channel.writeByte_withReader]
      rcases c.writeByte tape.current with ⟨_, c'⟩ | ⟨f, c'⟩ <;> rfl
    | input => exact absurd rfl (ho pc)

/-- But for reads, no order makes an attempt to read. -/
theorem follow_quiet (m : Machine) (ho : ∀ pc, o ≠ .act .input pc) :
    m.world.channel.Quiet (m.follow o).machine.world.channel := by
  have hsame : m.world.channel.Quiet m.world.channel := ⟨rfl, rfl, [], by simp⟩
  cases o with
  | halt => exact hsame
  | pass => exact hsame
  | jump pc => exact hsame
  | act a pc =>
    cases ha : a.asks? m.world with
    | none =>
      rw [follow, act_quiet ha]
      exact hsame
    | some op =>
      cases a with
      | output =>
        have hq := m.world.channel.writeByte_quiet m.world.tape.current
        simp only [follow, act, World.perform, World.output]
        rcases h : m.world.channel.writeByte m.world.tape.current with ⟨_, c'⟩ | ⟨f, c'⟩ <;>
          rw [h] at hq <;> exact hq
      | input => exact absurd rfl (ho pc)
      | _ => cases ha

end Machine

namespace Job

variable {j : Job} {k fuel : Nat} {m : Machine} {r : Reader}

theorem asks?_withReader (j : Job) (m : Machine) (r : Reader) :
    j.asks? (m.withReader r) = j.asks? m := by
  rw [asks?_eq, asks?_eq]
  rfl

/-- One step: either it is the same for both, or it is the read after the `k`-th attempt. -/
theorem step_foretold (hj : j.Balanced) (h : m.world.channel.Foretells k r) :
    (∃ r', j.engine (m.withReader r) = (j.engine m).withReader r'
        ∧ (j.engine m).machine.world.channel.Foretells k r')
      ∨ j.asks? m = some .read ∧ ∃ c, m.world.channel.flush = .ok () c ∧ c.attempts = k := by
  have hb : j.engine (m.withReader r)
      = (m.withReader r).follow (j.order m.world.tape.current m.pc) := engine_eq_follow hj _
  rw [hb, engine_eq_follow hj, j.asks?_eq]
  generalize j.order m.world.tape.current m.pc = o
  by_cases ho : ∃ pc, o = .act .input pc
  · obtain ⟨pc, rfl⟩ := ho
    rcases hf : m.world.channel.flush with ⟨_, c⟩ | ⟨f, c⟩
    · have hattempts : c.attempts = m.world.channel.attempts :=
        (Channel.quiet_of_flush hf).attempts_eq
      rcases Nat.lt_or_ge m.world.channel.attempts k with hlt | hge
      · obtain ⟨b, c₁, r₁, hread, hread', hc⟩ := h.readByte hf hlt
        have hact := act_input_ok hread pc
        have hact' := act_input_ok (m := m.withReader r) hread' pc
        simp only [follow, hact, hact']
        exact .inl ⟨r₁, rfl, hc⟩
      · exact .inr ⟨rfl, c, rfl, by have := h.attempts_le; omega⟩
    · have hread := Channel.readByte_of_flush_error hf
      have hread' : (m.world.channel.withReader r).readByte = .error f (c.withReader r) :=
        Channel.readByte_of_flush_error (by rw [Channel.flush_withReader, hf]; rfl)
      have hact := act_input_error hread pc
      have hact' := act_input_error (m := m.withReader r) hread' pc
      simp only [follow, hact, hact']
      exact .inl ⟨r, rfl, h.of_quiet (Channel.quiet_of_flush hf)⟩
  · have ho : ∀ pc, o ≠ .act .input pc := fun pc h => ho ⟨pc, h⟩
    exact .inl ⟨r, follow_withReader m r ho, h.of_quiet (m.follow_quiet ho)⟩

/-- How the run from `m` and the run from there on another reader are to each other. -/
inductive Lockstep (j : Job) (k fuel : Nat) (m : Machine) (r : Reader) : Prop
  /-- They have done the same, with `k` attempts to read at most. -/
  | together (r' : Reader)
    (asked : (Machine.progress j.engine j.asks? fuel (m.withReader r)).asked
      = (Machine.progress j.engine j.asks? fuel m).asked)
    (machine : (Machine.progress j.engine j.asks? fuel (m.withReader r)).machine
      = (Machine.progress j.engine j.asks? fuel m).machine.withReader r')
    (ending : Machine.run j.engine fuel (m.withReader r)
      = (Machine.run j.engine fuel m).map (·.withReader r'))
    (foretells : (Machine.progress j.engine j.asks? fuel m).machine.world.channel.Foretells k r')
  /-- They did the same until both made another attempt. -/
  | parted (ops later later' : List Operation) (c : Channel) (r' : Reader)
    (asked : (Machine.progress j.engine j.asks? fuel m).asked = ops ++ .read :: later)
    (asked' : (Machine.progress j.engine j.asks? fuel (m.withReader r)).asked
      = ops ++ .read :: later')
    (same : (m.withReader r).world.channel.afterAll ops
      = (m.world.channel.afterAll ops).withReader r')
    (flush : (m.world.channel.afterAll ops).flush = .ok () c)
    (attempts : c.attempts = k)

theorem Lockstep.cons {m' : Machine} {r' : Reader} (hm : j.engine m = .next m')
    (hm' : j.engine (m.withReader r) = .next (m'.withReader r')) (h : Lockstep j k fuel m' r') :
    Lockstep j k (fuel + 1) m r := by
  have hasks := j.asks?_withReader m r
  have hc := j.asks.channel_step m
  have hc' := j.asks.channel_step (m.withReader r)
  rw [hm] at hc
  rw [hm', hasks] at hc'
  cases h with
  | together r'' asked machine ending foretells =>
    refine .together r'' ?_ ?_ ?_ ?_
    all_goals simp only [Machine.progress, Machine.run, hm, hm', hasks]
    · rw [asked]
    · exact machine
    · exact ending
    · exact foretells
  | parted ops later later' c r'' asked asked' same flush attempts =>
    refine .parted ((j.asks? m).toList ++ ops) later later' c r'' ?_ ?_ ?_ ?_ attempts
    · simp only [Machine.progress, hm, asked, List.append_assoc]
    · simp only [Machine.progress, hm', hasks, asked', List.append_assoc]
    · rw [Channel.afterAll_append, Channel.afterAll_append, ← hc, ← hc']
      exact same
    · rw [Channel.afterAll_append, ← hc]
      exact flush

theorem lockstep (hj : j.Balanced) : ∀ (fuel : Nat) {m : Machine} {r : Reader},
    m.world.channel.Foretells k r → Lockstep j k fuel m r
  | 0, _, r, h => .together r rfl rfl rfl h
  | fuel + 1, m, r, h => by
    have hasks := j.asks?_withReader m r
    rcases step_foretold hj h with ⟨r', hb, hr'⟩ | ⟨hread, c, hf, hc⟩
    · rcases hm : j.engine m with m' | m' | ⟨f, m'⟩ <;> rw [hm] at hb hr'
      · exact .cons hm hb (lockstep hj fuel hr')
      all_goals
        refine .together r' ?_ ?_ ?_ ?_
        all_goals simp only [Machine.progress, Machine.run, hm, hb, hasks, Step.withReader]
      · rfl
      · exact hr'
      · rfl
      · exact hr'
    · obtain ⟨later, hlater⟩ := j.asked_succ fuel m
      obtain ⟨later', hlater'⟩ := j.asked_succ fuel (m.withReader r)
      rw [hread] at hlater
      rw [hasks, hread] at hlater'
      exact .parted [] later later' c r hlater hlater' rfl hf hc

end Job

end TapeMachine
