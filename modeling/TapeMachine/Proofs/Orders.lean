import TapeMachine.Proofs.Counted
import TapeMachine.Proofs.Running
import TapeMachine.Proofs.Steps
import TapeMachine.Proofs.Verdict

/-!
# Orders

What an engine does next is decided by the cell under the head and the place in the program: it
halts, passes a comment, jumps, or performs an action (`Source.step_eq_follow`,
`Program.step_eq_follow`). Neither the rest of the tape nor the channel nor the number of its steps
has a say, so a context holds all that an engine goes by (`Machine.Ordered`); and the faults of a
run are those of actions, as the brackets of a balanced source all have partners.
-/

namespace TapeMachine

/-- What an engine may do next. -/
inductive Order where
  | halt
  /-- Goes on, by no step that counts. -/
  | pass
  | jump (pc : Nat)
  | act (action : Action) (pc : Nat)

namespace Machine

def follow (m : Machine) : Order → Step
  | .halt => .halted m
  | .pass => .next { m with pc := m.pc + 1 }
  | .jump pc => m.jump pc
  | .act a pc => m.act a pc

/-- The tape and the place decide what the engine does. It is to read only at places that are in
`reads`. -/
def Ordered (engine : Machine → Step) (reads : Nat → Prop) : Prop :=
  ∀ tape pc, ∃ o : Order, (∀ pc', o = .act .input pc' → reads pc) ∧ ∀ channel steps,
    engine ⟨⟨tape, channel⟩, pc, steps⟩ = follow ⟨⟨tape, channel⟩, pc, steps⟩ o

end Machine

open Machine

namespace Source

variable {s : Source}

/-- What is to be done at a place of a balanced source, over a cell. -/
def order (s : Source) (cell : UInt8) (pc : Nat) : Order :=
  match s.bytes[pc]? with
  | none => .halt
  | some b =>
    match Symbol.ofByte? b with
    | none => .pass
    | some .increment => .act (.add 1) (pc + 1)
    | some .decrement => .act (.sub 1) (pc + 1)
    | some .right => .act (.right 1) (pc + 1)
    | some .left => .act (.left 1) (pc + 1)
    | some .output => .act .output (pc + 1)
    | some .input => .act .input (pc + 1)
    | some .loopOpen => .jump (if cell = 0 then (s.closer? pc).getD pc + 1 else pc + 1)
    | some .loopClose => .jump (if cell = 0 then pc + 1 else (s.opener? pc).getD pc)

/-- In a balanced source the engine never looks for a partner in vain. -/
theorem step_eq_follow (hs : s.checkBalance = .ok ()) (m : Machine) :
    s.step m = m.follow (s.order m.world.tape.current m.pc) := by
  have hb := Nesting.balanced_of_checkBalance hs
  unfold order
  rcases hget : s.bytes[m.pc]? with _ | b
  · exact step_halted (Array.getElem?_eq_none_iff.1 hget)
  rcases hsym : Symbol.ofByte? b with _ | sym <;> simp only [hsym]
  · exact step_comment hget hsym
  rw [Symbol.ofByte?_eq_some_iff.1 hsym] at hget
  cases sym with
  | increment => exact step_counted (c := .increment) hget rfl
  | decrement => exact step_counted (c := .decrement) hget rfl
  | right => exact step_counted (c := .right) hget rfl
  | left => exact step_counted (c := .left) hget rfl
  | output => exact step_output hget
  | input => exact step_input hget
  | loopOpen =>
    obtain ⟨j, hj⟩ := hb.exists_closer (i := m.pc) (by simpa using hget)
    simp only [Nesting.closer?_of_partners hj, Option.getD_some]
    exact step_loopOpen hj
  | loopClose =>
    obtain ⟨i, hi⟩ := hb.exists_opener (j := m.pc) (by simpa using hget)
    simp only [Nesting.opener?_of_partners hi, Option.getD_some]
    exact step_loopClose hi

theorem reads_of_order {cell : UInt8} {pc pc' : Nat} (h : s.order cell pc = .act .input pc') :
    s.bytes[pc]? = some Symbol.input.byte := by
  unfold order at h
  rcases hget : s.bytes[pc]? with _ | b <;> simp only [hget] at h
  · cases h
  rcases hsym : Symbol.ofByte? b with _ | sym <;> simp only [hsym] at h
  · cases h
  · cases sym <;> cases h
    rw [Symbol.ofByte?_eq_some_iff.1 hsym]

theorem ordered (hs : s.checkBalance = .ok ()) :
    Ordered s.step fun pc => s.bytes[pc]? = some Symbol.input.byte := fun tape pc =>
  ⟨s.order tape.current pc, fun _ => reads_of_order, fun channel steps =>
    step_eq_follow hs ⟨⟨tape, channel⟩, pc, steps⟩⟩

end Source

namespace Program

variable {p : Program}

/-- What is to be done at a place of a program, over a cell. -/
def order (p : Program) (cell : UInt8) (pc : Nat) : Order :=
  match p.opcode? pc with
  | none => .halt
  | some (.act a) => .act a (after pc)
  | some (.loopStart t) => .jump (after (if cell = 0 then t else pc))
  | some (.loopEnd t) => .jump (after (if cell = 0 then pc else t))

theorem step_eq_follow (p : Program) (m : Machine) :
    p.step m = m.follow (p.order m.world.tape.current m.pc) := by
  unfold order
  rcases hop : p.opcode? m.pc with _ | a | t | t
  · exact step_halted (size_le_of_opcode? hop)
  · exact step_act hop
  · exact step_loopStart hop
  · exact step_loopEnd hop

theorem opcode?_of_order {cell : UInt8} {pc pc' : Nat} {a : Action}
    (h : p.order cell pc = .act a pc') : p.opcode? pc = some (.act a) := by
  unfold order at h
  rcases hop : p.opcode? pc with _ | a | t | t <;> simp only [hop] at h <;> cases h
  rfl

theorem ordered (p : Program) : Ordered p.step fun pc => p.opcode? pc = some (.act .input) :=
  fun tape pc => ⟨p.order tape.current pc, fun _ => opcode?_of_order, fun channel steps =>
    p.step_eq_follow ⟨⟨tape, channel⟩, pc, steps⟩⟩

end Program

/-! ## The faults of a run -/

/-- An action fails at an end of the tape or, if it uses one, at an endpoint, and in no other
way. -/
theorem World.kind_of_perform {w w' : World} {a : Action} {f : Fault}
    (h : w.perform a = .error f w') :
    f.kind = .tapeOutOfRange ∨ f.kind = .io ∧ (a = .output ∨ a = .input) := by
  cases a with
  | add n => cases h
  | sub n => cases h
  | clear => cases h
  | right n =>
    simp only [perform, move] at h
    rcases Nat.lt_or_ge (w.tape.head + n) w.tape.cells.size with hn | hn
    · rw [Tape.right_of_lt hn] at h
      cases h
    · rw [Tape.right_of_le hn] at h
      cases h
      exact .inl rfl
  | left n =>
    simp only [perform, move] at h
    rcases Nat.lt_or_ge w.tape.head n with hn | hn
    · rw [Tape.left_of_lt hn] at h
      cases h
      exact .inl rfl
    · rw [Tape.left_of_le hn] at h
      cases h
  | output =>
    simp only [perform, output] at h
    split at h <;> cases h
    exact .inr ⟨rfl, .inl rfl⟩
  | input =>
    simp only [perform, input] at h
    split at h <;> cases h
    exact .inr ⟨rfl, .inr rfl⟩

namespace Machine

variable {engine : Machine → Step} {reads : Nat → Prop}

theorem Ordered.kind_of_failed (h : Ordered engine reads) {m m' : Machine} {f : Fault}
    (hf : engine m = .failed f m') : f.kind = .tapeOutOfRange ∨ f.kind = .io := by
  obtain ⟨o, -, ho⟩ := h m.world.tape m.pc
  rw [ho m.world.channel m.steps] at hf
  cases o with
  | halt => cases hf
  | pass => cases hf
  | jump pc => cases hf
  | act a pc =>
    simp only [follow, act] at hf
    split at hf
    · cases hf
    · rename_i hw
      cases hf
      exact (World.kind_of_perform hw).imp_right And.left

theorem Ordered.kind_of_run (h : Ordered engine reads) {fuel : Nat} {m m' : Machine} {f : Fault}
    (hr : run engine fuel m = some ⟨some f, m'⟩) : f.kind = .tapeOutOfRange ∨ f.kind = .io := by
  obtain ⟨n, b, -, hb⟩ := exists_last hr
  exact h.kind_of_failed hb

end Machine

end TapeMachine
