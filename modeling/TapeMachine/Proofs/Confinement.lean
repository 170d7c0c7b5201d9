import TapeMachine.Proofs.Edges
import TapeMachine.Proofs.LoopCheck

/-!
# Confinement

A row of opcodes may jump to any word and move by any count, and may be entered anywhere. Its steps
still keep to the tape that they were given: they change the cell under the head at most, and are
refused as a whole where they would leave the tape (`Program.step_confined`). The place in the
program stays a word, as the largest one has no successor, so all of this holds from one step to the
next (`Program.execute_confined`).
-/

namespace TapeMachine

open Machine

/-- The largest number of cells for which a head is a signed word. -/
def tapeMax : Nat := UInt64.size / 2 - 1

/-- A fault names the length of the tape and a place beside it, and the place is to the left exactly
when the move was. -/
def Tape.Names (t : Tape) (toLeft : Prop) (i : Int) (size : Nat) : Prop :=
  size = t.size ∧ (i < 0 ∨ size ≤ i) ∧ (i < 0 ↔ toLeft)

/-- A place beyond the end is still beyond it when it is kept within a signed word. -/
theorem Tape.size_le_clampHead {t : Tape} {n : Nat} (ht : t.size ≤ tapeMax)
    (hn : t.size ≤ t.head + n) : (t.size : Int) ≤ clampHead (t.head + n) := by
  have hword : Int64.maxValue.toInt = tapeMax := by decide
  have hmax : (t.size : Int) ≤ Int64.maxValue.toInt := by omega
  rw [← clampHead_of_nonneg (by omega) hmax]
  exact clampHead_mono (by omega)

theorem World.names_of_perform {w w' : World} {a : Action} {i : Int} {size : Nat}
    (hw : w.tape.size ≤ tapeMax) (h : w.perform a = .error (.outOfTape i size) w') :
    w.tape.Names (∃ n, a = .left n) i size := by
  obtain ⟨rfl, rfl, n, rfl | rfl⟩ := perform_outOfTape h
  · obtain ⟨-, hn, hf⟩ := perform_right_error h
    cases hf
    have hle := Tape.size_le_clampHead hw hn
    refine ⟨rfl, .inr hle, ⟨fun hneg => by omega, ?_⟩⟩
    rintro ⟨_, ⟨⟩⟩
  · obtain ⟨-, hn, hf⟩ := perform_left_error h
    cases hf
    have hneg := clampHead_neg (i := w'.tape.head - n) (by omega)
    exact ⟨rfl, .inl hneg, iff_of_true hneg ⟨n, rfl⟩⟩

namespace Program

variable {p : Program} {m b c : Machine} {f : Fault}

/-- The jumps of a program are to words. -/
def JumpsToWords (p : Program) : Prop :=
  ∀ k t, p.opcode? k = some (.loopStart t) ∨ p.opcode? k = some (.loopEnd t) → t ≤ wordMax

/-- Where the next place is counted from: the place itself, or the target of its jump. -/
def Base (p : Program) (pc i : Nat) : Prop :=
  i = pc ∨ p.opcode? pc = some (.loopStart i) ∨ p.opcode? pc = some (.loopEnd i)

/-- A step that goes on keeps to the cell under the head, and counts the next place without going
round. -/
structure GoesOn (p : Program) (b c : Machine) : Prop where
  tape : b.world.tape.Kept c.world.tape
  pc : ∃ i, p.Base b.pc i ∧ c.pc = min (i + 1) wordMax
  steps : c.steps = b.steps + 1

/-- A step that fails leaves the tape and the place as they are. -/
structure Fails (p : Program) (b : Machine) (f : Fault) (c : Machine) : Prop where
  tape : c.world.tape = b.world.tape
  pc : c.pc = b.pc
  kind : f.kind = .tapeOutOfRange ∨ f.kind = .io
  names : ∀ i size, f = .outOfTape i size →
    b.world.tape.Names (∃ n, p.opcode? b.pc = some (.act (.left n))) i size

/-- What is promised of the next step from `b`. -/
def Confined (p : Program) (b : Machine) : Step → Prop
  | .next c => p.GoesOn b c
  | .halted c => c = b ∧ p.size ≤ b.pc
  | .failed f c => p.Fails b f c

/-- A machine at which a run from `m` may be: on the tape of `m`, at a place that is a word. -/
structure Inside (m b : Machine) : Prop where
  size : b.world.tape.size = m.world.tape.size
  head_lt : b.world.tape.head < m.world.tape.size
  pc_le : b.pc ≤ wordMax

theorem after_eq_min {i : Nat} (h : i ≤ wordMax) : after i = min (i + 1) wordMax := by
  unfold after
  split <;> omega

theorem act_confined {a : Action} (hop : p.opcode? b.pc = some (.act a))
    (hsize : b.world.tape.size ≤ tapeMax) (hpc : b.pc ≤ wordMax) :
    p.Confined b (b.act a (after b.pc)) := by
  unfold Machine.act
  rcases hw : b.world.perform a with w' | ⟨f, w'⟩
  · exact ⟨World.kept_of_perform hw, ⟨b.pc, .inl rfl, after_eq_min hpc⟩, rfl⟩
  · refine ⟨World.tape_of_perform_error hw, rfl,
      (World.kind_of_perform hw).imp_right And.left, ?_⟩
    rintro i size rfl
    simpa only [hop, Option.some.injEq, Opcode.act.injEq] using World.names_of_perform hsize hw

theorem jump_confined {i : Nat} (hi : p.Base b.pc i) (hle : i ≤ wordMax) :
    p.Confined b (b.jump (after i)) :=
  ⟨⟨rfl, fun _ _ => rfl⟩, ⟨i, hi, after_eq_min hle⟩, rfl⟩

theorem step_confined (hp : p.JumpsToWords) (hsize : b.world.tape.size ≤ tapeMax)
    (hpc : b.pc ≤ wordMax) : p.Confined b (p.step b) := by
  rcases hop : p.opcode? b.pc with _ | a | t | t
  · have hend := size_le_of_opcode? hop
    rw [step_halted hend]
    exact ⟨rfl, hend⟩
  · rw [step_act hop]
    exact act_confined hop hsize hpc
  · rw [step_loopStart hop]
    split
    · exact jump_confined (.inr (.inl hop)) (hp _ _ (.inl hop))
    · exact jump_confined (.inl rfl) hpc
  · rw [step_loopEnd hop]
    split
    · exact jump_confined (.inl rfl) hpc
    · exact jump_confined (.inr (.inr hop)) (hp _ _ (.inr hop))

theorem Inside.next (h : Inside m b) (hbc : p.GoesOn b c) : Inside m c := by
  have hsize := hbc.tape.size.trans h.size
  obtain ⟨i, -, hi⟩ := hbc.pc
  exact ⟨hsize, hsize ▸ c.world.tape.head_lt, hi ▸ Nat.min_le_right ..⟩

/-- Any program may run: whatever its jumps and its counts, and wherever it is entered, a run stays
inside, and it comes to an end as one of its steps does. -/
theorem execute_confined (hp : p.JumpsToWords) (hsize : m.world.tape.size ≤ tapeMax)
    (hpc : m.pc ≤ wordMax) :
    (∀ n b, Takes p.step n m b → Inside m b ∧ p.Confined b (p.step b))
      ∧ ∀ fuel e, p.execute fuel m = some e → ∃ n b, Takes p.step n m b ∧ Inside m b
        ∧ match e with
          | ⟨none, c⟩ => c = b ∧ p.size ≤ b.pc
          | ⟨some f, c⟩ => p.Fails b f c := by
  have hconf : ∀ b, Inside m b → p.Confined b (p.step b) := fun b hb =>
    step_confined hp (hb.size ▸ hsize) hb.pc_le
  have hrun : ∀ n b, Takes p.step n m b → Inside m b ∧ p.Confined b (p.step b) := by
    intro n b ht
    have hb : Inside m b := by
      refine ht.keeps (fun a c ha hc => ?_) ⟨rfl, m.world.tape.head_lt, hpc⟩
      have hac := hconf a ha
      rw [hc] at hac
      exact ha.next hac
    exact ⟨hb, hconf b hb⟩
  refine ⟨hrun, fun fuel e he => ?_⟩
  obtain ⟨n, b, ht, hlast⟩ := exists_last he
  obtain ⟨hb, hc⟩ := hrun n b ht
  refine ⟨n, b, ht, hb, ?_⟩
  rw [hlast] at hc
  rcases e with ⟨_ | f, c⟩
  · exact hc
  · exact hc

/-- A jump between brackets that are not partners, and a move that would pass the largest word. -/
theorem execute_confined_astray :
    (Program.ofOpcodes [.act (.add 1), .loopEnd 2, .loopStart wordMax,
        .act (.right wordMax)]).JumpsToWords
      ∧ ∃ b c, (Program.ofOpcodes [.act (.add 1), .loopEnd 2, .loopStart wordMax,
          .act (.right wordMax)]).Fails b (.outOfTape tapeMax 2) c
        ∧ c.world.tape = ⟨#[1, 0], 0, by decide⟩ := by
  have hp : (Program.ofOpcodes [.act (.add 1), .loopEnd 2, .loopStart wordMax,
      .act (.right wordMax)]).JumpsToWords := by
    intro k t h
    simp only [opcode?_ofOpcodes] at h
    match k with
    | 0 | 3 => simp at h
    | 1 | 2 =>
      simp at h
      subst h
      decide
    | k + 4 => simp at h
  have he : (Program.ofOpcodes [.act (.add 1), .loopEnd 2, .loopStart wordMax,
      .act (.right wordMax)]).execute 3 (start (.blank 2 (by decide)) { ends := .ofBytes [] })
      = some ⟨some (.outOfTape tapeMax 2),
        ⟨⟨⟨#[1, 0], 0, by decide⟩, { ends := .ofBytes [] }⟩, 3, 3⟩⟩ := by
    decide +kernel
  obtain ⟨-, b, -, -, hf⟩ := (execute_confined hp (by decide) (by decide)).2 3 _ he
  exact ⟨hp, b, _, hf, rfl⟩

end Program

end TapeMachine
