import TapeMachine.Engine.Direct
import TapeMachine.Engine.Lowered
import TapeMachine.Proofs.Balance

/-!
# The steps of the engines

What the next step of either engine is, by the byte or by the instruction at which it stands. At
brackets with a partner the direct engine does not fail.
-/

namespace TapeMachine

open Nesting

namespace Source

variable {s : Source} {m : Machine}

theorem step_comment {b : UInt8} (h : s.bytes[m.pc]? = some b) (hb : Symbol.ofByte? b = none) :
    s.step m = .next { m with pc := m.pc + 1 } := by
  obtain ⟨hlt, rfl⟩ := Array.getElem?_eq_some_iff.1 h
  rw [step, dif_pos hlt, hb]

theorem step_counted {c : Symbol} {a : Action} (h : s.bytes[m.pc]? = some c.byte)
    (ha : c.counted? 1 = some a) : s.step m = m.act a (m.pc + 1) := by
  obtain ⟨hlt, hb⟩ := Array.getElem?_eq_some_iff.1 h
  rw [step, dif_pos hlt, hb, Symbol.ofByte?_byte]
  cases c <;> cases ha <;> rfl

theorem step_output (h : s.bytes[m.pc]? = some Symbol.output.byte) :
    s.step m = m.act .output (m.pc + 1) := by
  obtain ⟨hlt, hb⟩ := Array.getElem?_eq_some_iff.1 h
  rw [step, dif_pos hlt, hb, Symbol.ofByte?_byte]

theorem step_input (h : s.bytes[m.pc]? = some Symbol.input.byte) :
    s.step m = m.act .input (m.pc + 1) := by
  obtain ⟨hlt, hb⟩ := Array.getElem?_eq_some_iff.1 h
  rw [step, dif_pos hlt, hb, Symbol.ofByte?_byte]

theorem step_halted (h : s.size ≤ m.pc) : s.step m = .halted m := dif_neg (Nat.not_lt.2 h)

theorem step_loopOpen {j : Nat} (h : Partners (depth s.bytes.toList) m.pc j) :
    s.step m = m.jump (if m.world.tape.current = 0 then j + 1 else m.pc + 1) := by
  have hb := getElem?_of_depth_lt (n := m.pc) (by rw [h.opens]; omega)
  rw [Array.getElem?_toList] at hb
  obtain ⟨hlt, hb⟩ := Array.getElem?_eq_some_iff.1 hb
  rw [step, dif_pos hlt, hb, Symbol.ofByte?_byte]
  simp only [closer?_of_partners h]
  split <;> rfl

theorem step_loopClose {i : Nat} (h : Partners (depth s.bytes.toList) i m.pc) :
    s.step m = m.jump (if m.world.tape.current = 0 then m.pc + 1 else i) := by
  have habove := h.above m.pc h.lt (Nat.le_refl _)
  have hb := getElem?_of_lt_depth (n := m.pc) (by rwa [h.closes])
  rw [Array.getElem?_toList] at hb
  obtain ⟨hlt, hb⟩ := Array.getElem?_eq_some_iff.1 hb
  rw [step, dif_pos hlt, hb, Symbol.ofByte?_byte]
  simp only [opener?_of_partners h]
  split <;> rfl

end Source

namespace Program

variable {p : Program} {m : Machine}

theorem opcode?_of_getElem? {k o : Nat} {op : Opcode} (h : p.code[k]? = some ⟨op, o⟩) :
    p.opcode? k = some op := by
  rw [opcode?, h]
  rfl

theorem lt_size_of_opcode? {k : Nat} {op : Opcode} (h : p.opcode? k = some op) : k < p.size := by
  obtain ⟨i, hi, -⟩ := Option.map_eq_some_iff.1 h
  exact (Array.getElem?_eq_some_iff.1 hi).1

theorem size_le_of_opcode? {k : Nat} (h : p.opcode? k = none) : p.size ≤ k :=
  Array.getElem?_eq_none_iff.1 (Option.map_eq_none_iff.1 h)

/-- The indices of a program have a successor, if its length is a word. -/
theorem after_of_opcode? (hp : p.size ≤ wordMax) {k : Nat} {op : Opcode}
    (h : p.opcode? k = some op) : after k = k + 1 :=
  if_neg (by have := lt_size_of_opcode? h; omega)

theorem step_act {a : Action} (h : p.opcode? m.pc = some (.act a)) :
    p.step m = m.act a (after m.pc) := by
  obtain ⟨⟨_, o⟩, hi, rfl⟩ := Option.map_eq_some_iff.1 h
  obtain ⟨hlt, hi⟩ := Array.getElem?_eq_some_iff.1 hi
  rw [step, dif_pos hlt, hi]

theorem step_loopStart {t : Nat} (h : p.opcode? m.pc = some (.loopStart t)) :
    p.step m = m.jump (after (if m.world.tape.current = 0 then t else m.pc)) := by
  obtain ⟨⟨_, o⟩, hi, rfl⟩ := Option.map_eq_some_iff.1 h
  obtain ⟨hlt, hi⟩ := Array.getElem?_eq_some_iff.1 hi
  rw [step, dif_pos hlt, hi]

theorem step_loopEnd {t : Nat} (h : p.opcode? m.pc = some (.loopEnd t)) :
    p.step m = m.jump (after (if m.world.tape.current = 0 then m.pc else t)) := by
  obtain ⟨⟨_, o⟩, hi, rfl⟩ := Option.map_eq_some_iff.1 h
  obtain ⟨hlt, hi⟩ := Array.getElem?_eq_some_iff.1 hi
  rw [step, dif_pos hlt, hi]

theorem step_halted (h : p.size ≤ m.pc) : p.step m = .halted m := dif_neg (Nat.not_lt.2 h)

end Program

end TapeMachine
