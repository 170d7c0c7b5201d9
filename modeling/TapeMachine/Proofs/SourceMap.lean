import TapeMachine.Proofs.Drafts

/-!
# The source map

A lowered program is its source without the comments: the texts of its opcodes stand in the source
at their offsets (`text_prefix`), in order and without overlap (`pairwise`), and every other byte is
a comment (`ofByte?_of_uncovered`).
-/

namespace TapeMachine

def Opcode.text : Opcode → List UInt8
  | act a => a.text
  | loopStart _ => [Symbol.loopOpen.byte]
  | loopEnd _ => [Symbol.loopClose.byte]

/-- The offset after the text of an instruction. -/
def Instruction.stop (i : Instruction) : Nat := i.offset + i.opcode.text.length

theorem Opcode.text_lexeme (op : Opcode) : op.lexeme.text = op.text := by
  cases op <;> rfl

theorem Instruction.text_placed (i : Instruction) : i.placed.text = i.opcode.text :=
  i.opcode.text_lexeme

theorem Instruction.stop_placed (i : Instruction) : i.placed.stop = i.stop := by
  rw [Placed.stop, i.text_placed]
  rfl

namespace Program.Renders

variable {p : Program} {s : Source}

theorem placed_mem (h : p.Renders s) {i : Instruction} (hi : i ∈ p.code.toList) :
    i.placed ∈ Lexeme.list s.bytes.toList 0 := by
  rw [← s.lexemes_eq, ← h.placed]
  exact List.mem_map_of_mem hi

theorem text_prefix (h : p.Renders s) {i : Instruction} (hi : i ∈ p.code.toList) :
    i.opcode.text <+: s.bytes.toList.drop i.offset := by
  rw [← i.text_placed]
  exact Lexeme.text_prefix_of_mem _ 0 rfl _ (h.placed_mem hi)

theorem size_le (h : p.Renders s) : p.size ≤ s.size := by
  have hlen := Lexeme.length_list_le s.bytes.toList 0
  rw [← s.lexemes_eq, ← h.placed] at hlen
  simpa [Program.size, Source.size] using hlen

theorem text_ne_nil (h : p.Renders s) {i : Instruction} (hi : i ∈ p.code.toList) :
    i.opcode.text ≠ [] := by
  rw [← i.text_placed]
  exact Lexeme.text_ne_nil_of_mem _ (h.placed_mem hi)

theorem pairwise (h : p.Renders s) :
    p.code.toList.Pairwise fun i j => i.offset < j.offset ∧ i.stop ≤ j.offset := by
  have hp := Lexeme.pairwise_list s.bytes.toList 0
  rw [← s.lexemes_eq, ← h.placed, List.pairwise_map] at hp
  simp only [Instruction.stop_placed] at hp
  exact hp

theorem ofByte?_of_uncovered (h : p.Renders s) {k : Nat} {b : UInt8} (hb : s.bytes[k]? = some b)
    (hout : ∀ i ∈ p.code.toList, k < i.offset ∨ i.stop ≤ k) : Symbol.ofByte? b = none := by
  refine Lexeme.ofByte?_of_uncovered s.bytes.toList 0 rfl (Nat.zero_le k)
    (by rwa [Array.getElem?_toList]) fun q hq => ?_
  rw [← s.lexemes_eq, ← h.placed] at hq
  obtain ⟨i, hi, rfl⟩ := List.mem_map.1 hq
  rw [i.stop_placed]
  exact hout i hi

theorem flatMap_text (h : p.Renders s) : p.opcodes.flatMap Opcode.text
    = s.bytes.toList.filter fun b => (Symbol.ofByte? b).isSome := by
  rw [← Lexeme.flatMap_text_list _ 0, ← s.lexemes_eq, ← h.placed, Program.opcodes,
    List.flatMap_map, List.flatMap_map]
  simp only [Instruction.text_placed]

/-- The text of a counted opcode repeats one byte, and neither neighbour is that byte. -/
theorem maximal (h : p.Renders s) {i : Instruction} (hi : i ∈ p.code.toList)
    (hc : i.opcode.isCounted) :
    ∃ n b, i.opcode.operand? = some n ∧ 1 ≤ n ∧ i.opcode.text = List.replicate n b
      ∧ s.bytes[i.offset + n]? ≠ some b ∧ ∀ j, j + 1 = i.offset → s.bytes[j]? ≠ some b := by
  obtain ⟨⟨a⟩ | t | t, o⟩ := i
  · obtain ⟨n, hn⟩ : ∃ n, a.count? = some n := by
      cases a <;> first | exact ⟨_, rfl⟩ | cases hc
    obtain ⟨b, hb⟩ := Action.text_of_count? hn
    obtain ⟨h1, hmax⟩ := Lexeme.maximal_of_mem s.bytes.toList 0 rfl (by simp) _ (h.placed_mem hi)
      a n rfl hn
    simp only [Instruction.text_placed, Instruction.stop_placed, Array.getElem?_toList] at hmax
    obtain ⟨hafter, hbefore⟩ := hmax b (by
      rw [Opcode.text, hb]
      exact List.mem_replicate.2 ⟨by omega, rfl⟩)
    refine ⟨n, b, hn, h1, hb, ?_, hbefore⟩
    rwa [Instruction.stop, Opcode.text, hb, List.length_replicate] at hafter
  · cases hc
  · cases hc

theorem clear_mem_iff (h : p.Renders s) (k : Nat) : ⟨.act .clear, k⟩ ∈ p.code.toList
    ↔ Action.clear.text <+: s.bytes.toList.drop k := by
  have hk := Lexeme.clear_mem_list_iff s.bytes.toList 0 rfl (i := k)
  simp only [Nat.zero_le, true_and] at hk
  rw [← hk]
  refine ⟨h.placed_mem, fun hm => ?_⟩
  rw [← s.lexemes_eq, ← h.placed] at hm
  obtain ⟨⟨op, o⟩, hi, he⟩ := List.mem_map.1 hm
  rcases op with a | t | t <;> cases he
  exact hi

end Program.Renders

/-- Lowering loses nothing of a source but its comments, and every instruction is at the offset of
its text. -/
theorem lower_lossless {s : Source} {p : Program} {stats : LoweringStats}
    (h : s.lower = .ok (p, stats)) :
    (p.opcodes.flatMap Opcode.text
        = s.bytes.toList.filter fun b => (Symbol.ofByte? b).isSome)
      ∧ ((∀ i ∈ p.code.toList, i.opcode.text <+: s.bytes.toList.drop i.offset)
        ∧ (p.code.toList.Pairwise fun i j => i.offset < j.offset ∧ i.stop ≤ j.offset)
        ∧ ∀ k b, s.bytes[k]? = some b →
          (∀ i ∈ p.code.toList, ¬ (i.offset ≤ k ∧ k < i.stop)) → Symbol.ofByte? b = none)
      ∧ (∀ i ∈ p.code.toList, i.opcode.isCounted →
        ∃ n b, i.opcode.operand? = some n ∧ 1 ≤ n ∧ i.opcode.text = List.replicate n b
          ∧ s.bytes[i.offset + n]? ≠ some b ∧ ∀ j, j + 1 = i.offset → s.bytes[j]? ≠ some b)
      ∧ ∀ k, (⟨.act .clear, k⟩ ∈ p.code.toList
        ↔ Action.clear.text <+: s.bytes.toList.drop k) := by
  have hr := Source.renders_of_lower h
  refine ⟨hr.flatMap_text, ⟨fun i hi => hr.text_prefix hi, hr.pairwise, fun k b hb hout => ?_⟩,
    fun i hi hc => hr.maximal hi hc, hr.clear_mem_iff⟩
  exact hr.ofByte?_of_uncovered hb fun i hi => by
    have := hout i hi
    omega

/-- A run that a comment breaks, inside a loop, and a loop that clears its cell. -/
theorem lower_lossless_loops :
    (⟨#[91, 45, 43, 43, 32, 43, 93, 91, 45, 93]⟩ : Source).lower = .ok
      (⟨#[⟨.loopStart 4, 0⟩, ⟨.act (.sub 1), 1⟩, ⟨.act (.add 2), 2⟩, ⟨.act (.add 1), 5⟩,
        ⟨.loopEnd 0, 6⟩, ⟨.act .clear, 7⟩]⟩, ⟨10, 6, 1, 1, 1⟩)
      ∧ Action.clear.text <+: [91, 45, 43, 43, 32, 43, 93, 91, 45, 93].drop 7 := by
  have h : (⟨#[91, 45, 43, 43, 32, 43, 93, 91, 45, 93]⟩ : Source).lower = .ok
      (⟨#[⟨.loopStart 4, 0⟩, ⟨.act (.sub 1), 1⟩, ⟨.act (.add 2), 2⟩, ⟨.act (.add 1), 5⟩,
        ⟨.loopEnd 0, 6⟩, ⟨.act .clear, 7⟩]⟩, ⟨10, 6, 1, 1, 1⟩) := by cbv
  exact ⟨h, ((lower_lossless h).2.2.2 7).1 (by simp)⟩

end TapeMachine
