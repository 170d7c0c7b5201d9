import TapeMachine.Proofs.Counters
import TapeMachine.Proofs.Equivalence
import TapeMachine.Proofs.LoopCheck

/-!
# Joined sources

Two sources with a comment between them. No lexeme reaches across a comment
(`Lexeme.list_append_cons`), and behind a balanced source the depth is what it was before, so the
brackets of either part keep their partners. The two programs, the second one with its indices and
offsets moved, are then a program that renders the whole (`Program.Renders.join`), and no other one
does (`Program.Renders.unique`).
-/

namespace TapeMachine

open Nesting

/-! ## Brackets -/

namespace Nesting

variable {l r : List UInt8} {c : UInt8} {i j : Nat}

theorem rise_of_comment (hc : Symbol.ofByte? c = none) : rise c = 0 := by simp only [rise, hc]

theorem depth_append_cons (hc : Symbol.ofByte? c = none) (l r : List UInt8) (k : Nat) :
    depth (l ++ c :: r) (l.length + 1 + k) = depth l l.length + depth r k := by
  have hsep : (l ++ c :: r)[l.length]? = some c := by simp
  have hdrop : (l ++ c :: r).drop (l.length + 1) = r := by simp [List.drop_append]
  rw [depth_add, depth_succ hsep, rise_of_comment hc, hdrop, depth_append_left le_rfl]
  omega

theorem Partners.append (h : Partners (depth l) i j) (rest : List UInt8) :
    Partners (depth (l ++ rest)) i j := by
  have hj := h.lt_length
  have hij := h.lt
  have hd : ∀ k ≤ j + 1, depth (l ++ rest) k = depth l k := fun k hk =>
    depth_append_left (by omega) rest
  refine ⟨hij, ?_, ?_, fun k hik hkj => ?_⟩
  · rw [hd _ (by omega), hd _ (by omega), h.opens]
  · rw [hd _ le_rfl, hd _ (by omega), h.closes]
  · rw [hd _ (by omega), hd _ (by omega)]
    exact h.above k hik hkj

theorem Partners.shift {h h' : Nat → Int} {n : Nat} (hd : ∀ k, h' (n + k) = h k)
    (hp : Partners h i j) : Partners h' (n + i) (n + j) := by
  refine ⟨by have := hp.lt; omega, ?_, ?_, fun k hik hkj => ?_⟩
  · rw [Nat.add_assoc, hd, hd, hp.opens]
  · rw [Nat.add_assoc, hd, hd, hp.closes]
  · obtain ⟨k, rfl⟩ : ∃ k', k = n + k' := ⟨k - n, by omega⟩
    rw [hd, hd]
    exact hp.above k (by omega) (by omega)

theorem Balanced.depth_length (h : Balanced l) : depth l l.length = 0 := by
  have := h.2
  unfold depth
  omega

theorem Balanced.depth_nonneg (h : Balanced l) {k : Nat} (hk : k ≤ l.length) : 0 ≤ depth l k := by
  have := h.1 k hk
  unfold depth
  omega

theorem Balanced.join (hc : Symbol.ofByte? c = none) (hl : Balanced l) (hr : Balanced r) :
    Balanced (l ++ c :: r) := by
  have hd := depth_append_cons hc l r
  rw [hl.depth_length] at hd
  have hlen : (l ++ c :: r).length = l.length + 1 + r.length := by
    simp only [List.length_append, List.length_cons]
    omega
  refine balanced_of_unclosed ⟨?_, fun k hk => ?_⟩
  · rw [hlen, hd, hr.depth_length]
    rfl
  · rcases Nat.lt_or_ge l.length k with hlt | hle
    · obtain ⟨k, rfl⟩ : ∃ k', k = l.length + 1 + k' := ⟨k - (l.length + 1), by omega⟩
      have := hr.depth_nonneg (k := k) (by omega)
      rw [hd]
      omega
    · rw [depth_append_left hle]
      exact hl.depth_nonneg hle

end Nesting

/-! ## Lexemes -/

def Placed.shift (n : Nat) (p : Placed) : Placed := { p with offset := n + p.offset }

namespace Lexeme

variable {c : UInt8}

theorem runLength_append_cons {b : UInt8} (hb : c ≠ b) (tail : List UInt8) : ∀ rest : List UInt8,
    runLength b (rest ++ c :: tail) = runLength b rest
  | [] => by simp [runLength, hb]
  | x :: rest => by
    have ih := runLength_append_cons hb tail rest
    by_cases hx : x = b
    · simpa [runLength, hx] using ih
    · simp [runLength, hx]

theorem isPrefixOf_clearTail_append_cons (hc : Symbol.ofByte? c = none) (rest tail : List UInt8) :
    clearTail.isPrefixOf (rest ++ c :: tail) = clearTail.isPrefixOf rest := by
  have hne : ∀ s : Symbol, s.byte ≠ c := by
    rintro s rfl
    simp at hc
  rcases rest with _ | ⟨x, _ | ⟨y, rest⟩⟩
  · simp [clearTail, List.isPrefixOf, hne]
  · simp [clearTail, List.isPrefixOf, hne]
  · simp [clearTail, List.isPrefixOf]

/-- A lexeme does not reach across a comment. -/
theorem first?_append_cons (hc : Symbol.ofByte? c = none) (b : UInt8) (rest tail : List UInt8) :
    first? b (rest ++ c :: tail) = first? b rest := by
  unfold first?
  rcases hb : Symbol.ofByte? b with _ | s
  · rfl
  · have hne : c ≠ b := by
      rintro rfl
      rw [hc] at hb
      cases hb
    cases s <;> simp only [runLength_append_cons hne, isPrefixOf_clearTail_append_cons hc]

theorem list_append_cons (hc : Symbol.ofByte? c = none) (l tail : List UInt8) (offset : Nat) :
    list (l ++ c :: tail) offset = list l offset ++ list tail (offset + (l.length + 1)) := by
  have hfirst : ∀ rest, first? c rest = none := fun rest => by simp only [first?, hc]
  fun_induction list l offset with
  | case1 offset => rw [List.nil_append, list, hfirst]
                    rfl
  | case2 b rest offset h ih =>
    rw [List.cons_append, list, first?_append_cons hc, h]
    simp only [ih, List.length_cons]
    congr 2
    omega
  | case3 b rest offset l more h ih =>
    have hlen := congrArg List.length (begins_of_first? h).text_append
    have htext := (begins_of_first? h).length_text
    simp only [List.length_append, List.length_drop, List.length_cons] at hlen
    rw [List.cons_append, list, first?_append_cons hc, h]
    simp only
    rw [List.drop_append_of_le_length (by omega), ih, List.cons_append, List.length_drop,
      List.length_cons]
    congr 3
    omega

theorem list_add (bytes : List UInt8) (n offset : Nat) :
    list bytes (n + offset) = (list bytes offset).map (Placed.shift n) := by
  fun_induction list bytes offset with
  | case1 => simp [list]
  | case2 b rest offset h ih =>
    rw [list, h]
    exact ih
  | case3 b rest offset l more h ih =>
    rw [list, h, List.map_cons, ← ih, ← Nat.add_assoc]
    rfl

end Lexeme

/-! ## Programs -/

def Opcode.shift (n : Nat) : Opcode → Opcode
  | act a => act a
  | loopStart t => loopStart (n + t)
  | loopEnd t => loopEnd (n + t)

/-- The instruction where it stands after `n` others, and its text after so many bytes. -/
def Instruction.shift (n offset : Nat) (i : Instruction) : Instruction :=
  ⟨i.opcode.shift n, offset + i.offset⟩

theorem Instruction.placed_shift (n offset : Nat) (i : Instruction) :
    (i.shift n offset).placed = i.placed.shift offset := by
  obtain ⟨⟨a⟩ | t | t, o⟩ := i <;> rfl

namespace Program

/-- One program after another, whose text begins at `offset`. -/
def join (p q : Program) (offset : Nat) : Program :=
  ⟨p.code ++ q.code.map (Instruction.shift p.size offset)⟩

section Join

variable {p q : Program} {offset k : Nat} {i : Instruction}

theorem getElem?_join_left (h : p.code[k]? = some i) : (p.join q offset).code[k]? = some i := by
  rw [join, Array.getElem?_append_left (Draft.lt_size_of_getElem? h), h]

theorem getElem?_join_right (k : Nat) : (p.join q offset).code[p.size + k]?
    = q.code[k]?.map (Instruction.shift p.size offset) := by
  have hle : p.code.size ≤ p.size + k := Nat.le_add_right ..
  rw [join, Array.getElem?_append_right hle, Array.getElem?_map]
  congr 2
  exact Nat.add_sub_cancel_left ..

theorem cases_join (h : (p.join q offset).code[k]? = some i) : p.code[k]? = some i
    ∨ ∃ k' j, k = p.size + k' ∧ q.code[k']? = some j ∧ i = j.shift p.size offset := by
  rcases Nat.lt_or_ge k p.size with hlt | hle
  · rw [join, Array.getElem?_append_left hlt] at h
    exact .inl h
  · obtain ⟨k, rfl⟩ : ∃ k', k = p.size + k' := ⟨k - p.size, by omega⟩
    rw [getElem?_join_right] at h
    obtain ⟨j, hj, rfl⟩ := Option.map_eq_some_iff.1 h
    exact .inr ⟨k, j, rfl, hj, rfl⟩

theorem opcodes_join (p q : Program) (offset : Nat) :
    (p.join q offset).opcodes = p.opcodes ++ q.opcodes.map (Opcode.shift p.size) := by
  simp only [opcodes, join, Array.toList_append, Array.toList_map, List.map_append, List.map_map]
  rfl

theorem size_join (p q : Program) (offset : Nat) : (p.join q offset).size = p.size + q.size := by
  simp [size, join]

end Join

namespace Renders

variable {p q : Program} {s : Source}

theorem index_unique (h : p.Renders s) {k k' : Nat} {i i' : Instruction}
    (hi : p.code[k]? = some i) (hi' : p.code[k']? = some i') (ho : i.offset = i'.offset) :
    k = k' := by
  rcases Nat.lt_trichotomy k k' with hlt | rfl | hlt
  · have := h.offset_lt_offset hi hi' hlt
    omega
  · rfl
  · have := h.offset_lt_offset hi' hi hlt
    omega

theorem exists_same (hp : p.Renders s) (hq : q.Renders s) {k : Nat} {i : Instruction}
    (hi : p.code[k]? = some i) : ∃ j, q.code[k]? = some j ∧ j.placed = i.placed := by
  have hget := congrArg (·[k]?) (hp.placed.trans hq.placed.symm)
  simp only [List.getElem?_map, Array.getElem?_toList, hi, Option.map_some] at hget
  exact Option.map_eq_some_iff.1 hget.symm

/-- A source has one program that renders it: a loop end has no other partner, and that no other
place. -/
theorem unique (hp : p.Renders s) (hq : q.Renders s) : p = q := by
  have hsame : ∀ {p q : Program}, p.Renders s → q.Renders s → ∀ {k : Nat} {i : Instruction},
      p.code[k]? = some i → q.code[k]? = some i := by
    intro p q hp hq k i hi
    obtain ⟨⟨op, o'⟩, hj, hplaced⟩ := hp.exists_same hq hi
    rcases i with ⟨a | t | t, o⟩ <;> rcases op with a' | u | u <;> cases hplaced <;> rw [hj]
    -- what is left is the target, where both programs have the partner's offset
    · obtain ⟨x, hend, hx⟩ := hp.starts k t o' hi
      obtain ⟨y, hend', hy⟩ := hq.starts k u o' hj
      obtain ⟨i, hi', hplaced⟩ := hp.exists_same hq hend
      have hoffset : y = i.offset := (hy.unique hx).trans (congrArg Placed.offset hplaced).symm
      rw [hq.index_unique hend' hi' hoffset]
    · obtain ⟨x, hstart, hx⟩ := hp.ends k t o' hi
      obtain ⟨y, hstart', hy⟩ := hq.ends k u o' hj
      obtain ⟨i, hi', hplaced⟩ := hp.exists_same hq hstart
      have hoffset : y = i.offset := (hy.unique_left hx).trans (congrArg Placed.offset hplaced).symm
      rw [hq.index_unique hstart' hi' hoffset]
  obtain ⟨code⟩ := p
  obtain ⟨code'⟩ := q
  congr 1
  refine Array.ext_getElem? fun k => ?_
  rcases h : code[k]? with _ | i
  · rcases h' : code'[k]? with _ | i
    · rfl
    · rw [hsame hq hp h'] at h
      cases h
  · exact (hsame hp hq h).symm

end Renders

end Program

namespace Source

/-- One source after another, with a byte in between. -/
def join (a : Source) (c : UInt8) (b : Source) : Source := ⟨a.bytes.push c ++ b.bytes⟩

variable {a b : Source} {c : UInt8}

theorem toList_join (a : Source) (c : UInt8) (b : Source) :
    (a.join c b).bytes.toList = a.bytes.toList ++ c :: b.bytes.toList := by
  simp [join]

theorem size_join (a : Source) (c : UInt8) (b : Source) :
    (a.join c b).size = a.size + 1 + b.size := by
  simp [size, join]

theorem checkBalance_join (hc : Symbol.ofByte? c = none) (ha : a.checkBalance = .ok ())
    (hb : b.checkBalance = .ok ()) : (a.join c b).checkBalance = .ok () := by
  apply checkBalance_of_balanced
  rw [toList_join]
  exact (balanced_of_checkBalance ha).join hc (balanced_of_checkBalance hb)

theorem lexemes_join (hc : Symbol.ofByte? c = none) (a b : Source) :
    (a.join c b).lexemes = a.lexemes ++ b.lexemes.map (Placed.shift (a.size + 1)) := by
  rw [lexemes_eq, lexemes_eq, lexemes_eq, toList_join, Lexeme.list_append_cons hc,
    ← Lexeme.list_add, Nat.zero_add, Nat.add_zero]
  rfl

section Partners

variable {i j : Nat}

theorem partners_join_left (h : Partners (depth a.bytes.toList) i j) :
    Partners (depth (a.join c b).bytes.toList) i j := by
  rw [toList_join]
  exact h.append _

theorem partners_join_right (hc : Symbol.ofByte? c = none) (ha : a.checkBalance = .ok ())
    (h : Partners (depth b.bytes.toList) i j) :
    Partners (depth (a.join c b).bytes.toList) (a.size + 1 + i) (a.size + 1 + j) := by
  refine h.shift fun k => ?_
  have hd := depth_append_cons hc a.bytes.toList b.bytes.toList k
  rw [(balanced_of_checkBalance ha).depth_length, Int.zero_add] at hd
  rwa [toList_join]

end Partners

end Source

namespace Program.Renders

variable {p q : Program} {a b : Source} {c : UInt8}

theorem join (hc : Symbol.ofByte? c = none) (ha : a.checkBalance = .ok ()) (hp : p.Renders a)
    (hq : q.Renders b) : (p.join q (a.size + 1)).Renders (a.join c b) := by
  refine ⟨?_, fun k t o hk => ?_, fun k t o hk => ?_⟩
  · rw [Source.lexemes_join hc, ← hp.placed, ← hq.placed, Program.join, Array.toList_append,
      Array.toList_map, List.map_append, List.map_map, List.map_map]
    congr 2
    exact funext fun i => i.placed_shift ..
  · rcases cases_join hk with hk | ⟨k, ⟨⟨_⟩ | u | u, o⟩, rfl, hj, he⟩
    · obtain ⟨o', hend, hpart⟩ := hp.starts k t o hk
      exact ⟨o', getElem?_join_left hend, Source.partners_join_left hpart⟩
    · cases he
    · cases he
      obtain ⟨o', hend, hpart⟩ := hq.starts k u o hj
      refine ⟨a.size + 1 + o', ?_, Source.partners_join_right hc ha hpart⟩
      rw [getElem?_join_right, hend]
      rfl
    · cases he
  · rcases cases_join hk with hk | ⟨k, ⟨⟨_⟩ | u | u, o⟩, rfl, hj, he⟩
    · obtain ⟨o', hstart, hpart⟩ := hp.ends k t o hk
      exact ⟨o', getElem?_join_left hstart, Source.partners_join_left hpart⟩
    · cases he
    · cases he
    · cases he
      obtain ⟨o', hstart, hpart⟩ := hq.ends k u o hj
      refine ⟨a.size + 1 + o', ?_, Source.partners_join_right hc ha hpart⟩
      rw [getElem?_join_right, hstart]
      rfl

end Program.Renders

theorem Source.exists_lower_join {p q : Program} {stats stats' : LoweringStats} {a b : Source}
    {c : UInt8} (hc : Symbol.ofByte? c = none) (ha : a.lower = .ok (p, stats))
    (hb : b.lower = .ok (q, stats')) :
    ∃ sum, (a.join c b).lower = .ok (p.join q (a.size + 1), sum) := by
  have hca := checkBalance_of_lower ha
  obtain ⟨r, sum, hr⟩ := exists_lower (checkBalance_join hc hca (checkBalance_of_lower hb))
  have hjoin := (renders_of_lower ha).join hc hca (renders_of_lower hb)
  rw [(renders_of_lower hr).unique hjoin] at hr
  exact ⟨sum, hr⟩

/-! ## Counters -/

namespace Opcode

variable (n : Nat) (op : Opcode)

theorem isMerged_shift : (op.shift n).isMerged = op.isMerged := by
  cases op <;> rfl

theorem isLoopStart_shift : (op.shift n).isLoopStart = op.isLoopStart := by
  cases op <;> rfl

theorem shift_eq_clear_iff : op.shift n = .act .clear ↔ op = .act .clear := by
  cases op <;> simp [shift]

theorem count_clear_map_shift (ops : List Opcode) :
    (ops.map (shift n)).count (.act .clear) = ops.count (.act .clear) := by
  rw [List.count, List.countP_map]
  exact List.countP_congr fun op _ => by simp [shift_eq_clear_iff]

end Opcode

/-- The counters of two sources and of the comment between them. -/
def LoweringStats.join (s t : LoweringStats) : LoweringStats where
  sourceSize := s.sourceSize + 1 + t.sourceSize
  instructions := s.instructions + t.instructions
  mergedRuns := s.mergedRuns + t.mergedRuns
  clears := s.clears + t.clears
  loops := s.loops + t.loops

theorem LoweringStats.Describes.eq_join {s t sum : LoweringStats} {p q : Program} {a b : Source}
    {c : UInt8} {offset : Nat} (hs : s.Describes a p) (ht : t.Describes b q)
    (h : sum.Describes (a.join c b) (p.join q offset)) : sum = s.join t := by
  have hmerged := h.mergedRuns
  have hclears := h.clears
  have hloops := h.loops
  rw [Program.opcodes_join, List.countP_append, List.countP_map] at hmerged
  rw [Program.opcodes_join, List.count_append, Opcode.count_clear_map_shift] at hclears
  rw [Program.numLoops, Program.opcodes_join, List.countP_append, List.countP_map] at hloops
  simp only [Function.comp_def, Opcode.isMerged_shift, Opcode.isLoopStart_shift] at hmerged hloops
  obtain ⟨size, instructions, merged, clears, loops⟩ := sum
  simp only [join, LoweringStats.mk.injEq]
  refine ⟨?_, ?_, ?_, ?_, ?_⟩
  · rw [hs.sourceSize, ht.sourceSize, ← Source.size_join]
    exact h.sourceSize
  · rw [hs.instructions, ht.instructions, ← Program.size_join]
    exact h.instructions
  · rw [hs.mergedRuns, ht.mergedRuns]
    exact hmerged
  · rw [hs.clears, ht.clears]
    exact hclears
  · rw [hs.loops, ht.loops]
    exact hloops

/-- Two sources that can be lowered can be lowered as one, with a comment between them. The program
is the one after the other, where the indices that the second one refers to are moved by the size of
the first, and its offsets by the text before it; and the counters add up. -/
theorem lower_join {a b : Source} {c : UInt8} {p q : Program} {stats stats' : LoweringStats}
    (hc : Symbol.ofByte? c = none) (ha : a.lower = .ok (p, stats))
    (hb : b.lower = .ok (q, stats')) :
    (a.join c b).lower = .ok (p.join q (a.size + 1), stats.join stats') := by
  obtain ⟨sum, h⟩ := Source.exists_lower_join hc ha hb
  rw [h, (describes_of_lower ha).eq_join (describes_of_lower hb) (describes_of_lower h)]

/-- The run that ends before the comment and the one that begins after it stay two. -/
theorem lower_join_loops :
    Symbol.ofByte? 32 = none
      ∧ (⟨#[91, 45, 62, 43, 60, 93, 43, 43]⟩ : Source).lower = .ok
        (⟨#[⟨.loopStart 5, 0⟩, ⟨.act (.sub 1), 1⟩, ⟨.act (.right 1), 2⟩, ⟨.act (.add 1), 3⟩,
          ⟨.act (.left 1), 4⟩, ⟨.loopEnd 0, 5⟩, ⟨.act (.add 2), 6⟩]⟩, ⟨8, 7, 1, 0, 1⟩)
      ∧ (⟨#[43, 91, 45, 93, 91, 62, 93]⟩ : Source).lower = .ok
        (⟨#[⟨.act (.add 1), 0⟩, ⟨.act .clear, 1⟩, ⟨.loopStart 4, 4⟩, ⟨.act (.right 1), 5⟩,
          ⟨.loopEnd 2, 6⟩]⟩, ⟨7, 5, 0, 1, 1⟩)
      ∧ ((⟨#[91, 45, 62, 43, 60, 93, 43, 43]⟩ : Source).join 32
          ⟨#[43, 91, 45, 93, 91, 62, 93]⟩).lower = .ok
        (⟨#[⟨.loopStart 5, 0⟩, ⟨.act (.sub 1), 1⟩, ⟨.act (.right 1), 2⟩, ⟨.act (.add 1), 3⟩,
          ⟨.act (.left 1), 4⟩, ⟨.loopEnd 0, 5⟩, ⟨.act (.add 2), 6⟩, ⟨.act (.add 1), 9⟩,
          ⟨.act .clear, 10⟩, ⟨.loopStart 11, 13⟩, ⟨.act (.right 1), 14⟩, ⟨.loopEnd 9, 15⟩]⟩,
          ⟨16, 12, 1, 1, 2⟩) := by
  have hc : Symbol.ofByte? 32 = none := rfl
  have ha : (⟨#[91, 45, 62, 43, 60, 93, 43, 43]⟩ : Source).lower = .ok
      (⟨#[⟨.loopStart 5, 0⟩, ⟨.act (.sub 1), 1⟩, ⟨.act (.right 1), 2⟩, ⟨.act (.add 1), 3⟩,
        ⟨.act (.left 1), 4⟩, ⟨.loopEnd 0, 5⟩, ⟨.act (.add 2), 6⟩]⟩, ⟨8, 7, 1, 0, 1⟩) := by cbv
  have hb : (⟨#[43, 91, 45, 93, 91, 62, 93]⟩ : Source).lower = .ok
      (⟨#[⟨.act (.add 1), 0⟩, ⟨.act .clear, 1⟩, ⟨.loopStart 4, 4⟩, ⟨.act (.right 1), 5⟩,
        ⟨.loopEnd 2, 6⟩]⟩, ⟨7, 5, 0, 1, 1⟩) := by cbv
  exact ⟨hc, ha, hb, (lower_join hc ha hb).trans (by cbv)⟩

end TapeMachine
