import TapeMachine.Proofs.SourceMap
import TapeMachine.Proofs.Structure

/-!
# Paired loops

The check of loop ends accepts every program whose loops nest (`checkLoops_of_nested`): its stack
holds the loops that are open, and of these the innermost is the first to end. The loops of a
lowered program nest as the brackets of its source do (`Program.Renders.nested`), so each refers to
the bracket that the direct engine finds by scanning (`lower_pairs_loops`).
-/

namespace TapeMachine

open Nesting

/-- A loop that opens within another closes within it. -/
theorem Nesting.Partners.lt_of_inside {h : Nat → Int} {i j i' j' : Nat} (ho : Partners h i j)
    (hi : Partners h i' j') (hlt : i < i') (hin : i' < j) : j' < j := by
  by_contra hle
  have habove := ho.above i' hlt (by omega)
  have hclose := ho.closes
  rcases eq_or_ne j' j with rfl | hne
  · have := hi.closes
    omega
  · have := hi.above (j + 1) (by omega) (by omega)
    omega

namespace Program

/-- Loop starts and loop ends refer to each other, and no two loops cross. -/
structure Nested (p : Program) : Prop where
  starts : ∀ i t, p.opcode? i = some (.loopStart t) → i < t ∧ p.opcode? t = some (.loopEnd i)
  ends : ∀ t i, p.opcode? t = some (.loopEnd i) → p.opcode? i = some (.loopStart t)
  inside : ∀ i t j u, p.opcode? i = some (.loopStart t) → p.opcode? j = some (.loopStart u) →
    i < j → j < t → u < t

/-- The loop that starts at `i` is entered before `k` and not left there. -/
def IsOpen (p : Program) (k i : Nat) : Prop :=
  i < k ∧ ∃ t, p.opcode? i = some (.loopStart t) ∧ k ≤ t

section Nested

variable {p : Program} {k : Nat}

theorem not_isOpen_zero (i : Nat) : ¬ p.IsOpen 0 i := fun h => Nat.not_lt_zero i h.1

theorem Nested.isOpen_succ_act (hn : p.Nested) {a : Action} (hk : p.opcode? k = some (.act a))
    (i : Nat) : p.IsOpen (k + 1) i ↔ p.IsOpen k i := by
  constructor
  · rintro ⟨hi, t, ht, hkt⟩
    refine ⟨?_, t, ht, by omega⟩
    rcases Nat.eq_or_lt_of_le (Nat.le_of_lt_succ hi) with rfl | hlt
    · simp [hk] at ht
    · exact hlt
  · rintro ⟨hi, t, ht, hkt⟩
    refine ⟨by omega, t, ht, ?_⟩
    rcases Nat.eq_or_lt_of_le hkt with rfl | hlt
    · simp [(hn.starts i _ ht).2] at hk
    · exact hlt

theorem Nested.isOpen_succ_start (hn : p.Nested) {u : Nat} (hk : p.opcode? k = some (.loopStart u))
    (i : Nat) : p.IsOpen (k + 1) i ↔ i = k ∨ p.IsOpen k i := by
  constructor
  · rintro ⟨hi, t, ht, hkt⟩
    rcases Nat.eq_or_lt_of_le (Nat.le_of_lt_succ hi) with rfl | hlt
    · exact .inl rfl
    · exact .inr ⟨hlt, t, ht, by omega⟩
  · rintro (rfl | ⟨hi, t, ht, hkt⟩)
    · exact ⟨Nat.lt_succ_self i, u, hk, (hn.starts i u hk).1⟩
    · refine ⟨by omega, t, ht, ?_⟩
      rcases Nat.eq_or_lt_of_le hkt with rfl | hlt
      · simp [(hn.starts i _ ht).2] at hk
      · exact hlt

theorem Nested.isOpen_succ_end (hn : p.Nested) {x : Nat} (hk : p.opcode? k = some (.loopEnd x))
    (i : Nat) : p.IsOpen (k + 1) i ↔ p.IsOpen k i ∧ i ≠ x := by
  constructor
  · rintro ⟨hi, t, ht, hkt⟩
    refine ⟨⟨?_, t, ht, by omega⟩, ?_⟩
    · rcases Nat.eq_or_lt_of_le (Nat.le_of_lt_succ hi) with rfl | hlt
      · simp [hk] at ht
      · exact hlt
    · rintro rfl
      rw [hn.ends k i hk] at ht
      cases ht
      omega
  · rintro ⟨⟨hi, t, ht, hkt⟩, hne⟩
    refine ⟨by omega, t, ht, ?_⟩
    rcases Nat.eq_or_lt_of_le hkt with rfl | hlt
    · have := (hn.starts i _ ht).2
      rw [hk] at this
      cases this
      exact absurd rfl hne
    · exact hlt

/-- The stack holds the open loops, the innermost first. -/
structure Holds (p : Program) (k : Nat) (st : List Nat) : Prop where
  sorted : st.Pairwise (· > ·)
  mem_iff : ∀ i, i ∈ st ↔ p.IsOpen k i

/-- The loop that ends is the innermost of the open ones: any loop further in would cross it. -/
theorem Nested.holds_end (hn : p.Nested) {x : Nat} {st : List Nat}
    (hk : p.opcode? k = some (.loopEnd x)) (h : p.Holds k st) :
    ∃ outer, st = x :: outer ∧ p.Holds (k + 1) outer := by
  have hx := hn.ends k x hk
  have hopen : x ∈ st := (h.mem_iff x).2 ⟨(hn.starts x k hx).1, k, hx, Nat.le_refl k⟩
  rcases st with _ | ⟨y, outer⟩
  · simp at hopen
  obtain ⟨hlt, hsorted⟩ := List.pairwise_cons.1 h.sorted
  obtain ⟨hyk, t, hy, hkt⟩ := (h.mem_iff y).1 List.mem_cons_self
  obtain rfl : y = x := by
    by_contra hne
    have hxy : x < y := by
      rcases List.mem_cons.1 hopen with rfl | hmem
      · exact absurd rfl hne
      · exact hlt x hmem
    have := hn.inside x k y t hx hy hxy hyk
    omega
  refine ⟨outer, rfl, hsorted, fun i => ?_⟩
  rw [hn.isOpen_succ_end hk, ← h.mem_iff, List.mem_cons]
  constructor
  · intro hi
    exact ⟨.inr hi, Nat.ne_of_lt (hlt i hi)⟩
  · rintro ⟨rfl | hi, hne⟩
    · exact absurd rfl hne
    · exact hi

theorem Nested.holds_start (hn : p.Nested) {u : Nat} {st : List Nat}
    (hk : p.opcode? k = some (.loopStart u)) (h : p.Holds k st) : p.Holds (k + 1) (k :: st) := by
  refine ⟨List.pairwise_cons.2 ⟨fun i hi => ((h.mem_iff i).1 hi).1, h.sorted⟩, fun i => ?_⟩
  rw [hn.isOpen_succ_start hk, ← h.mem_iff, List.mem_cons]

theorem checkLoopsFrom_of_nested (hn : p.Nested) (hp : p.size ≤ wordMax) :
    ∀ (ops : List Opcode) (k : Nat) (st : List Nat), p.opcodes.drop k = ops → p.Holds k st →
      p.checkLoopsFrom ops k st = .ok ()
  | [], k, [], _, _ => rfl
  | [], k, start :: outer, hops, h => by
    obtain ⟨-, t, ht, hkt⟩ := (h.mem_iff start).1 List.mem_cons_self
    have hlt := lt_size_of_opcode? (hn.starts start t ht).2
    have hle := List.drop_eq_nil_iff.1 hops
    simp only [opcodes, List.length_map, Array.length_toList] at hle
    unfold size at hlt
    omega
  | op :: rest, k, st, hops, h => by
    obtain ⟨hop, hrest⟩ := drop_eq_cons hops
    rw [getElem?_opcodes] at hop
    cases op with
    | act a =>
      simp only [checkLoopsFrom]
      refine checkLoopsFrom_of_nested hn hp rest (k + 1) st hrest ⟨h.sorted, fun i => ?_⟩
      rw [hn.isOpen_succ_act hop, h.mem_iff]
    | loopStart t =>
      obtain ⟨-, hend⟩ := hn.starts k t hop
      have hlt := lt_size_of_opcode? hend
      have hne : t ≠ Opcode.unresolved := by
        unfold Opcode.unresolved
        omega
      simp only [checkLoopsFrom, if_neg hne, if_pos hend]
      exact checkLoopsFrom_of_nested hn hp rest (k + 1) (k :: st) hrest (hn.holds_start hop h)
    | loopEnd x =>
      obtain ⟨outer, rfl, houter⟩ := hn.holds_end hop h
      simp only [checkLoopsFrom, if_true]
      exact checkLoopsFrom_of_nested hn hp rest (k + 1) outer hrest houter

/-- A program whose loops nest passes the check. -/
theorem checkLoops_of_nested (hn : p.Nested) (hp : p.size ≤ wordMax) : p.checkLoops = .ok () :=
  checkLoopsFrom_of_nested hn hp p.opcodes 0 [] rfl
    ⟨.nil, fun i => by simp [not_isOpen_zero]⟩

end Nested

namespace Renders

variable {p : Program} {s : Source} {k k' : Nat} {i i' : Instruction}

theorem offset_lt_offset (hr : p.Renders s) (h : p.code[k]? = some i) (h' : p.code[k']? = some i')
    (hlt : k < k') : i.offset < i'.offset := by
  rw [← Array.getElem?_toList] at h h'
  obtain ⟨hk, rfl⟩ := List.getElem?_eq_some_iff.1 h
  obtain ⟨hk', rfl⟩ := List.getElem?_eq_some_iff.1 h'
  exact (List.pairwise_iff_getElem.1 hr.pairwise k k' hk hk' hlt).1

theorem lt_of_offset_lt (hr : p.Renders s) (h : p.code[k]? = some i) (h' : p.code[k']? = some i')
    (hlt : i.offset < i'.offset) : k < k' := by
  by_contra hle
  rcases Nat.eq_or_lt_of_le (Nat.le_of_not_lt hle) with rfl | hgt
  · rw [h] at h'
    cases h'
    omega
  · have := hr.offset_lt_offset h' h hgt
    omega

theorem nested (hr : p.Renders s) : p.Nested := by
  refine ⟨fun i t hi => ?_, fun t i ht => ?_, fun i t j u hi hj hij hjt => ?_⟩
  · obtain ⟨⟨_, o⟩, hi, rfl⟩ := Option.map_eq_some_iff.1 hi
    obtain ⟨o', hend, hpart⟩ := hr.starts i t o hi
    exact ⟨hr.lt_of_offset_lt hi hend hpart.lt, opcode?_of_getElem? hend⟩
  · obtain ⟨⟨_, o⟩, ht, rfl⟩ := Option.map_eq_some_iff.1 ht
    obtain ⟨o', hstart, -⟩ := hr.ends t i o ht
    exact opcode?_of_getElem? hstart
  · obtain ⟨⟨_, oi⟩, hi, rfl⟩ := Option.map_eq_some_iff.1 hi
    obtain ⟨⟨_, oj⟩, hj, rfl⟩ := Option.map_eq_some_iff.1 hj
    obtain ⟨ot, ht, hpi⟩ := hr.starts i t oi hi
    obtain ⟨ou, hu, hpj⟩ := hr.starts j u oj hj
    refine hr.lt_of_offset_lt hu ht (hpi.lt_of_inside hpj ?_ ?_)
    · exact hr.offset_lt_offset hi hj hij
    · exact hr.offset_lt_offset hj ht hjt

end Renders

end Program

/-- The loops of a lowered program are resolved and pass the check, and the two ends of a loop stand
for brackets that the scans of the direct engine find from each other. The length of a source is a
word, as that of every buffer is. -/
theorem lower_pairs_loops {s : Source} (hs : s.size ≤ wordMax) {p : Program} {stats : LoweringStats}
    (h : s.lower = .ok (p, stats)) :
    p.checkLoops = .ok ()
      ∧ (∀ i, p.opcode? i ≠ some (.loopStart Opcode.unresolved))
      ∧ ∀ i t o : Nat, p.code[i]? = some ⟨.loopStart t, o⟩ →
        i < t ∧ ∃ o' : Nat, p.code[t]? = some ⟨.loopEnd i, o'⟩ ∧ s.closer? o = some o'
          ∧ s.opener? o' = some o := by
  have hr := Source.renders_of_lower h
  have hp : p.size ≤ wordMax := Nat.le_trans hr.size_le hs
  refine ⟨Program.checkLoops_of_nested hr.nested hp, fun i hi => ?_, fun i t o hi => ?_⟩
  · have := Program.lt_size_of_opcode? (hr.nested.starts i _ hi).2
    unfold Opcode.unresolved at this
    omega
  · obtain ⟨o', hend, hpart⟩ := hr.starts i t o hi
    exact ⟨hr.lt_of_offset_lt hi hend hpart.lt, o', hend, closer?_of_partners hpart,
      opener?_of_partners hpart⟩

/-- A loop within a loop, beside one that clears its cell: the scans pass over both. -/
theorem lower_pairs_loops_within :
    (⟨#[91, 43, 91, 45, 93, 32, 91, 60, 93, 93]⟩ : Source).size ≤ wordMax
      ∧ (⟨#[91, 43, 91, 45, 93, 32, 91, 60, 93, 93]⟩ : Source).lower = .ok
        (⟨#[⟨.loopStart 6, 0⟩, ⟨.act (.add 1), 1⟩, ⟨.act .clear, 2⟩, ⟨.loopStart 5, 6⟩,
          ⟨.act (.left 1), 7⟩, ⟨.loopEnd 3, 8⟩, ⟨.loopEnd 0, 9⟩]⟩, ⟨10, 7, 0, 1, 2⟩)
      ∧ (⟨#[91, 43, 91, 45, 93, 32, 91, 60, 93, 93]⟩ : Source).closer? 0 = some 9
      ∧ (⟨#[91, 43, 91, 45, 93, 32, 91, 60, 93, 93]⟩ : Source).opener? 9 = some 0 := by
  have hs : (⟨#[91, 43, 91, 45, 93, 32, 91, 60, 93, 93]⟩ : Source).size ≤ wordMax := by decide
  have hl : (⟨#[91, 43, 91, 45, 93, 32, 91, 60, 93, 93]⟩ : Source).lower = .ok
      (⟨#[⟨.loopStart 6, 0⟩, ⟨.act (.add 1), 1⟩, ⟨.act .clear, 2⟩, ⟨.loopStart 5, 6⟩,
        ⟨.act (.left 1), 7⟩, ⟨.loopEnd 3, 8⟩, ⟨.loopEnd 0, 9⟩]⟩, ⟨10, 7, 0, 1, 2⟩) := by cbv
  obtain ⟨-, o, hend, hcloser, hopener⟩ := (lower_pairs_loops hs hl).2.2 0 6 0 rfl
  cases hend
  exact ⟨hs, hl, hcloser, hopener⟩

end TapeMachine
