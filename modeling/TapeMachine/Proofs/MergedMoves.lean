import Mathlib
import TapeMachine.Proofs.Edges

/-!
# Merged moves

A row of moves to one side is one instruction of a lowered program, and is refused as a whole if it
would leave the tape. The direct engine goes to the end of the tape first, and is refused the next
move (`Source.ends_moves`). So when the engines are stopped there, they have the same cells and
stand in the same row, the one at the end of the tape and the other where the row began
(`engines_stop_at_edge`).
-/

namespace TapeMachine

open Machine

/-- A move that is done changes no cell. -/
theorem World.cells_of_move {w w' : World} {c : Symbol} {n : Nat} {a : Action}
    (hc : c = .right ∨ c = .left) (ha : c.counted? n = some a) (h : w.perform a = .ok () w') :
    w'.tape.cells = w.tape.cells := by
  rcases hc with rfl | rfl <;> cases ha
  · exact World.perform_right_ok h
  · exact World.perform_left_ok h

/-- A single move is refused at the end of the tape only, and names the place next to it. A row of
moves to that side that is refused anywhere names a place as far away or farther. -/
theorem World.edge_of_outOfTape {w w₁ v v₁ : World} {c : Symbol} {one a : Action} {n size : Nat}
    {d i : Int} (hc : c = .right ∨ c = .left) (h1 : c.counted? 1 = some one)
    (ha : c.counted? n = some a) (hsize : (size : Int) ≤ Int64.maxValue.toInt)
    (hone : w.perform one = .error (.outOfTape d size) w₁)
    (hrow : v.perform a = .error (.outOfTape i size) v₁) :
    (d = -1 ∧ i ≤ d ∧ w.tape.head = 0 ∨ d = size ∧ d ≤ i ∧ w.tape.head + 1 = size)
      ∧ (n = 1 → i = d) := by
  have hw := w.tape.head_lt
  have hv := v.tape.head_lt
  have hclamp : clampHead size = size := clampHead_of_nonneg (by omega) hsize
  have hminus : clampHead (-1) = -1 := by decide
  rcases hc with rfl | rfl <;> cases h1 <;> cases ha
  · obtain ⟨-, hle, hf⟩ := perform_right_error hone
    obtain ⟨-, hle', hg⟩ := perform_right_error hrow
    obtain ⟨hd, hsw⟩ := Fault.outOfTape.inj hf
    obtain ⟨hi, hsv⟩ := Fault.outOfTape.inj hg
    unfold Tape.size at hle hle' hsw hsv
    have hlast : (w.tape.head : Int) + (1 : Nat) = size := by omega
    rw [hlast, hclamp] at hd
    have hfar := clampHead_mono (show (size : Int) ≤ v.tape.head + n by omega)
    refine ⟨.inr ⟨hd, by omega, by omega⟩, ?_⟩
    rintro rfl
    have hlast' : (v.tape.head : Int) + (1 : Nat) = size := by omega
    rw [hi, hlast', hclamp, hd]
  · obtain ⟨-, hlt, hf⟩ := perform_left_error hone
    obtain ⟨-, hlt', hg⟩ := perform_left_error hrow
    obtain ⟨hd, -⟩ := Fault.outOfTape.inj hf
    obtain ⟨hi, -⟩ := Fault.outOfTape.inj hg
    have hfirst : (w.tape.head : Int) - (1 : Nat) = -1 := by omega
    rw [hfirst, hminus] at hd
    have hfar := clampHead_mono (show (v.tape.head : Int) - n ≤ -1 by omega)
    refine ⟨.inl ⟨hd, by omega, by omega⟩, ?_⟩
    rintro rfl
    have hfirst' : (v.tape.head : Int) - (1 : Nat) = -1 := by omega
    rw [hi, hfirst', hminus, hd]

namespace Source

variable {s : Source}

/-- Where a row of moves is refused as a whole, the direct engine makes some of them and is refused
the next. -/
theorem ends_moves {c : Symbol} {one : Action} (hc : c = .right ∨ c = .left)
    (h1 : c.counted? 1 = some one) : ∀ (n : Nat) (m : Machine) {a : Action} {i : Int} {size : Nat}
    {w : World}, c.counted? n = some a → (∀ k < n, s.bytes[m.pc + k]? = some c.byte) →
    m.world.perform a = .error (.outOfTape i size) w →
    ∃ k < n, ∃ d m', Ends s.step m ⟨some (.outOfTape d size), m'⟩ ∧ m'.pc = m.pc + k
      ∧ m'.world.tape.cells = m.world.tape.cells
      ∧ m'.world.perform one = .error (.outOfTape d size) m'.world
  | 0, m, a, i, size, w, ha, _, h => by
    rcases hc with rfl | rfl <;> cases ha
    · exact absurd m.world.tape.head_lt (Nat.not_lt.2 (World.perform_right_error h).2.1)
    · exact absurd (World.perform_left_error h).2.1 (Nat.not_lt_zero _)
  | n + 1, m, a, i, size, w, ha, hb, h => by
    obtain ⟨an, hn⟩ : ∃ an, c.counted? n = some an := by
      rcases hc with rfl | rfl <;> exact ⟨_, rfl⟩
    have hstep := step_counted (hb 0 (Nat.succ_pos n)) h1
    rw [Nat.add_comm] at ha
    have hagrees := m.world.perform_add h1 hn ha
    rw [h] at hagrees
    rcases hw : m.world.perform one with ⟨_, w₁⟩ | ⟨f, w₁⟩ <;>
      simp only [Machine.act, hw, World.Result.andThen] at hstep hagrees
    · -- the first move is made, so the others are refused as a whole
      rcases hw' : w₁.perform an with ⟨_, w₂⟩ | ⟨f, w₂⟩ <;> rw [hw'] at hagrees
      · cases hagrees
      obtain ⟨j, rfl⟩ := Fault.eq_of_agrees hagrees.1
      obtain ⟨k, hk, d, m', hends, hpc, hcells, hone⟩ :=
        ends_moves hc h1 n ⟨w₁, m.pc + 1, m.steps + 1⟩ hn (fun k hk => by
          simpa only [Nat.add_assoc, Nat.add_comm 1] using hb (k + 1) (by omega)) hw'
      exact ⟨k + 1, by omega, d, m', (Takes.one hstep).ends_iff.2 hends,
        hpc.trans (Nat.add_right_comm ..), hcells.trans (World.cells_of_move hc h1 hw), hone⟩
    · -- the first move is refused itself
      obtain ⟨j, rfl⟩ := Fault.eq_of_agrees hagrees.1
      obtain ⟨rfl, -⟩ := World.perform_outOfTape hw
      exact ⟨0, Nat.succ_pos n, j, _, ends_of_failed hstep, rfl, rfl, hw⟩

end Source

/-- How the engines stand when a move has stopped them at an end of a tape of `size` cells. The
direct engine stands at `m` and was to go to `d`, the other one stands at `m'` and was to go to
`i`. -/
structure StopAtEdge (s : Source) (p : Program) (start : Machine) (size : Nat) (d i : Int)
    (m m' : Machine) : Prop where
  edge : d = -1 ∧ i ≤ d ∧ m.world.tape.head = 0 ∨ d = size ∧ d ≤ i ∧ m.world.tape.head + 1 = size
  cells : m.world.tape.cells = m'.world.tape.cells
  /-- The direct engine stands in the text of the instruction, and has found the world at the
  beginning of that text as the other one leaves it. -/
  text : ∃ instruction, p.code[m'.pc]? = some instruction
    ∧ instruction.offset ≤ m.pc ∧ m.pc < instruction.stop
    ∧ ∃ n steps, Takes s.step n start ⟨m'.world, instruction.offset, steps⟩
  /-- The move that was refused has changed nothing. -/
  refused : ∃ n steps, Takes p.step n start ⟨m'.world, m'.pc, steps⟩
  /-- Where no two moves to one side are neighbours, there is nothing to merge. -/
  single : (∀ b, b = Symbol.right.byte ∨ b = Symbol.left.byte → ∀ k, s.bytes[k]? = some b →
    s.bytes[k + 1]? ≠ some b) → i = d

namespace Program.Renders

variable {s : Source} {p : Program} {start m' : Machine} {size : Nat}

/-- The lowered program is stopped by a move, and the direct engine comes to the text of that
move. -/
theorem refused (hr : p.Renders s) (hp : p.size ≤ wordMax) (hab : p.Abreast s start start) {i : Int}
    (h : Ends p.step start ⟨some (.outOfTape i size), m'⟩) :
    ∃ a o, p.code[m'.pc]? = some ⟨.act a, o⟩
      ∧ m'.world.perform a = .error (.outOfTape i size) m'.world
      ∧ (∃ n steps, Takes s.step n start ⟨m'.world, o, steps⟩)
      ∧ ∃ n steps, Takes p.step n start ⟨m'.world, m'.pc, steps⟩ := by
  obtain ⟨n, n', a', b', hta, htb, ⟨k, steps, hplace⟩, hlast⟩ := (hr.simulates hp).last hab h
  rw [p.step_eq_follow] at hlast
  obtain ⟨rfl, a, pc, ho, hw⟩ := follow_outOfTape hlast
  obtain ⟨⟨_, o⟩, hcode, rfl⟩ := Option.map_eq_some_iff.1 (opcode?_of_order ho)
  rw [place_of_some hcode] at hplace
  exact ⟨a, o, hcode, hw, ⟨_, steps, hta.trans hplace⟩, n', b'.steps, htb⟩

/-- The text of an instruction that is counted is a row of one symbol. -/
theorem row_of_counted (hr : p.Renders s) {k o n : Nat} {a : Action} {c : Symbol}
    (h : p.code[k]? = some ⟨.act a, o⟩) (ha : c.counted? n = some a) :
    Instruction.stop ⟨.act a, o⟩ = o + n ∧ ∀ l < n, s.bytes[o + l]? = some c.byte := by
  have htext : Opcode.text (.act a) = List.replicate n c.byte := (Symbol.text_of_counted? ha).1
  have hrow := hr.text_prefix (mem_of_getElem? h)
  rw [htext] at hrow
  constructor
  · rw [Instruction.stop, htext, List.length_replicate]
  · intro l hl
    rw [Source.getElem?_of_text hrow (by rwa [List.length_replicate]), List.getElem?_replicate,
      if_pos hl]

theorem stop_at_edge (hr : p.Renders s) (hp : p.size ≤ wordMax) (hab : p.Abreast s start start)
    {m : Machine} {d : Int} (hsize : (size : Int) ≤ Int64.maxValue.toInt)
    (h : Ends s.step start ⟨some (.outOfTape d size), m⟩) :
    ∃ i m', Ends p.step start ⟨some (.outOfTape i size), m'⟩
      ∧ Ending.Agrees ⟨some (.outOfTape d size), m⟩ ⟨some (.outOfTape i size), m'⟩
      ∧ StopAtEdge s p start size d i m m' := by
  obtain ⟨⟨f?, m'⟩, he', hagrees⟩ := (hr.simulates hp).ends_of_ends' hab h
  rcases f? with _ | f
  · cases hagrees
  obtain ⟨i, rfl⟩ := Fault.eq_of_agrees hagrees.1.symm
  obtain ⟨a, o, hcode, hw, ⟨n, steps, htakes⟩, hrefused⟩ := hr.refused hp hab he'
  obtain ⟨c, k, hc, ha⟩ : ∃ c k, (c = Symbol.right ∨ c = .left) ∧ c.counted? k = some a := by
    obtain ⟨-, -, k, rfl | rfl⟩ := World.perform_outOfTape hw
    · exact ⟨.right, k, .inl rfl, rfl⟩
    · exact ⟨.left, k, .inr rfl, rfl⟩
  obtain ⟨one, h1⟩ := Symbol.counted?_one ha
  obtain ⟨hstop, hrow⟩ := hr.row_of_counted hcode ha
  obtain ⟨l, hl, d', m₁, hends, hpc, hcells, hone⟩ :=
    Source.ends_moves hc h1 k ⟨m'.world, o, steps⟩ ha hrow hw
  -- the walk from the text of the row is the end of the run that is given
  cases ends_unique (htakes.ends_iff.2 hends) h
  obtain ⟨hedge, hsingle⟩ := World.edge_of_outOfTape hc h1 ha hsize hone hw
  have hpc : m.pc = o + l := hpc
  refine ⟨i, m', he', hagrees, hedge, hcells, ?_, hrefused, fun hno => hsingle ?_⟩
  · exact ⟨_, hcode, hpc ▸ Nat.le_add_right o l, by rw [hstop, hpc]; exact Nat.add_lt_add_left hl o,
      n, steps, htakes⟩
  · -- two moves in the row would be neighbours
    rcases Nat.lt_or_ge 1 k with hmore | hle
    · have hbyte := hc.imp (congrArg Symbol.byte) (congrArg Symbol.byte)
      exact absurd (hrow 1 hmore) (hno _ hbyte o (hrow 0 (by omega)))
    · omega

end Program.Renders

/-- Where the direct engine is stopped at an end of the tape, so is the other one. The direct engine
was to go one place off the tape, from the last cell on that side. The other one was to go as far
or farther, from the cell where the row of moves began; and it goes as far where there is nothing to
merge. They leave the same cells, and the same of their endpoints. -/
theorem engines_stop_at_edge {s : Source} {p : Program} {stats : LoweringStats}
    (hs : s.size ≤ wordMax) (hl : s.lower = .ok (p, stats)) {config : Config}
    (hh : config.heapSize < 2 ^ 63) {ends ends' : Endpoints} {fuel size steps : Nat} {d : Int}
    (h : s.run fuel config ends = some (.aborted (.outOfTape d size) steps, ends')) :
    ∃ fuel' i m m', s.execute fuel (entry config ends) = some ⟨some (.outOfTape d size), m⟩
      ∧ p.execute fuel' (entry config ends) = some ⟨some (.outOfTape i size), m'⟩
      ∧ p.run fuel' config ends = some (.aborted (.outOfTape i size) m'.steps, ends')
      ∧ size = config.heapSize
      ∧ StopAtEdge s p (entry config ends) size d i m m' := by
  have hr := Source.renders_of_lower hl
  have hrun : s.run fuel config ends = (s.execute fuel (entry config ends)).map conclude :=
    (Job.source s).run_eq fuel config ends
  rw [hrun] at h
  obtain ⟨⟨f?, m⟩, hm, hc⟩ := Option.map_eq_some_iff.1 h
  obtain ⟨hf, -⟩ := conclude_eq_aborted_iff.1 (congrArg Prod.fst hc)
  have hf : f? = some (.outOfTape d size) := hf
  subst hf
  have hsize : size = config.heapSize :=
    (Job.size_of_outOfTape (j := .source s) hm).trans (Tape.size_blank config.heapSize_pos)
  have hbalanced : (Job.source s).Balanced := Source.checkBalance_of_lower hl
  have hends : Ends s.step (entry config ends) ⟨some (.outOfTape d size), m⟩ :=
    ⟨fuel, (Job.execute_of_balanced hbalanced fuel _).symm.trans hm⟩
  have hmax : (size : Int) ≤ Int64.maxValue.toInt := by
    have : Int64.maxValue.toInt = 2 ^ 63 - 1 := by decide
    omega
  obtain ⟨i, m', ⟨fuel', hm'⟩, hagrees, hstop⟩ :=
    hr.stop_at_edge (Nat.le_trans hr.size_le hs) (hr.abreast_start _) hmax hends
  refine ⟨fuel', i, m, m', hm, hm', ?_, hsize, hstop⟩
  have hcompletion : (conclude ⟨some (.outOfTape i size), m'⟩).1
      = .aborted (.outOfTape i size) m'.steps := conclude_eq_aborted_iff.2 ⟨rfl, rfl⟩
  have hrun' : p.run fuel' config ends = (p.execute fuel' (entry config ends)).map conclude :=
    (Job.program p).run_eq fuel' config ends
  rw [hrun', show p.execute fuel' (entry config ends) = _ from hm', Option.map_some]
  exact congrArg some (Prod.ext hcompletion (by rw [← (conclude_agrees hagrees).2, hc]))

/-- Three moves to the right on two cells: the one engine is refused the second, and the other all
three. -/
theorem engines_stop_at_edge_three : ∃ m m',
    (⟨#[62, 62, 62]⟩ : Source).execute 2 (entry ⟨2, .ir, by decide⟩ (.ofBytes []))
      = some ⟨some (.outOfTape 2 2), m⟩
    ∧ Program.execute ⟨#[⟨.act (.right 3), 0⟩]⟩ 1 (entry ⟨2, .ir, by decide⟩ (.ofBytes []))
      = some ⟨some (.outOfTape 3 2), m'⟩
    ∧ StopAtEdge ⟨#[62, 62, 62]⟩ ⟨#[⟨.act (.right 3), 0⟩]⟩ (entry ⟨2, .ir, by decide⟩ (.ofBytes []))
      2 2 3 m m' := by
  have hs : (⟨#[62, 62, 62]⟩ : Source).size ≤ wordMax := by decide
  have hl : (⟨#[62, 62, 62]⟩ : Source).lower
      = .ok (⟨#[⟨.act (.right 3), 0⟩]⟩, ⟨3, 1, 1, 0, 0⟩) := by cbv
  have hdirect : (⟨#[62, 62, 62]⟩ : Source).run 2 ⟨2, .ir, by decide⟩ (.ofBytes [])
      = some (.aborted (.outOfTape 2 2) 2, ⟨⟨[.bytes []]⟩, {}, #[.flushed]⟩) := by cbv
  have hlowered : Program.execute ⟨#[⟨.act (.right 3), 0⟩]⟩ 1
      (entry ⟨2, .ir, by decide⟩ (.ofBytes [])) = some ⟨some (.outOfTape 3 2),
        ⟨⟨⟨#[0, 0], 0, by decide⟩, { ends := ⟨⟨[.bytes []]⟩, {}, #[]⟩ }⟩, 0, 1⟩⟩ := by cbv
  obtain ⟨fuel', i, m, m', hm, hm', -, -, hstop⟩ :=
    engines_stop_at_edge hs hl (show 2 < 2 ^ 63 by decide) hdirect
  cases ends_unique ⟨fuel', hm'⟩ ⟨1, hlowered⟩
  exact ⟨m, _, hm, hlowered, hstop⟩

end TapeMachine
