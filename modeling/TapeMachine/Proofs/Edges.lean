import TapeMachine.Proofs.Jobs

/-!
# The ends of the tape

Only a move is refused for the tape, and it is refused as a whole (`World.perform_outOfTape`). What
is not refused changes the cell under the head at most (`World.kept_of_perform`). So no step changes
the length of the tape, and a fault at one of its ends tells the length that the run began with
(`Job.size_of_outOfTape`); and it tells the place to which the move would have gone, kept within a
signed word.
-/

namespace TapeMachine

open Machine

/-! ## The place that a fault names -/

theorem clampHead_mono {i j : Int} (h : i ≤ j) : clampHead i ≤ clampHead j := by
  unfold clampHead
  omega

theorem clampHead_of_nonneg {i : Int} (h : 0 ≤ i) (hi : i ≤ Int64.maxValue.toInt) :
    clampHead i = i := by
  have hmin : Int64.minValue.toInt ≤ 0 := by decide
  unfold clampHead
  omega

theorem clampHead_nonneg {i : Int} (h : 0 ≤ i) : 0 ≤ clampHead i := clampHead_mono h

theorem clampHead_neg {i : Int} (h : i < 0) : clampHead i < 0 := by
  have hmin : Int64.minValue.toInt < 0 := by decide
  unfold clampHead
  omega

/-! ## Moves -/

namespace World

variable {w w' : World} {n size : Nat} {i : Int} {f : Fault}

theorem perform_right_ok (h : w.perform (.right n) = .ok () w') :
    w'.tape.cells = w.tape.cells :=
  (Tape.right_ok (move_ok (w := w) (g := (·.right n)) h).1).1

theorem perform_left_ok (h : w.perform (.left n) = .ok () w') : w'.tape.cells = w.tape.cells :=
  (Tape.left_ok (move_ok (w := w) (g := (·.left n)) h).1).1

theorem perform_right_error (h : w.perform (.right n) = .error f w') :
    w' = w ∧ w.tape.size ≤ w.tape.head + n
      ∧ f = .outOfTape (clampHead (w.tape.head + n)) w.tape.size := by
  obtain ⟨rfl, hf⟩ := move_error (w := w) (g := (·.right n)) h
  exact ⟨rfl, Tape.right_error hf⟩

theorem perform_left_error (h : w.perform (.left n) = .error f w') :
    w' = w ∧ w.tape.head < n
      ∧ f = .outOfTape (clampHead (w.tape.head - n)) w.tape.size := by
  obtain ⟨rfl, hf⟩ := move_error (w := w) (g := (·.left n)) h
  exact ⟨rfl, Tape.left_error hf⟩

/-- Only a move goes out of the tape. It is refused as a whole. -/
theorem perform_outOfTape {a : Action} (h : w.perform a = .error (.outOfTape i size) w') :
    w' = w ∧ size = w.tape.size ∧ ∃ n, a = .right n ∨ a = .left n := by
  cases a with
  | add n => cases h
  | sub n => cases h
  | clear => cases h
  | right n =>
    obtain ⟨rfl, -, hf⟩ := perform_right_error h
    cases hf
    exact ⟨rfl, rfl, n, .inl rfl⟩
  | left n =>
    obtain ⟨rfl, -, hf⟩ := perform_left_error h
    cases hf
    exact ⟨rfl, rfl, n, .inr rfl⟩
  | output =>
    simp only [perform, output] at h
    split at h <;> cases h
  | input =>
    simp only [perform, input] at h
    split at h <;> cases h

end World

namespace Machine

theorem follow_outOfTape {m m' : Machine} {o : Order} {i : Int} {size : Nat}
    (h : m.follow o = .failed (.outOfTape i size) m') : m' = { m with steps := m.steps + 1 } ∧
      ∃ a pc, o = .act a pc ∧ m.world.perform a = .error (.outOfTape i size) m.world := by
  cases o with
  | halt => cases h
  | pass => cases h
  | jump pc => cases h
  | act a pc =>
    simp only [follow, act] at h
    split at h <;> cases h
    rename_i hw
    obtain ⟨rfl, -⟩ := World.perform_outOfTape hw
    exact ⟨rfl, a, pc, rfl, hw⟩

end Machine

/-! ## What an action leaves of the tape -/

namespace Tape

theorem size_set (t : Tape) (v : UInt8) : (t.set v).size = t.size :=
  Array.size_set t.head_lt

theorem size_blank {n : Nat} (h : 0 < n) : (blank n h).size = n := Array.size_replicate

/-- A tape of the same length, and with the same cells but for the one under the head of `t`. -/
structure Kept (t u : Tape) : Prop where
  size : u.size = t.size
  cell : ∀ i, i ≠ t.head → u.cells[i]? = t.cells[i]?

theorem kept_set (t : Tape) (v : UInt8) : t.Kept (t.set v) where
  size := t.size_set v
  cell i hi := by
    unfold set
    rw [Array.getElem?_set, if_neg (Ne.symm hi)]

theorem kept_of_cells {t u : Tape} (h : u.cells = t.cells) : t.Kept u where
  size := congrArg Array.size h
  cell i _ := by rw [h]

end Tape

namespace World

variable {w w' : World} {a : Action} {f : Fault}

theorem kept_of_perform (h : w.perform a = .ok () w') : w.tape.Kept w'.tape := by
  cases a with
  | add n =>
    cases h
    exact w.tape.kept_set _
  | sub n =>
    cases h
    exact w.tape.kept_set _
  | clear =>
    cases h
    exact w.tape.kept_set 0
  | right n => exact Tape.kept_of_cells (perform_right_ok h)
  | left n => exact Tape.kept_of_cells (perform_left_ok h)
  | output =>
    simp only [perform, output] at h
    split at h <;> cases h
    exact ⟨rfl, fun _ _ => rfl⟩
  | input =>
    simp only [perform, input] at h
    split at h <;> cases h
    exact w.tape.kept_set _

theorem tape_of_perform_error (h : w.perform a = .error f w') : w'.tape = w.tape := by
  cases a with
  | right n => rw [(perform_right_error h).1]
  | left n => rw [(perform_left_error h).1]
  | output =>
    simp only [perform, output] at h
    split at h <;> cases h
    rfl
  | input =>
    simp only [perform, input] at h
    split at h <;> cases h
    rfl
  | _ => cases h

end World

/-- No order changes the length of the tape. -/
theorem Machine.size_follow (m : Machine) (o : Order) :
    (m.follow o).machine.world.tape.size = m.world.tape.size := by
  cases o with
  | halt => rfl
  | pass => rfl
  | jump pc => rfl
  | act a pc =>
    simp only [follow, act]
    rcases hw : m.world.perform a with ⟨⟨⟩, w⟩ | ⟨f, w⟩
    · exact (World.kept_of_perform hw).size
    · exact congrArg Tape.size (World.tape_of_perform_error hw)

namespace Job

variable {j : Job} {fuel : Nat} {m : Machine}

/-- A fault at an end of the tape tells the length of the tape. -/
theorem size_of_outOfTape {i : Int} {size : Nat} {m' : Machine}
    (h : j.execute fuel m = some ⟨some (.outOfTape i size), m'⟩) : size = m.world.tape.size := by
  rcases j.balanced_or_failed with hj | ⟨f, hf, hfail⟩
  · rw [execute_of_balanced hj] at h
    obtain ⟨n, b, ht, hb⟩ := exists_last h
    have hsize : b.world.tape.size = m.world.tape.size := by
      refine ht.keeps (P := fun c => c.world.tape.size = m.world.tape.size) ?_ rfl
      intro c d hc hd
      have hfollow := c.size_follow (j.order c.world.tape.current c.pc)
      rw [← engine_eq_follow hj, hd] at hfollow
      exact hfollow.trans hc
    rw [engine_eq_follow hj] at hb
    obtain ⟨-, a, pc, -, hw⟩ := follow_outOfTape hb
    exact (World.perform_outOfTape hw).2.1.trans hsize
  · rw [hfail] at h
    cases h
    cases hf

end Job

end TapeMachine
