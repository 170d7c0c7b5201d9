import TapeMachine.Engine.Machine

/-!
# Counted actions

A counted action is its parts one after the other: to move by `m + n` is to move by `m` and then by
`n`, and so for all symbols that are counted (`World.perform_add`). When the tape is too short, both
are refused, with the same length of the tape but not always with the same head.
-/

namespace TapeMachine

/-- The same fault, but for the place to which a refused move would have gone. -/
def Fault.Agrees : Fault → Fault → Prop
  | outOfTape _ size, outOfTape _ size' => size = size'
  | f, f' => f = f'

theorem Fault.Agrees.refl (f : Fault) : f.Agrees f := by
  cases f <;> rfl

theorem Fault.Agrees.trans {f g k : Fault} (h : f.Agrees g) (h' : g.Agrees k) : f.Agrees k := by
  cases f with
  | outOfTape i n =>
    cases g with
    | outOfTape =>
      cases h
      cases k with
      | outOfTape => exact h'
      | _ => cases h'
    | _ => cases h
  | _ =>
    cases h
    exact h'

theorem Fault.Agrees.symm {f g : Fault} (h : f.Agrees g) : g.Agrees f := by
  cases f <;> cases g <;> cases h <;> rfl

theorem Fault.eq_of_agrees {f : Fault} {i : Int} {size : Nat} (h : f.Agrees (outOfTape i size)) :
    ∃ j, f = outOfTape j size := by
  cases f <;> cases h
  exact ⟨_, rfl⟩

namespace Tape

theorem current_set (t : Tape) (v : UInt8) : (t.set v).current = v := by
  simp [current, set]

theorem set_set (t : Tape) (v w : UInt8) : (t.set v).set w = t.set w := by
  simp [set]

theorem set_current (t : Tape) : t.set t.current = t := by
  obtain ⟨cells, head, h⟩ := t
  simp [set, current]

theorem add_add (t : Tape) (m n : Nat) : (t.add m).add n = t.add (m + n) := by
  simp only [add, current_set, set_set, UInt8.ofNat_add, UInt8.add_assoc]

theorem sub_sub (t : Tape) (m n : Nat) : (t.sub m).sub n = t.sub (m + n) := by
  simp only [sub, current_set, set_set, UInt8.ofNat_add]
  congr 1
  grind

/-- Two moves arrive at the same place, or both are refused. -/
def SameMove (x y : Except Fault Tape) : Prop :=
  (∃ t, x = .ok t ∧ y = .ok t)
    ∨ ∃ i j size, x = .error (.outOfTape i size) ∧ y = .error (.outOfTape j size)

theorem right_of_lt {t : Tape} {n : Nat} (h : t.head + n < t.cells.size) :
    t.right n = .ok ⟨t.cells, t.head + n, h⟩ := dif_pos h

theorem right_of_le {t : Tape} {n : Nat} (h : t.cells.size ≤ t.head + n) :
    t.right n = .error (.outOfTape (clampHead (t.head + n)) t.size) := dif_neg (by omega)

theorem left_of_le {t : Tape} {n : Nat} (h : n ≤ t.head) : t.left n
    = .ok ⟨t.cells, t.head - n, Nat.lt_of_le_of_lt (Nat.sub_le ..) t.head_lt⟩ := if_pos h

theorem left_of_lt {t : Tape} {n : Nat} (h : t.head < n) :
    t.left n = .error (.outOfTape (clampHead (t.head - n)) t.size) := if_neg (by omega)

theorem right_ok {t u : Tape} {n : Nat} (h : t.right n = .ok u) :
    u.cells = t.cells ∧ u.head = t.head + n := by
  rcases Nat.lt_or_ge (t.head + n) t.cells.size with hn | hn
  · rw [right_of_lt hn] at h
    cases h
    exact ⟨rfl, rfl⟩
  · rw [right_of_le hn] at h
    cases h

theorem right_error {t : Tape} {n : Nat} {f : Fault} (h : t.right n = .error f) :
    t.size ≤ t.head + n ∧ f = .outOfTape (clampHead (t.head + n)) t.size := by
  rcases Nat.lt_or_ge (t.head + n) t.cells.size with hn | hn
  · rw [right_of_lt hn] at h
    cases h
  · rw [right_of_le hn] at h
    cases h
    exact ⟨hn, rfl⟩

theorem left_ok {t u : Tape} {n : Nat} (h : t.left n = .ok u) :
    u.cells = t.cells ∧ u.head + n = t.head := by
  rcases Nat.lt_or_ge t.head n with hn | hn
  · rw [left_of_lt hn] at h
    cases h
  · rw [left_of_le hn] at h
    cases h
    exact ⟨rfl, Nat.sub_add_cancel hn⟩

theorem left_error {t : Tape} {n : Nat} {f : Fault} (h : t.left n = .error f) :
    t.head < n ∧ f = .outOfTape (clampHead (t.head - n)) t.size := by
  rcases Nat.lt_or_ge t.head n with hn | hn
  · rw [left_of_lt hn] at h
    cases h
    exact ⟨hn, rfl⟩
  · rw [left_of_le hn] at h
    cases h

theorem right_add (t : Tape) (m n : Nat) :
    SameMove ((t.right m).bind (·.right n)) (t.right (m + n)) := by
  rcases Nat.lt_or_ge (t.head + m) t.cells.size with hm | hm
  · rw [right_of_lt hm]
    rcases Nat.lt_or_ge (t.head + m + n) t.cells.size with hn | hn
    · refine .inl ⟨⟨t.cells, t.head + m + n, hn⟩, right_of_lt hn, ?_⟩
      rw [right_of_lt (by omega)]
      simp only [Nat.add_assoc]
    · exact .inr ⟨_, _, _, right_of_le hn, right_of_le (by omega)⟩
  · rw [right_of_le hm]
    exact .inr ⟨_, _, _, rfl, right_of_le (by omega)⟩

theorem left_add (t : Tape) (m n : Nat) :
    SameMove ((t.left m).bind (·.left n)) (t.left (m + n)) := by
  rcases Nat.lt_or_ge t.head m with hm | hm
  · rw [left_of_lt hm]
    exact .inr ⟨_, _, _, rfl, left_of_lt (by omega)⟩
  · rw [left_of_le hm]
    have hlt : t.head - m < t.cells.size := Nat.lt_of_le_of_lt (Nat.sub_le ..) t.head_lt
    rcases Nat.lt_or_ge (t.head - m) n with hn | hn
    · exact .inr ⟨_, _, _, left_of_lt (t := ⟨t.cells, t.head - m, hlt⟩) hn, left_of_lt (by omega)⟩
    · refine .inl ⟨⟨t.cells, t.head - m - n, by omega⟩,
        left_of_le (t := ⟨t.cells, t.head - m, hlt⟩) hn, ?_⟩
      rw [left_of_le (by omega)]
      simp only [Nat.sub_add_eq]

end Tape

namespace World

/-- The same world, or faults that agree after the same use of the endpoints. -/
def Result.Agrees : Result → Result → Prop
  | .ok _ w, .ok _ w' => w = w'
  | .error f w, .error f' w' => f.Agrees f' ∧ w.channel = w'.channel
  | _, _ => False

def Result.andThen (r : Result) (k : World → Result) : Result :=
  match r with
  | .ok _ w => k w
  | .error f w => .error f w

theorem move_ok {w w' : World} {g : Tape → Except Fault Tape} (h : w.move g = .ok () w') :
    g w.tape = .ok w'.tape ∧ w'.channel = w.channel := by
  unfold move at h
  split at h <;> cases h
  exact ⟨‹_›, rfl⟩

theorem move_error {w w' : World} {g : Tape → Except Fault Tape} {f : Fault}
    (h : w.move g = .error f w') : w' = w ∧ g w.tape = .error f := by
  unfold move at h
  split at h <;> cases h
  exact ⟨rfl, ‹_›⟩

theorem move_add (w : World) (f g k : Tape → Except Fault Tape)
    (h : Tape.SameMove ((f w.tape).bind g) (k w.tape)) :
    ((w.move f).andThen (·.move g)).Agrees (w.move k) := by
  unfold move
  rcases hf : f w.tape with e | t <;> rw [hf] at h
  · rcases h with ⟨t, he, -⟩ | ⟨i, j, size, he, hk⟩
    · cases he
    · cases he
      rw [hk]
      exact ⟨rfl, rfl⟩
  · rcases h with ⟨u, hg, hk⟩ | ⟨i, j, size, hg, hk⟩
    · simp only [Except.bind] at hg
      simp only [Result.andThen, hg, hk]
      rfl
    · simp only [Except.bind] at hg
      simp only [Result.andThen, hg, hk]
      exact ⟨rfl, rfl⟩

theorem perform_add {c : Symbol} {m n : Nat} {a b ab : Action} (ha : c.counted? m = some a)
    (hb : c.counted? n = some b) (hab : c.counted? (m + n) = some ab) (w : World) :
    ((w.perform a).andThen (·.perform b)).Agrees (w.perform ab) := by
  cases c <;> cases ha <;> cases hb <;> cases hab
  · simp only [perform, Result.andThen, Tape.add_add]
    rfl
  · simp only [perform, Result.andThen, Tape.sub_sub]
    rfl
  · exact w.move_add (·.right m) (·.right n) (·.right (m + n)) (w.tape.right_add m n)
  · exact w.move_add (·.left m) (·.left n) (·.left (m + n)) (w.tape.left_add m n)

end World

end TapeMachine
