import TapeMachine.Proofs.Steps

/-!
# The loops of a program

A program whose loop ends were checked is a row of actions and loops, and each loop has such a row
as its body (`Program.exists_code`). The check compares a loop start with the opcode at its target,
and a loop end with the innermost loop; what remains to be seen is that both mean the same loop.
-/

namespace TapeMachine

/-- Actions and loops, one after the other. -/
inductive Code where
  | done
  | act (action : Action) (rest : Code)
  | loop (body rest : Code)

namespace Code

def size : Code → Nat
  | done => 0
  | act _ rest => rest.size + 1
  | loop body rest => body.size + rest.size + 2

/-- The code stands in a program, from index `k` on. -/
def At (p : Program) : Code → Nat → Prop
  | done, _ => True
  | act a rest, k => p.opcode? k = some (.act a) ∧ rest.At p (k + 1)
  | loop body rest, k =>
    p.opcode? k = some (.loopStart (k + body.size + 1)) ∧ body.At p (k + 1)
      ∧ p.opcode? (k + body.size + 1) = some (.loopEnd k) ∧ rest.At p (k + body.size + 2)

theorem add_size_act (k : Nat) (a : Action) (rest : Code) :
    k + (act a rest).size = k + 1 + rest.size := by
  rw [size]
  omega

theorem add_size_loop (k : Nat) (body rest : Code) :
    k + (loop body rest).size = k + body.size + 2 + rest.size := by
  rw [size]
  omega

end Code

/-- If a loop ends or starts at `q`, the opcode at its target refers back to `q`. No loop that ends
there starts before `k`. -/
structure Program.Paired (p : Program) (k q : Nat) : Prop where
  start : ∀ x, p.opcode? q = some (.loopStart x) → p.opcode? x = some (.loopEnd q)
  stop : ∀ x, p.opcode? q = some (.loopEnd x) → k ≤ x ∧ p.opcode? x = some (.loopStart q)

theorem Program.Paired.mono {p : Program} {k k' q : Nat} (h : p.Paired k' q) (hk : k ≤ k') :
    p.Paired k q :=
  ⟨h.start, fun x hx => ⟨Nat.le_trans hk (h.stop x hx).1, (h.stop x hx).2⟩⟩

theorem Code.At.paired {p : Program} : ∀ {c : Code} {k : Nat}, c.At p k → ∀ {q : Nat}, k ≤ q →
    q < k + c.size → p.Paired k q
  | .done, k, _, q, hk, hq => absurd hq (Nat.not_lt.2 hk)
  | .act a rest, k, ⟨ha, hrest⟩, q, hk, hq => by
    rw [Code.add_size_act] at hq
    rcases Nat.eq_or_lt_of_le hk with rfl | hlt
    · exact ⟨fun x hx => by simp [ha] at hx, fun x hx => by simp [ha] at hx⟩
    · exact (paired hrest hlt hq).mono (Nat.le_succ k)
  | .loop body rest, k, ⟨hstart, hbody, hend, hrest⟩, q, hk, hq => by
    rw [Code.add_size_loop] at hq
    rcases Nat.eq_or_lt_of_le hk with rfl | hlt
    · refine ⟨fun x hx => ?_, fun x hx => by simp [hstart] at hx⟩
      rw [hstart] at hx
      cases hx
      exact hend
    rcases Nat.lt_trichotomy q (k + body.size + 1) with hq' | rfl | hq'
    · exact (paired hbody hlt (by omega)).mono (Nat.le_succ k)
    · refine ⟨fun x hx => by simp [hend] at hx, fun x hx => ?_⟩
      rw [hend] at hx
      cases hx
      exact ⟨Nat.le_refl _, hstart⟩
    · exact (paired hrest hq' hq).mono (by omega)

namespace Program

variable {p : Program}

theorem getElem?_opcodes (p : Program) (k : Nat) : p.opcodes[k]? = p.opcode? k := by
  rw [opcodes, List.getElem?_map, Array.getElem?_toList, opcode?]

theorem drop_opcodes {k : Nat} {op : Opcode} (h : p.opcode? k = some op) :
    p.opcodes.drop k = op :: p.opcodes.drop (k + 1) := by
  rw [← getElem?_opcodes] at h
  obtain ⟨hk, rfl⟩ := List.getElem?_eq_some_iff.1 h
  exact List.drop_eq_getElem_cons hk

theorem drop_opcodes_of_le {k : Nat} (h : p.size ≤ k) : p.opcodes.drop k = [] :=
  List.drop_eq_nil_iff.2 (by simpa [opcodes, size] using h)

/-- An accepted loop end belongs to a loop that was open before, or that was opened since. -/
theorem checkLoopsFrom_loopEnd : ∀ {ops : List Opcode} {i : Nat} {st : List Nat},
    p.checkLoopsFrom ops i st = .ok () → ∀ {k x : Nat}, ops[k]? = some (.loopEnd x) →
    x ∈ st ∨ i ≤ x ∧ x < i + k
  | [], _, _, _, k, x, hk => by simp at hk
  | .act a :: rest, i, st, h, 0, x, hk => by simp at hk
  | .act a :: rest, i, st, h, k + 1, x, hk => by
    simp only [checkLoopsFrom] at h
    rcases checkLoopsFrom_loopEnd h hk with hx | hx
    · exact .inl hx
    · exact .inr (by omega)
  | .loopStart t :: rest, i, st, h, 0, x, hk => by simp at hk
  | .loopStart t :: rest, i, st, h, k + 1, x, hk => by
    simp only [checkLoopsFrom] at h
    split at h
    · cases h
    split at h
    · rcases checkLoopsFrom_loopEnd h hk with hx | hx
      · rcases List.mem_cons.1 hx with rfl | hx
        · exact .inr (by omega)
        · exact .inl hx
      · exact .inr (by omega)
    · cases h
  | .loopEnd t :: rest, i, [], h, k, x, hk => by cases h
  | .loopEnd t :: rest, i, start :: outer, h, k, x, hk => by
    simp only [checkLoopsFrom] at h
    split at h
    · rename_i hs
      cases k with
      | zero =>
        cases hk
        exact .inl (hs ▸ List.mem_cons_self)
      | succ k =>
        rcases checkLoopsFrom_loopEnd h hk with hx | hx
        · exact .inl (List.mem_cons_of_mem _ hx)
        · exact .inr (by omega)
    · cases h

/-- A loop start refers to the end that the check takes for the end of its loop: no other loop end
refers to it. -/
theorem eq_of_checkLoops (hok : p.checkLoops = .ok ()) {i t : Nat}
    (hi : p.opcode? i = some (.loopStart t)) (ht : p.opcode? t = some (.loopEnd i)) {body : Code}
    (hbody : body.At p (i + 1)) {st : List Nat} (hst : ∀ x ∈ st, x < i)
    (hr : p.checkLoopsFrom (p.opcodes.drop (i + body.size + 2)) (i + body.size + 2) st = .ok ()) :
    t = i + body.size + 1 := by
  have hit : i < t := by
    rcases checkLoopsFrom_loopEnd hok (k := t) (by rw [getElem?_opcodes, ht]) with hx | hx
    · cases hx
    · omega
  rcases Nat.lt_trichotomy t (i + body.size + 1) with hlt | rfl | hgt
  · have := ((hbody.paired hit (by omega)).stop i ht).1
    omega
  · rfl
  · have hk : (p.opcodes.drop (i + body.size + 2))[t - (i + body.size + 2)]?
        = some (.loopEnd i) := by
      rw [List.getElem?_drop, Nat.add_sub_cancel' (by omega), getElem?_opcodes, ht]
    rcases checkLoopsFrom_loopEnd hr hk with hx | hx
    · have := hst i hx
      omega
    · omega

/-- The innermost open loop ends at `j`, and the check accepts what comes after it. If no loop is
open, the program ends at `j`. -/
def Stops (p : Program) (j : Nat) : List Nat → Prop
  | [] => j = p.size
  | start :: outer => p.opcode? j = some (.loopEnd start)
    ∧ p.checkLoopsFrom (p.opcodes.drop (j + 1)) (j + 1) outer = .ok ()

/-- What the check accepts begins with code, up to the end of the innermost open loop. -/
theorem exists_code_at (hok : p.checkLoops = .ok ()) (n : Nat) : ∀ {i : Nat} {st : List Nat},
    p.size - i < n → i ≤ p.size → (∀ x ∈ st, x < i) →
    p.checkLoopsFrom (p.opcodes.drop i) i st = .ok () →
    ∃ c : Code, c.At p i ∧ p.Stops (i + c.size) st := by
  induction n with
  | zero => intro i st hn; omega
  | succ n ih =>
    intro i st hn hi hst h
    rcases hop : p.opcode? i with _ | op
    · have hsize := size_le_of_opcode? hop
      rw [drop_opcodes_of_le hsize] at h
      cases st with
      | nil => exact ⟨.done, trivial, Nat.le_antisymm hi hsize⟩
      | cons start outer => cases h
    have hlt := lt_size_of_opcode? hop
    have hst' : ∀ x ∈ st, x < i + 1 := fun x hx => Nat.lt_succ_of_lt (hst x hx)
    rw [drop_opcodes hop] at h
    cases op with
    | act a =>
      obtain ⟨c, hc, hstop⟩ := ih (by omega) hlt hst' h
      refine ⟨.act a c, ⟨hop, hc⟩, ?_⟩
      rwa [Code.add_size_act]
    | loopStart t =>
      simp only [checkLoopsFrom] at h
      split at h
      · cases h
      split at h
      · rename_i hend
        obtain ⟨body, hbody, hclose, hafter⟩ := ih (by omega) hlt
          (List.forall_mem_cons.2 ⟨Nat.lt_succ_self i, hst'⟩) h
        rw [Nat.add_right_comm i 1] at hclose hafter
        have ht := eq_of_checkLoops hok hop hend hbody hst hafter
        have hle := lt_size_of_opcode? hclose
        obtain ⟨c, hc, hstop⟩ := ih (by omega) hle
          (fun x hx => by have := hst x hx; omega) hafter
        refine ⟨.loop body c, ⟨by rw [hop, ht], hbody, hclose, hc⟩, ?_⟩
        rw [Code.add_size_loop]
        exact hstop
      · cases h
    | loopEnd t =>
      cases st with
      | nil => cases h
      | cons start outer =>
        simp only [checkLoopsFrom] at h
        split at h
        · rename_i hs
          subst hs
          exact ⟨.done, trivial, hop, h⟩
        · cases h

theorem exists_code (hok : p.checkLoops = .ok ()) : ∃ c : Code, c.At p 0 ∧ c.size = p.size := by
  obtain ⟨c, hc, hstop⟩ := exists_code_at hok (p.size + 1) (Nat.lt_succ_self _) (Nat.zero_le _)
    (List.forall_mem_nil _) hok
  rw [Nat.zero_add] at hstop
  exact ⟨c, hc, hstop⟩

end Program

end TapeMachine
