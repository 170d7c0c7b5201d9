import TapeMachine.Proofs.Running
import TapeMachine.Proofs.Structure

/-!
# The meaning of a program

Code runs as it is nested: the body of a loop is repeated while the current cell is not zero, and
the cell is tested before every round (`Code.Runs`). The engine for lowered programs, which only
jumps, does what the code of the program does (`reaches_of_runs`, `runs_of_run`). At the end of a
loop it does the same as at its start (`step_end`), so that it need not go back there.
-/

namespace TapeMachine

open Machine

namespace Code

/-- What running code on a world comes to: a fault or none, and the world that is left. Code that
goes on for ever comes to nothing. -/
inductive Runs : Code → World → Option Fault → World → Prop
  | done (w : World) : Runs .done w none w
  | act {a : Action} {rest : Code} {w w' w'' : World} {f : Option Fault}
    (h : w.perform a = .ok () w') (hr : Runs rest w' f w'') : Runs (.act a rest) w f w''
  | fault {a : Action} {rest : Code} {w w' : World} {f : Fault}
    (h : w.perform a = .error f w') : Runs (.act a rest) w (some f) w'
  | skip {body rest : Code} {w w' : World} {f : Option Fault}
    (h : w.tape.current = 0) (hr : Runs rest w f w') : Runs (.loop body rest) w f w'
  | again {body rest : Code} {w w' w'' : World} {f : Option Fault}
    (h : w.tape.current ≠ 0) (hb : Runs body w none w') (hr : Runs (.loop body rest) w' f w'') :
    Runs (.loop body rest) w f w''
  | broken {body rest : Code} {w w' : World} {f : Fault}
    (h : w.tape.current ≠ 0) (hb : Runs body w (some f) w') : Runs (.loop body rest) w (some f) w'

end Code

namespace Program

variable {p : Program} {k : Nat}

/-- At the start of a loop the engine jumps behind the loop or into it. -/
theorem step_start (hp : p.size ≤ wordMax) {body rest : Code} (hc : (Code.loop body rest).At p k)
    (w : World) (n : Nat) : p.step ⟨w, k, n⟩ = .next
      ⟨w, if w.tape.current = 0 then k + body.size + 2 else k + 1, n + 1⟩ := by
  obtain ⟨hstart, -, hend, -⟩ := hc
  rw [step_loopStart hstart]
  simp only [jump]
  split
  · rw [after_of_opcode? hp hend]
  · rw [after_of_opcode? hp hstart]

/-- At the end of a loop the engine does what it does at its start. -/
theorem step_end (hp : p.size ≤ wordMax) {body rest : Code} (hc : (Code.loop body rest).At p k)
    (w : World) (n : Nat) : p.step ⟨w, k + body.size + 1, n⟩ = p.step ⟨w, k, n⟩ := by
  rw [step_start hp hc]
  obtain ⟨hstart, -, hend, -⟩ := hc
  rw [step_loopEnd hend]
  simp only [jump]
  split
  · rw [after_of_opcode? hp hend]
  · rw [after_of_opcode? hp hstart]

/-- The engine comes from `m` to the fault, or without one to `stop`, and leaves the world. -/
def Reaches (p : Program) (m : Machine) (stop : Nat) : Option Fault → World → Prop
  | none, w => ∃ n steps, Takes p.step n m ⟨w, stop, steps⟩
  | some f, w => ∃ pc steps, Ends p.step m ⟨some f, ⟨w, pc, steps⟩⟩

theorem Reaches.after {m m' : Machine} {stop n : Nat} {f : Option Fault} {w : World}
    (ht : Takes p.step n m m') (h : p.Reaches m' stop f w) : p.Reaches m stop f w := by
  cases f with
  | none =>
    obtain ⟨n', steps, h⟩ := h
    exact ⟨n + n', steps, ht.trans h⟩
  | some f =>
    obtain ⟨pc, steps, h⟩ := h
    exact ⟨pc, steps, ht.ends_iff.2 h⟩

theorem Reaches.congr {m m' : Machine} {stop : Nat} {f : Option Fault} {w : World}
    (hstep : p.step m = p.step m') (hpc : m'.pc ≠ stop) (h : p.Reaches m' stop f w) :
    p.Reaches m stop f w := by
  cases f with
  | none =>
    obtain ⟨_ | n, steps, h⟩ := h
    · cases h
      exact absurd rfl hpc
    · obtain ⟨d, hd, h⟩ := h
      exact ⟨n + 1, steps, d, hstep.trans hd, h⟩
  | some f =>
    obtain ⟨pc, steps, _ | fuel, h⟩ := h
    · cases h
    · refine ⟨pc, steps, fuel + 1, ?_⟩
      rwa [Machine.run, hstep]

theorem reaches_of_runs (hp : p.size ≤ wordMax) {c : Code} {w w' : World} {f : Option Fault}
    (hr : c.Runs w f w') : ∀ {k : Nat}, c.At p k → ∀ n, p.Reaches ⟨w, k, n⟩ (k + c.size) f w' := by
  induction hr with
  | done w =>
    intro k _ n
    exact ⟨0, n, rfl⟩
  | @act a rest w w' w'' f h hr ih =>
    intro k ⟨ha, hrest⟩ n
    have hstep : p.step ⟨w, k, n⟩ = .next ⟨w', k + 1, n + 1⟩ := by
      rw [step_act ha, Machine.act, h, after_of_opcode? hp ha]
    rw [Code.add_size_act]
    exact .after (Takes.one hstep) (ih hrest (n + 1))
  | @fault a rest w w' f h =>
    intro k ⟨ha, _⟩ n
    have hstep : p.step ⟨w, k, n⟩ = .failed f ⟨w', k, n + 1⟩ := by
      rw [step_act ha, Machine.act, h]
    exact ⟨k, n + 1, ends_of_failed hstep⟩
  | @skip body rest w w' f h hr ih =>
    intro k hc n
    have hstep := step_start hp hc w n
    rw [if_pos h] at hstep
    rw [Code.add_size_loop]
    exact .after (Takes.one hstep) (ih hc.2.2.2 (n + 1))
  | @again body rest w w' w'' f h hb hr ihb ih =>
    intro k hc n
    have hstep := step_start hp hc w n
    rw [if_neg h] at hstep
    obtain ⟨m, n', ht⟩ := ihb hc.2.1 (n + 1)
    rw [Nat.add_right_comm] at ht
    refine .after (Takes.one hstep) (.after ht ?_)
    refine .congr (step_end hp hc w' n') ?_ (ih hc n')
    rw [Code.add_size_loop]
    show k ≠ _
    omega
  | @broken body rest w w' f h hb ih =>
    intro k hc n
    have hstep := step_start hp hc w n
    rw [if_neg h] at hstep
    exact .after (Takes.one hstep) (ih hc.2.1 (n + 1))

/-- A run that ends in `e` has come to `stop` with so much fuel at most, or `e` is a fault. -/
def Leaves (p : Program) (e : Ending) (fuel stop : Nat) : Option Fault → World → Prop
  | none, w => ∃ n rest, rest ≤ fuel ∧ Machine.run p.step rest ⟨w, stop, n⟩ = some e
  | some f, w => e.fault? = some f ∧ e.machine.world = w

theorem Leaves.mono {e : Ending} {fuel fuel' stop : Nat} (hle : fuel ≤ fuel') :
    ∀ {f : Option Fault} {w : World}, p.Leaves e fuel stop f w → p.Leaves e fuel' stop f w
  | none, _, ⟨n, rest, hrest, h⟩ => ⟨n, rest, Nat.le_trans hrest hle, h⟩
  | some _, _, h => h

/-- A run of the engine that ends has gone through the code at which it began, or has failed there.
The induction is on the length of the run: a round of a loop makes it shorter. -/
theorem runs_of_run (hp : p.size ≤ wordMax) {e : Ending} (fuel : Nat) : ∀ {c : Code} {k : Nat}
    {w : World} {n : Nat}, c.At p k → Machine.run p.step fuel ⟨w, k, n⟩ = some e →
    ∃ f w', c.Runs w f w' ∧ p.Leaves e fuel (k + c.size) f w' := by
  induction fuel using Nat.strongRecOn with
  | _ fuel ih =>
    intro c k w n hc h
    cases c with
    | done => exact ⟨none, w, .done w, n, fuel, Nat.le_refl _, h⟩
    | act a rest =>
      obtain ⟨ha, hrest⟩ := hc
      have hstep := step_act (m := ⟨w, k, n⟩) ha
      rw [Machine.act, after_of_opcode? hp ha] at hstep
      rcases hw : w.perform a with ⟨_, w1⟩ | ⟨f, w1⟩ <;> rw [hw] at hstep
      · obtain ⟨left, rfl, hrun⟩ := run_of_next hstep h
        obtain ⟨f, w', hr, hl⟩ := ih left (Nat.lt_succ_self _) hrest hrun
        rw [Code.add_size_act]
        exact ⟨f, w', .act hw hr, hl.mono (Nat.le_succ _)⟩
      · rw [ends_unique ⟨fuel, h⟩ (ends_of_failed hstep)]
        exact ⟨some f, w1, .fault hw, rfl, rfl⟩
    | loop body rest =>
      have hstep := step_start hp hc w n
      obtain ⟨left, rfl, hrun⟩ := run_of_next hstep h
      by_cases h0 : w.tape.current = 0
      · rw [if_pos h0] at hrun
        obtain ⟨f, w', hr, hl⟩ := ih left (Nat.lt_succ_self _) hc.2.2.2 hrun
        rw [Code.add_size_loop]
        exact ⟨f, w', .skip h0 hr, hl.mono (Nat.le_succ _)⟩
      · rw [if_neg h0] at hrun
        obtain ⟨f, w1, hb, hl⟩ := ih left (Nat.lt_succ_self _) hc.2.1 hrun
        cases f with
        | none =>
          obtain ⟨n1, left', hle, hrun'⟩ := hl
          rw [Nat.add_right_comm] at hrun'
          -- at the end of the body the run goes on as it would at the start of the loop
          have hagain : Machine.run p.step left' ⟨w1, k, n1⟩ = some e := by
            cases left' with
            | zero => cases hrun'
            | succ left' => rwa [Machine.run, step_end hp hc] at hrun'
          obtain ⟨f, w', hr, hl'⟩ := ih left' (by omega) hc hagain
          exact ⟨f, w', .again h0 hb hr, hl'.mono (by omega)⟩
        | some f => exact ⟨some f, w1, .broken h0 hb, hl⟩

theorem runs_of_execute (hp : p.size ≤ wordMax) {c : Code} (hc : c.At p 0) (hsize : c.size = p.size)
    {w : World} {n fuel : Nat} {e : Ending} (h : p.execute fuel ⟨w, 0, n⟩ = some e) :
    c.Runs w e.fault? e.machine.world ∧ (e.fault? = none → e.machine.pc = p.size) := by
  obtain ⟨f, w', hr, hl⟩ := runs_of_run hp fuel hc h
  cases f with
  | none =>
    obtain ⟨n', rest, -, hrun⟩ := hl
    rw [Nat.zero_add, hsize] at hrun
    have hhalt : p.step ⟨w', p.size, n'⟩ = .halted ⟨w', p.size, n'⟩ := step_halted (Nat.le_refl _)
    rw [ends_unique ⟨rest, hrun⟩ (ends_of_halted hhalt)]
    exact ⟨hr, fun _ => rfl⟩
  | some f =>
    obtain ⟨hf, rfl⟩ := hl
    rw [hf]
    exact ⟨hr, nofun⟩

theorem execute_of_runs (hp : p.size ≤ wordMax) {c : Code} (hc : c.At p 0) (hsize : c.size = p.size)
    {w w' : World} {f : Option Fault} (hr : c.Runs w f w') (n : Nat) :
    ∃ fuel pc n', p.execute fuel ⟨w, 0, n⟩ = some ⟨f, ⟨w', pc, n'⟩⟩ := by
  have h := reaches_of_runs hp hr hc n
  cases f with
  | none =>
    obtain ⟨m, n', ht⟩ := h
    rw [Nat.zero_add, hsize] at ht
    obtain ⟨fuel, hf⟩ := ht.ends_iff.2 (ends_of_halted (step_halted (Nat.le_refl _)))
    exact ⟨fuel, _, _, hf⟩
  | some f =>
    obtain ⟨pc, n', fuel, hf⟩ := h
    exact ⟨fuel, pc, n', hf⟩

/-- One instruction of an engine that tests a cell again: it jumps to the partner of a loop end, and
not behind it. -/
def retest (p : Program) (m : Machine) : Step :=
  match p.opcode? m.pc with
  | some (.act action) => m.act action (m.pc + 1)
  | some (.loopStart target) => m.jump (if m.world.tape.current = 0 then target else m.pc + 1)
  | some (.loopEnd target) => m.jump (if m.world.tape.current = 0 then m.pc + 1 else target)
  | none => .halted m

/-- The same machine, but for the number of steps. -/
def Alike (a b : Machine) : Prop := a.world = b.world ∧ a.pc = b.pc

theorem retest_simulates (hp : p.size ≤ wordMax) {c : Code} (hc : c.At p 0)
    (hsize : c.size = p.size) : Simulates p.retest p.step Alike
      fun e e' => e.fault? = e'.fault? ∧ Alike e.machine e'.machine := by
  rintro ⟨w, k, n⟩ ⟨_, _, n'⟩ ⟨rfl, rfl⟩
  have hpair : ∀ {op : Opcode}, p.opcode? k = some op → p.Paired 0 k := fun hop =>
    hc.paired (Nat.zero_le k) (by have := lt_size_of_opcode? hop; omega)
  rcases hop : p.opcode? k with _ | ⟨a | t | t⟩
  · have hhalt : p.retest ⟨w, k, n⟩ = .halted ⟨w, k, n⟩ := by simp only [retest, hop]
    rw [step_halted (size_le_of_opcode? hop)]
    exact ⟨_, ends_of_halted hhalt, rfl, rfl, rfl⟩
  · have hslow : p.retest ⟨w, k, n⟩ = Machine.act ⟨w, k, n⟩ a (k + 1) := by
      simp only [retest, hop]
    rw [step_act hop, after_of_opcode? hp hop]
    unfold Machine.act at hslow ⊢
    rcases hw : w.perform a with ⟨_, w'⟩ | ⟨f, w'⟩ <;> simp only [hw] at hslow ⊢
    · exact ⟨0, _, Takes.one hslow, rfl, rfl⟩
    · exact ⟨_, ends_of_failed hslow, rfl, rfl, rfl⟩
  · have hend := (hpair hop).start t hop
    rw [step_loopStart hop]
    by_cases h0 : w.tape.current = 0
    · have hslow : p.retest ⟨w, k, n⟩ = .next ⟨w, t, n + 1⟩ := by
        simp only [retest, hop, h0, jump, if_true]
      have htest : p.retest ⟨w, t, n + 1⟩ = .next ⟨w, t + 1, n + 2⟩ := by
        simp only [retest, hend, h0, jump, if_true]
      simp only [h0, if_true, after_of_opcode? hp hend]
      exact ⟨1, _, ⟨_, hslow, _, htest, rfl⟩, rfl, rfl⟩
    · have hslow : p.retest ⟨w, k, n⟩ = .next ⟨w, k + 1, n + 1⟩ := by
        simp only [retest, hop, h0, jump, if_false]
      simp only [h0, if_false, after_of_opcode? hp hop]
      exact ⟨0, _, Takes.one hslow, rfl, rfl⟩
  · have hstart := ((hpair hop).stop t hop).2
    rw [step_loopEnd hop]
    by_cases h0 : w.tape.current = 0
    · have hslow : p.retest ⟨w, k, n⟩ = .next ⟨w, k + 1, n + 1⟩ := by
        simp only [retest, hop, h0, jump, if_true]
      simp only [h0, if_true, after_of_opcode? hp hop]
      exact ⟨0, _, Takes.one hslow, rfl, rfl⟩
    · have hslow : p.retest ⟨w, k, n⟩ = .next ⟨w, t, n + 1⟩ := by
        simp only [retest, hop, h0, jump, if_false]
      have htest : p.retest ⟨w, t, n + 1⟩ = .next ⟨w, t + 1, n + 2⟩ := by
        simp only [retest, hstart, h0, jump, if_false]
      simp only [h0, if_false, after_of_opcode? hp hstart]
      exact ⟨1, _, ⟨_, hslow, _, htest, rfl⟩, rfl, rfl⟩

end Program

/-- A program whose loop ends were checked does what its code does: a run from its beginning ends
exactly when the code comes to something, and that is what it leaves. It ends behind the last
instruction, if it does not fail. To test the cell again after a jump would change nothing. -/
theorem execute_structured {p : Program} (hp : p.size ≤ wordMax) (hok : p.checkLoops = .ok ()) :
    (∃ c : Code, c.At p 0 ∧ c.size = p.size)
      ∧ (∀ c : Code, c.At p 0 → c.size = p.size → ∀ w n f w', c.Runs w f w'
        ↔ ∃ fuel pc n', p.execute fuel ⟨w, 0, n⟩ = some ⟨f, ⟨w', pc, n'⟩⟩)
      ∧ (∀ w n fuel m, p.execute fuel ⟨w, 0, n⟩ = some ⟨none, m⟩ → m.pc = p.size)
      ∧ ∀ m f w pc, (∃ fuel n, p.execute fuel m = some ⟨f, ⟨w, pc, n⟩⟩)
        ↔ ∃ fuel n, Machine.run p.retest fuel m = some ⟨f, ⟨w, pc, n⟩⟩ := by
  obtain ⟨c, hc, hsize⟩ := Program.exists_code hok
  have S := Program.retest_simulates hp hc hsize
  refine ⟨⟨c, hc, hsize⟩, fun c hc hsize w n f w' => ⟨fun hr => ?_, ?_⟩, fun w n fuel m h => ?_,
    fun m f w pc => ⟨?_, ?_⟩⟩
  · exact Program.execute_of_runs hp hc hsize hr n
  · rintro ⟨fuel, pc, n', h⟩
    exact (Program.runs_of_execute hp hc hsize h).1
  · exact (Program.runs_of_execute hp hc hsize h).2 rfl
  · rintro ⟨fuel, n, h⟩
    obtain ⟨⟨f', ⟨w', pc', n'⟩⟩, ⟨fuel', he⟩, rfl, rfl, rfl⟩ := S.ends_of_ends ⟨rfl, rfl⟩ ⟨fuel, h⟩
    exact ⟨fuel', n', he⟩
  · rintro ⟨fuel, n, h⟩
    obtain ⟨⟨f', ⟨w', pc', n'⟩⟩, ⟨fuel', he⟩, rfl, rfl, rfl⟩ := S.ends_of_ends' ⟨rfl, rfl⟩ ⟨fuel, h⟩
    exact ⟨fuel', n', he⟩

/-- A loop around an action with a count of eight bytes, on a cell that one round clears. -/
theorem execute_structured_round :
    (Program.ofOpcodes [.loopStart 2, .act (.sub wordMax), .loopEnd 0]).checkLoops = .ok ()
      ∧ (Code.loop (.act (.sub wordMax) .done) .done).Runs
        ⟨⟨#[255], 0, by decide⟩, { ends := .ofBytes [] }⟩ none
        ⟨⟨#[0], 0, by decide⟩, { ends := .ofBytes [] }⟩ := by
  have hok : (Program.ofOpcodes [.loopStart 2, .act (.sub wordMax), .loopEnd 0]).checkLoops
      = .ok () := by cbv
  have h := execute_structured (by decide) hok
  have hc : (Code.loop (.act (.sub wordMax) .done) .done).At
      (.ofOpcodes [.loopStart 2, .act (.sub wordMax), .loopEnd 0]) 0 :=
    ⟨rfl, ⟨rfl, trivial⟩, rfl, trivial⟩
  refine ⟨hok, (h.2.1 _ hc rfl _ 0 _ _).2 ⟨4, 3, 3, ?_⟩⟩
  cbv

end TapeMachine
