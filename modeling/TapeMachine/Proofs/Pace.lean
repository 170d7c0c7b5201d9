import TapeMachine.Proofs.Edges

/-!
# Pace

Every instruction counts as one step, and every symbol of a source does. An instruction stands for
one symbol at least, so while the engines run side by side the direct one is never behind by count
(`Program.Renders.simulates_paced`), whether the two finish or fail (`lowered_steps_le`).
-/

namespace TapeMachine

open Machine

/-- How many steps an order counts as. -/
def Order.cost : Order → Nat
  | .halt | .pass => 0
  | .jump _ | .act .. => 1

theorem Machine.steps_follow (m : Machine) (o : Order) :
    (m.follow o).machine.steps = m.steps + o.cost := by
  cases o with
  | act a pc =>
    simp only [follow, act, Order.cost]
    cases m.world.perform a <;> rfl
  | _ => rfl

theorem Ending.machine_step (e : Ending) : e.step.machine = e.machine := by
  rcases e with ⟨_ | f, m⟩ <;> rfl

namespace Source

open Ending (machine_step)

variable {s : Source} {a b : Machine} {e : Ending}

theorem cost_order {b : UInt8} {pc : Nat} (hb : s.bytes[pc]? = some b)
    (hsym : (Symbol.ofByte? b).isSome) (cell : UInt8) : (s.order cell pc).cost = 1 := by
  obtain ⟨sym, hsym⟩ := Option.isSome_iff_exists.1 hsym
  simp only [order, hb, hsym]
  cases sym <;> rfl

theorem steps_le_step (hs : s.checkBalance = .ok ()) (m : Machine) :
    m.steps ≤ (s.step m).machine.steps := by
  rw [step_eq_follow hs, steps_follow]
  exact Nat.le_add_right ..

theorem steps_le_of_takes (hs : s.checkBalance = .ok ()) {n : Nat} (h : Takes s.step n a b) :
    a.steps ≤ b.steps := by
  refine h.keeps (P := fun c => a.steps ≤ c.steps) (fun c d hc hd => ?_) (Nat.le_refl _)
  have hstep := steps_le_step hs c
  rw [hd] at hstep
  exact Nat.le_trans hc hstep

/-- What the first step counts, the whole run does. -/
theorem steps_le_of_ends (hs : s.checkBalance = .ok ()) {k : Nat}
    (hk : k ≤ (s.step a).machine.steps) (h : Ends s.step a e) : k ≤ e.machine.steps := by
  obtain ⟨fuel, hf⟩ := h
  obtain ⟨n, c, ht, hlast⟩ := exists_last hf
  have hc := steps_le_step hs c
  rw [hlast, machine_step] at hc
  cases n with
  | zero =>
    cases ht
    rwa [hlast, machine_step] at hk
  | succ n =>
    obtain ⟨b, hb, ht⟩ := ht
    rw [hb] at hk
    exact Nat.le_trans hk (Nat.le_trans (steps_le_of_takes hs ht) hc)

end Source

/-- Endings that agree, the second after no more steps than the first. -/
def Ending.Bounds (e e' : Ending) : Prop := e.Agrees e' ∧ e'.machine.steps ≤ e.machine.steps

namespace Program

variable {p : Program} {s : Source}

theorem steps_step {m : Machine} {op : Opcode} (h : p.opcode? m.pc = some op) :
    (p.step m).machine.steps = m.steps + 1 := by
  rw [step_eq_follow, steps_follow]
  cases op <;> simp only [order, h, Order.cost]

/-- The direct engine is about to stand where the other one does, and will not have counted fewer
steps. -/
def Paced (p : Program) (s : Source) (a b : Machine) : Prop :=
  ∃ n steps, Takes s.step n a ⟨b.world, p.place s b.pc, steps⟩ ∧ b.steps ≤ steps

namespace Renders

theorem exists_symbol (hr : p.Renders s) {k : Nat} {i : Instruction} (h : p.code[k]? = some i) :
    ∃ b, s.bytes[p.place s k]? = some b ∧ (Symbol.ofByte? b).isSome := by
  have hmem := mem_of_getElem? h
  obtain ⟨rest, hrest⟩ := hr.text_prefix hmem
  obtain ⟨b, text, htext⟩ := List.exists_cons_of_ne_nil (hr.text_ne_nil hmem)
  rw [htext] at hrest
  refine ⟨b, ?_, ?_⟩
  · rw [place_of_some h, ← Array.getElem?_toList]
    exact (Nesting.drop_eq_cons hrest.symm).1
  · have hb : b ∈ p.opcodes.flatMap Opcode.text :=
      List.mem_flatMap.2 ⟨i.opcode, List.mem_map_of_mem hmem, by simp [htext]⟩
    rw [hr.flatMap_text] at hb
    simpa using (List.mem_filter.1 hb).2

theorem simulates_paced (hr : p.Renders s) (hs : s.checkBalance = .ok ())
    (hp : p.size ≤ wordMax) : Simulates s.step p.step (p.Paced s) Ending.Bounds := by
  rintro a b ⟨n, steps, ht, hle⟩
  refine .after ht ?_
  have hm := hr.simulates hp ⟨b.world, p.place s b.pc, steps⟩ b ⟨0, steps, rfl⟩
  rcases hi : p.code[b.pc]? with _ | i
  · rw [step_halted (Array.getElem?_eq_none_iff.1 hi)] at hm ⊢
    obtain ⟨e, he, hagrees⟩ := hm
    have hstep := Source.steps_le_step hs ⟨b.world, p.place s b.pc, steps⟩
    exact ⟨e, he, hagrees, Nat.le_trans hle (Source.steps_le_of_ends hs hstep he)⟩
  -- both engines are at the beginning of an instruction, and their next steps count
  obtain ⟨c, hc, hsym⟩ := hr.exists_symbol hi
  have hslow : steps + 1 ≤ (s.step ⟨b.world, p.place s b.pc, steps⟩).machine.steps := by
    rw [Source.step_eq_follow hs, steps_follow, Source.cost_order hc hsym]
  have hop : p.opcode? b.pc = some i.opcode := opcode?_of_getElem? hi
  have hfast := steps_step hop
  rcases hb : p.step b with b' | b' | ⟨f, b'⟩ <;> rw [hb] at hm hfast
  · obtain ⟨k, a', ⟨d, hd, htk⟩, n', steps', ht'⟩ := hm
    refine ⟨k, a', ⟨d, hd, htk⟩, n', steps', ht', ?_⟩
    have hrest := Source.steps_le_of_takes hs (htk.trans ht')
    rw [hd] at hslow
    calc b'.steps = b.steps + 1 := hfast
      _ ≤ steps + 1 := Nat.succ_le_succ hle
      _ ≤ d.steps := hslow
      _ ≤ steps' := hrest
  all_goals
    obtain ⟨e, he, hagrees⟩ := hm
    have hend := Source.steps_le_of_ends hs hslow he
    refine ⟨e, he, hagrees, ?_⟩
    calc b'.steps = b.steps + 1 := hfast
      _ ≤ steps + 1 := Nat.succ_le_succ hle
      _ ≤ e.machine.steps := hend

end Renders

end Program

/-- A lowered program takes no more steps than its source, from any tape, and whether the two finish
or fail. -/
theorem lowered_steps_le {s : Source} (hs : s.size ≤ wordMax) (hb : s.checkBalance = .ok ()) :
    ∃ p stats, s.lower = .ok (p, stats) ∧ ∀ tape channel,
      ((∃ fuel e, s.execute fuel (start tape channel) = some e)
        ↔ ∃ fuel e, p.execute fuel (start tape channel) = some e)
      ∧ ∀ fuel fuel' e e', s.execute fuel (start tape channel) = some e →
        p.execute fuel' (start tape channel) = some e' → e.Agrees e'
          ∧ e'.machine.steps ≤ e.machine.steps := by
  obtain ⟨p, stats, hl⟩ := Source.exists_lower hb
  have hr := Source.renders_of_lower hl
  have S := hr.simulates_paced hb (Nat.le_trans hr.size_le hs)
  have hexec : ∀ fuel m, s.execute fuel m = Machine.run s.step fuel m := fun fuel m => by
    rw [Source.execute, hb]
  refine ⟨p, stats, hl, fun tape channel => ?_⟩
  have h0 : p.Paced s (start tape channel) (start tape channel) := by
    obtain ⟨n, steps, ht⟩ := hr.abreast_start ⟨tape, channel⟩
    exact ⟨n, steps, ht, Nat.zero_le _⟩
  simp only [hexec]
  refine ⟨⟨?_, ?_⟩, fun fuel fuel' e e' he he' => ?_⟩
  · rintro ⟨fuel, e, he⟩
    obtain ⟨e', ⟨fuel', he'⟩, -⟩ := S.ends_of_ends' h0 ⟨fuel, he⟩
    exact ⟨fuel', e', he'⟩
  · rintro ⟨fuel', e', he'⟩
    obtain ⟨e, ⟨fuel, he⟩, -⟩ := S.ends_of_ends h0 ⟨fuel', he'⟩
    exact ⟨fuel, e, he⟩
  · obtain ⟨d, hd, hbounds⟩ := S.ends_of_ends h0 ⟨fuel', he'⟩
    rwa [ends_unique hd ⟨fuel, he⟩] at hbounds

/-- A loop that clears a cell, and then a run of two moves of which the second is refused. -/
theorem lowered_steps_le_refused :
    (⟨#[43, 43, 91, 45, 93, 62, 62]⟩ : Source).size ≤ wordMax
      ∧ (⟨#[43, 43, 91, 45, 93, 62, 62]⟩ : Source).checkBalance = .ok ()
      ∧ ∃ p stats e', (⟨#[43, 43, 91, 45, 93, 62, 62]⟩ : Source).lower = .ok (p, stats)
        ∧ p.execute 4 (start (.blank 2 (by decide)) { ends := .ofBytes [] }) = some e'
        ∧ e'.fault? = some (.outOfTape 2 2) ∧ e'.machine.steps ≤ 10 := by
  have hs : (⟨#[43, 43, 91, 45, 93, 62, 62]⟩ : Source).size ≤ wordMax := by decide
  have hb : (⟨#[43, 43, 91, 45, 93, 62, 62]⟩ : Source).checkBalance = .ok () := by cbv
  have hdirect : (⟨#[43, 43, 91, 45, 93, 62, 62]⟩ : Source).execute 10
      (start (.blank 2 (by decide)) { ends := .ofBytes [] })
      = some ⟨some (.outOfTape 2 2),
        ⟨⟨⟨#[0, 0], 1, by decide⟩, { ends := .ofBytes [] }⟩, 6, 10⟩⟩ := by decide +kernel
  have hl : (⟨#[43, 43, 91, 45, 93, 62, 62]⟩ : Source).lower
      = .ok (⟨#[⟨.act (.add 2), 0⟩, ⟨.act .clear, 2⟩, ⟨.act (.right 2), 5⟩]⟩,
        ⟨7, 3, 2, 1, 0⟩) := by cbv
  have hlowered : Program.execute ⟨#[⟨.act (.add 2), 0⟩, ⟨.act .clear, 2⟩,
      ⟨.act (.right 2), 5⟩]⟩ 4 (start (.blank 2 (by decide)) { ends := .ofBytes [] })
      = some ⟨some (.outOfTape 2 2),
        ⟨⟨⟨#[0, 0], 0, by decide⟩, { ends := .ofBytes [] }⟩, 2, 3⟩⟩ := by decide +kernel
  obtain ⟨p, stats, hp, hsteps⟩ := lowered_steps_le hs hb
  rw [hl] at hp
  cases hp
  exact ⟨hs, hb, _, _, _, hl, hlowered, rfl, ((hsteps _ _).2 _ _ _ _ hdirect hlowered).2⟩

end TapeMachine
