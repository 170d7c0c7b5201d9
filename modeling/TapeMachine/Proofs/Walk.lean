import TapeMachine.Proofs.Counted
import TapeMachine.Proofs.Lexemes
import TapeMachine.Proofs.Running
import TapeMachine.Proofs.Steps

/-!
# What the direct engine does with a text

At the text of an action the direct engine performs the action and comes to the end of the text
(`Source.performs_text`), though it takes a run of symbols one by one, and goes round a loop that
clears its cell. Comments are passed (`Source.takes_comments`).
-/

namespace TapeMachine

open Nesting

namespace Machine

/-- The engine comes from `m` to what an action gives, and goes on at `pc` if it gives a world. -/
def Performs (engine : Machine → Step) (m : Machine) (r : World.Result) (pc : Nat) : Prop :=
  match r with
  | .ok _ w => ∃ n steps, Takes engine (n + 1) m ⟨w, pc, steps⟩
  | .error f w => ∃ f' m', Ends engine m ⟨some f', m'⟩ ∧ f'.Agrees f ∧ m'.world.channel = w.channel

namespace Performs

variable {engine : Machine → Step} {m : Machine} {r : World.Result} {pc : Nat}

theorem act {a : Action} (h : engine m = m.act a pc) :
    Performs engine m (m.world.perform a) pc := by
  unfold Machine.act at h
  rcases hp : m.world.perform a with ⟨_, w⟩ | ⟨f, w⟩ <;> rw [hp] at h
  · exact ⟨0, _, Takes.one h⟩
  · exact ⟨f, _, ends_of_failed h, .refl f, rfl⟩

theorem after {n : Nat} {m' : Machine} (ht : Takes engine n m m') (h : Performs engine m' r pc) :
    Performs engine m r pc := by
  rcases r with ⟨_, w⟩ | ⟨f, w⟩
  · obtain ⟨k, steps, hk⟩ := h
    exact ⟨n + k, steps, ht.trans hk⟩
  · obtain ⟨f', m'', he, hf⟩ := h
    exact ⟨f', m'', ht.ends_iff.2 he, hf⟩

theorem andThen {a : Action} {mid : Nat} (h : engine m = m.act a mid) (k : World → World.Result)
    (hk : ∀ w steps, Performs engine ⟨w, mid, steps⟩ (k w) pc) :
    Performs engine m ((m.world.perform a).andThen k) pc := by
  unfold Machine.act at h
  rcases hp : m.world.perform a with ⟨_, w⟩ | ⟨f, w⟩ <;> rw [hp] at h
  · exact after (Takes.one h) (hk w _)
  · exact ⟨f, _, ends_of_failed h, .refl f, rfl⟩

theorem congr {r' : World.Result} (h : Performs engine m r pc) (hr : r.Agrees r') :
    Performs engine m r' pc := by
  rcases r with ⟨_, w⟩ | ⟨f, w⟩ <;> rcases r' with ⟨_, w'⟩ | ⟨f', w'⟩
  · cases hr
    exact h
  · cases hr
  · cases hr
  · obtain ⟨g, m', he, hg, hc⟩ := h
    exact ⟨g, m', he, hg.trans hr.1, hc.trans hr.2⟩

end Performs

end Machine

namespace Source

open Machine

variable {s : Source} {m : Machine}

theorem takes_comments : ∀ (n : Nat) (m : Machine),
    (∀ k < n, ∃ b, s.bytes[m.pc + k]? = some b ∧ Symbol.ofByte? b = none) →
    Takes s.step n m { m with pc := m.pc + n }
  | 0, m, _ => rfl
  | n + 1, m, h => by
    obtain ⟨b, hb, hc⟩ := h 0 (Nat.succ_pos n)
    refine ⟨_, step_comment hb hc, ?_⟩
    have := takes_comments n { m with pc := m.pc + 1 } fun k hk => by
      simpa only [Nat.add_assoc, Nat.add_comm 1] using h (k + 1) (by omega)
    simpa only [Nat.add_assoc, Nat.add_comm 1] using this

theorem performs_counted {c : Symbol} : ∀ (n : Nat) (m : Machine) {a : Action},
    c.counted? (n + 1) = some a → (∀ k < n + 1, s.bytes[m.pc + k]? = some c.byte) →
    Performs s.step m (m.world.perform a) (m.pc + (n + 1))
  | 0, m, a, ha, h => .act (step_counted (h 0 (Nat.succ_pos 0)) ha)
  | n + 1, m, a, ha, h => by
    obtain ⟨a1, h1⟩ := Symbol.counted?_one ha
    obtain ⟨an, hn⟩ : ∃ an, c.counted? (n + 1) = some an := by
      cases c <;> cases ha <;> exact ⟨_, rfl⟩
    rw [Nat.add_comm] at ha
    have hstep := step_counted (h 0 (Nat.succ_pos _)) h1
    refine .congr (.andThen hstep (·.perform an) fun w steps => ?_) (m.world.perform_add h1 hn ha)
    have := performs_counted n ⟨w, m.pc + 1, steps⟩ hn fun k hk => by
      simpa only [Nat.add_assoc, Nat.add_comm 1] using h (k + 1) (by omega)
    simpa only [Nat.add_assoc, Nat.add_comm 1] using this

theorem partners_clear {bytes : List UInt8} {o : Nat} (h : Action.clear.text <+: bytes.drop o) :
    Partners (depth bytes) o (o + 2) := by
  obtain ⟨rest, hrest⟩ := h
  obtain ⟨h0, hrest⟩ := drop_eq_cons hrest.symm
  obtain ⟨h1, hrest⟩ := drop_eq_cons hrest
  obtain ⟨h2, -⟩ := drop_eq_cons hrest
  have d0 := depth_succ h0
  have d1 := depth_succ h1
  have d2 := depth_succ h2
  rw [show rise Symbol.loopOpen.byte = 1 by decide] at d0
  rw [show rise Symbol.decrement.byte = 0 by decide] at d1
  rw [show rise Symbol.loopClose.byte = -1 by decide] at d2
  simp only [Nat.add_assoc, Nat.reduceAdd] at d0 d1 d2
  refine ⟨by omega, d0, show depth bytes (o + 3) = _ by omega, fun k hk hk' => ?_⟩
  obtain rfl | rfl : k = o + 1 ∨ k = o + 2 := by omega
  all_goals omega

theorem takes_clear_round (hcur : m.world.tape.current ≠ 0)
    (h : Action.clear.text <+: s.bytes.toList.drop m.pc) :
    Takes s.step 3 m ⟨{ m.world with tape := m.world.tape.sub 1 },
      if (m.world.tape.sub 1).current = 0 then m.pc + 3 else m.pc, m.steps + 3⟩ := by
  have hp := partners_clear h
  have hopen := step_loopOpen hp
  rw [if_neg hcur] at hopen
  have hsub : s.bytes[m.pc + 1]? = some Symbol.decrement.byte := by
    obtain ⟨rest, hrest⟩ := h
    rw [← Array.getElem?_toList]
    exact (drop_eq_cons (drop_eq_cons hrest.symm).2).1
  have hdec := step_counted (m := ⟨m.world, m.pc + 1, m.steps + 1⟩) hsub (a := .sub 1) rfl
  have hclose := step_loopClose
    (m := ⟨{ m.world with tape := m.world.tape.sub 1 }, m.pc + 2, m.steps + 2⟩) hp
  exact ⟨_, hopen, _, hdec, _, hclose, rfl⟩

theorem ofNat_ne_zero {n : Nat} (h0 : 0 < n) (h : n < 256) : UInt8.ofNat n ≠ 0 := by
  intro he
  have hn := UInt8.toNat_ofNat_of_lt' (n := n) h
  rw [he, UInt8.toNat_zero] at hn
  omega

/-- A loop that clears its cell goes round as often as the cell says. -/
theorem performs_clear : ∀ (n : Nat) (m : Machine), n < 256 →
    m.world.tape.current = UInt8.ofNat n → Action.clear.text <+: s.bytes.toList.drop m.pc →
    Performs s.step m (m.world.perform .clear) (m.pc + 3)
  | 0, m, _, hcur, h => by
    have hcur : m.world.tape.current = 0 := hcur
    have hstep := step_loopOpen (partners_clear h)
    rw [if_pos hcur] at hstep
    refine ⟨0, m.steps + 1, ?_⟩
    rw [← hcur, Tape.set_current]
    exact Takes.one hstep
  | n + 1, m, hn, hcur, h => by
    have hne : m.world.tape.current ≠ 0 := by
      rw [hcur]
      exact ofNat_ne_zero (Nat.succ_pos n) hn
    have hsub : (m.world.tape.sub 1).current = UInt8.ofNat n := by
      rw [Tape.sub, Tape.current_set, hcur, UInt8.ofNat_add]
      grind
    have hset : (m.world.tape.sub 1).set 0 = m.world.tape.set 0 := Tape.set_set ..
    have hround := takes_clear_round hne h
    rcases Nat.eq_zero_or_pos n with rfl | hpos
    · have h0 : (m.world.tape.sub 1).current = 0 := hsub
      rw [if_pos h0] at hround
      refine ⟨2, m.steps + 3, ?_⟩
      rw [← hset, ← h0, Tape.set_current]
      exact hround
    · have h0 : (m.world.tape.sub 1).current ≠ 0 := by
        rw [hsub]
        exact ofNat_ne_zero hpos (by omega)
      rw [if_neg h0] at hround
      have ih := performs_clear n ⟨{ m.world with tape := m.world.tape.sub 1 }, m.pc, m.steps + 3⟩
        (by omega) hsub h
      refine .after hround ?_
      simpa only [World.perform, hset] using ih

theorem getElem?_of_text {text : List UInt8} {o k : Nat} (h : text <+: s.bytes.toList.drop o)
    (hk : k < text.length) : s.bytes[o + k]? = text[k]? := by
  obtain ⟨rest, hrest⟩ := h
  rw [← Array.getElem?_toList, ← List.getElem?_drop, ← hrest, List.getElem?_append_left hk]

theorem performs_text {a : Action} (ha : a.text ≠ []) (h : a.text <+: s.bytes.toList.drop m.pc) :
    Performs s.step m (m.world.perform a) (m.pc + a.text.length) := by
  have hget : ∀ k < a.text.length, s.bytes[m.pc + k]? = a.text[k]? :=
    fun k hk => getElem?_of_text h hk
  have hcounted : ∀ {c : Symbol} {n : Nat}, c.counted? n = some a →
      Performs s.step m (m.world.perform a) (m.pc + a.text.length) := by
    intro c n hc
    have ht := (Symbol.text_of_counted? hc).1
    rw [ht, List.length_replicate] at hget ⊢
    obtain _ | n := n
    · exact absurd ht ha
    refine performs_counted n m hc fun k hk => ?_
    rw [hget k hk, List.getElem?_replicate, if_pos hk]
  cases a with
  | add n => exact hcounted (c := .increment) rfl
  | sub n => exact hcounted (c := .decrement) rfl
  | right n => exact hcounted (c := .right) rfl
  | left n => exact hcounted (c := .left) rfl
  | output => exact .act (step_output (hget 0 (Nat.succ_pos 0)))
  | input => exact .act (step_input (hget 0 (Nat.succ_pos 0)))
  | clear =>
    exact performs_clear m.world.tape.current.toNat m m.world.tape.current.toNat_lt
      (by simp) h

end Source

end TapeMachine
