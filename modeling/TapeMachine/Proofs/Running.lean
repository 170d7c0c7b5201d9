import TapeMachine.Engine.Machine

/-!
# Runs and simulations

A run has one ending at most, whatever fuel it is given (`ends_unique`). If every step of a machine
is matched by one step or more of another, and its endings by endings, then the two come to an end
together, and their endings match (`Simulates.ends_of_ends`, `Simulates.ends_of_ends'`).
-/

namespace TapeMachine

/-- The step with which a run comes to such an ending. -/
def Ending.step : Ending → Step
  | ⟨none, m⟩ => .halted m
  | ⟨some f, m⟩ => .failed f m

namespace Machine

def Ends (engine : Machine → Step) (m : Machine) (e : Ending) : Prop :=
  ∃ fuel, run engine fuel m = some e

/-- The engine takes a machine to another in `n` steps. -/
def Takes (engine : Machine → Step) : Nat → Machine → Machine → Prop
  | 0, a, b => a = b
  | n + 1, a, c => ∃ b, engine a = .next b ∧ Takes engine n b c

variable {engine : Machine → Step} {a b c : Machine} {e e' : Ending}

theorem run_succ_of_next (h : engine a = .next b) (fuel : Nat) :
    run engine (fuel + 1) a = run engine fuel b := by
  rw [run, h]

theorem run_succ_of_halted (h : engine a = .halted b) (fuel : Nat) :
    run engine (fuel + 1) a = some ⟨none, b⟩ := by
  rw [run, h]

theorem run_succ_of_failed {f : Fault} (h : engine a = .failed f b) (fuel : Nat) :
    run engine (fuel + 1) a = some ⟨some f, b⟩ := by
  rw [run, h]

theorem run_of_next {fuel : Nat} (hstep : engine a = .next b) (h : run engine fuel a = some e) :
    ∃ rest, fuel = rest + 1 ∧ run engine rest b = some e := by
  cases fuel with
  | zero => cases h
  | succ rest => exact ⟨rest, rfl, by rwa [run_succ_of_next hstep] at h⟩

theorem Takes.one (h : engine a = .next b) : Takes engine 1 a b := ⟨b, h, rfl⟩

theorem Takes.trans : ∀ {n m : Nat} {a : Machine}, Takes engine n a b → Takes engine m b c →
    Takes engine (n + m) a c
  | 0, m, a, h, h' => by
    cases h
    rwa [Nat.zero_add]
  | n + 1, m, a, ⟨d, hd, h⟩, h' => by
    rw [Nat.add_right_comm]
    exact ⟨d, hd, Takes.trans h h'⟩

theorem Takes.run_add : ∀ {n : Nat} {a : Machine}, Takes engine n a b → ∀ fuel,
    run engine (n + fuel) a = run engine fuel b
  | 0, a, h, fuel => by
    cases h
    rw [Nat.zero_add]
  | n + 1, a, ⟨d, hd, h⟩, fuel => by
    rw [Nat.add_right_comm, run_succ_of_next hd, Takes.run_add h]

/-- A run that ends goes through all steps that can be taken. -/
theorem Takes.run_rest : ∀ {n fuel : Nat} {a : Machine}, Takes engine n a b →
    run engine fuel a = some e → ∃ rest, fuel = n + rest ∧ run engine rest b = some e
  | 0, fuel, a, ht, h => by
    cases ht
    exact ⟨fuel, by omega, h⟩
  | n + 1, 0, a, ⟨d, hd, ht⟩, h => by cases h
  | n + 1, fuel + 1, a, ⟨d, hd, ht⟩, h => by
    rw [run_succ_of_next hd] at h
    obtain ⟨rest, rfl, hr⟩ := Takes.run_rest ht h
    exact ⟨rest, by omega, hr⟩

/-- What no step breaks holds as far as the steps go. -/
theorem Takes.keeps {P : Machine → Prop} (hstep : ∀ a b, P a → engine a = .next b → P b) :
    ∀ {n : Nat} {a : Machine}, Takes engine n a b → P a → P b
  | 0, a, h, ha => by
    cases h
    exact ha
  | _ + 1, a, ⟨d, hd, h⟩, ha => Takes.keeps hstep h (hstep a d ha hd)

theorem Takes.ends_iff {n : Nat} (h : Takes engine n a b) : Ends engine a e ↔ Ends engine b e := by
  constructor
  · rintro ⟨fuel, hf⟩
    obtain ⟨rest, -, hr⟩ := h.run_rest hf
    exact ⟨rest, hr⟩
  · rintro ⟨fuel, hf⟩
    exact ⟨n + fuel, by rw [h.run_add, hf]⟩

theorem run_add_of_some : ∀ {fuel : Nat} {a : Machine}, run engine fuel a = some e → ∀ more,
    run engine (fuel + more) a = some e
  | 0, a, h, _ => by cases h
  | fuel + 1, a, h, more => by
    rw [Nat.add_right_comm]
    rw [run] at h ⊢
    split at h
    · exact run_add_of_some h more
    · exact h
    · exact h

theorem ends_unique (h : Ends engine a e) (h' : Ends engine a e') : e = e' := by
  obtain ⟨n, hn⟩ := h
  obtain ⟨m, hm⟩ := h'
  have h1 := run_add_of_some hn m
  have h2 := run_add_of_some hm n
  rw [Nat.add_comm, h2] at h1
  exact (Option.some.inj h1).symm

theorem ends_of_halted (h : engine a = .halted b) : Ends engine a ⟨none, b⟩ :=
  ⟨1, run_succ_of_halted h 0⟩

theorem ends_of_failed {f : Fault} (h : engine a = .failed f b) : Ends engine a ⟨some f, b⟩ :=
  ⟨1, run_succ_of_failed h 0⟩

/-- A run that ends has a last step. -/
theorem exists_last : ∀ {fuel : Nat} {a : Machine}, run engine fuel a = some e →
    ∃ n b, Takes engine n a b ∧ engine b = e.step
  | 0, a, h => by cases h
  | fuel + 1, a, h => by
    rcases ha : engine a with d | d | ⟨f, d⟩ <;> simp only [run, ha] at h
    · obtain ⟨n, b, ht, hb⟩ := exists_last h
      exact ⟨n + 1, b, ⟨d, ha, ht⟩, hb⟩
    all_goals
      cases h
      exact ⟨0, a, rfl, ha⟩

section Simulation

variable {slow fast : Machine → Step} {R : Machine → Machine → Prop} {E : Ending → Ending → Prop}

/-- What `slow` does from `a` for a step of another machine: one or more steps for a step that goes
on, and an ending that `E` relates for one that does not. -/
def Matches (slow : Machine → Step) (R : Machine → Machine → Prop) (E : Ending → Ending → Prop)
    (a : Machine) : Step → Prop
  | .next b => ∃ n a', Takes slow (n + 1) a a' ∧ R a' b
  | .halted b => ∃ e, Ends slow a e ∧ E e ⟨none, b⟩
  | .failed f b => ∃ e, Ends slow a e ∧ E e ⟨some f, b⟩

def Simulates (slow fast : Machine → Step) (R : Machine → Machine → Prop)
    (E : Ending → Ending → Prop) : Prop :=
  ∀ a b, R a b → Matches slow R E a (fast b)

theorem Matches.after {n : Nat} {a' : Machine} {next : Step} (ht : Takes slow n a a')
    (h : Matches slow R E a' next) : Matches slow R E a next := by
  cases next with
  | next b =>
    obtain ⟨k, a'', hk, hr⟩ := h
    exact ⟨n + k, a'', ht.trans hk, hr⟩
  | halted b =>
    obtain ⟨e, he, hE⟩ := h
    exact ⟨e, ht.ends_iff.2 he, hE⟩
  | failed f b =>
    obtain ⟨e, he, hE⟩ := h
    exact ⟨e, ht.ends_iff.2 he, hE⟩

theorem Simulates.takes (S : Simulates slow fast R E) : ∀ {n : Nat} {a b : Machine}, R a b →
    Takes fast n b c → ∃ k a', Takes slow k a a' ∧ R a' c
  | 0, a, _, hr, h => by
    cases h
    exact ⟨0, a, rfl, hr⟩
  | n + 1, a, b, hr, ⟨d, hd, h⟩ => by
    have hm := S a b hr
    rw [hd] at hm
    obtain ⟨k, a₁, ht, hr'⟩ := hm
    obtain ⟨k', a', ht', hr''⟩ := S.takes hr' h
    exact ⟨k + 1 + k', a', ht.trans ht', hr''⟩

/-- A run of `fast` that ends comes to its last step, and `slow` comes to where that step is
matched. -/
theorem Simulates.last (S : Simulates slow fast R E) (hr : R a b) (h : Ends fast b e') :
    ∃ n n' a' b', Takes slow n a a' ∧ Takes fast n' b b' ∧ R a' b' ∧ fast b' = e'.step := by
  obtain ⟨fuel, hf⟩ := h
  obtain ⟨n', b', htb, hlast⟩ := exists_last hf
  obtain ⟨n, a', hta, hab⟩ := S.takes hr htb
  exact ⟨n, n', a', b', hta, htb, hab, hlast⟩

theorem Simulates.ends_of_ends (S : Simulates slow fast R E) (hr : R a b) (h : Ends fast b e') :
    ∃ e, Ends slow a e ∧ E e e' := by
  obtain ⟨n, n', a', b', hta, -, hab, hlast⟩ := S.last hr h
  have hm := S a' b' hab
  rw [hlast] at hm
  rcases e' with ⟨_ | f, c⟩
  all_goals
    obtain ⟨e, he, hE⟩ := hm
    exact ⟨e, hta.ends_iff.2 he, hE⟩

/-- The run of `fast` cannot go on when that of `slow` has ended: each of its steps costs the other
one at least. -/
theorem Simulates.ends_of_ends' (S : Simulates slow fast R E) (hr : R a b) (h : Ends slow a e) :
    ∃ e', Ends fast b e' ∧ E e e' := by
  obtain ⟨fuel, hf⟩ := h
  induction fuel using Nat.strongRecOn generalizing a b with
  | _ fuel ih =>
    have hm := S a b hr
    rcases hb : fast b with b' | b' | ⟨f, b'⟩ <;> rw [hb] at hm
    · obtain ⟨n, a', ht, hr'⟩ := hm
      obtain ⟨rest, rfl, hrest⟩ := ht.run_rest hf
      obtain ⟨e', ⟨fuel', hf'⟩, hE⟩ := ih rest (by omega) hr' hrest
      exact ⟨e', ⟨fuel' + 1, by rw [run_succ_of_next hb, hf']⟩, hE⟩
    · obtain ⟨e', he', hE⟩ := hm
      rw [ends_unique ⟨fuel, hf⟩ he']
      exact ⟨_, ends_of_halted hb, hE⟩
    · obtain ⟨e', he', hE⟩ := hm
      rw [ends_unique ⟨fuel, hf⟩ he']
      exact ⟨_, ends_of_failed hb, hE⟩

end Simulation

end Machine

end TapeMachine
