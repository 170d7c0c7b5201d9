import TapeMachine.Proofs.Comments
import TapeMachine.Proofs.Jobs
import TapeMachine.Proofs.Joins

/-!
# Jobs in succession

A job is parted at a place when up to there it does what one job does, and from there on what
another does at places that are moved (`Job.Parts`). No jump leads from one part into the other, so
the first part runs as it would alone, and when it has come to its end, which is the place of the
parting, the second does (`Job.Parts.ends_iff`, `Job.Parts.passes_iff`). Joined sources are parted
on either engine (`Source.exists_parts`).
-/

namespace TapeMachine

open Nesting

/-- An order to go on, at a place that is not beyond `len`. -/
def Order.KeepsTo (len pc : Nat) : Order → Prop
  | halt => False
  | pass => pc + 1 ≤ len
  | jump pc' => pc' ≤ len
  | act _ pc' => pc' ≤ len

theorem Order.map_id (o : Order) : o.map id = o := by
  cases o <;> rfl

namespace Machine

/-- The machine before the first instruction. -/
def rewind (m : Machine) : Machine := { m with pc := 0 }

/-- A run of the engine comes by this world, with this count of steps. -/
def Passes (engine : Machine → Step) (m : Machine) (w : World) (steps : Nat) : Prop :=
  ∃ n pc, Takes engine n m ⟨w, pc, steps⟩

theorem follow_of_keepsTo {o : Order} {m : Machine} {len : Nat} (h : o.KeepsTo len m.pc) :
    (∃ m', m.follow o = .next m' ∧ m'.pc ≤ len) ∨ ∃ f m', m.follow o = .failed f m' := by
  cases o with
  | halt => exact h.elim
  | pass => exact .inl ⟨_, rfl, h⟩
  | jump pc => exact .inl ⟨_, rfl, h⟩
  | act a pc =>
    simp only [follow, act]
    split
    · exact .inl ⟨_, rfl, h⟩
    · exact .inr ⟨_, _, rfl⟩

theorem follow_relocate_add (n : Nat) (m : Machine) (o : Order) :
    (m.relocate (n + ·)).follow (o.map (n + ·)) = (m.follow o).map (·.relocate (n + ·)) := by
  by_cases ho : o = .pass
  · rw [ho]
    rfl
  · exact follow_relocate _ m ho

/-- At `f pc` the one engine does what the other does at `pc`, and goes on at such places. -/
def Relocates (f : Nat → Nat) (engine engine' : Machine → Step) : Prop :=
  ∀ m, engine (m.relocate f) = (engine' m).map (·.relocate f)

namespace Relocates

variable {f : Nat → Nat} {engine engine' : Machine → Step}

theorem takes (h : Relocates f engine engine') : ∀ {n : Nat} {m m' : Machine},
    Takes engine' n m m' → Takes engine n (m.relocate f) (m'.relocate f)
  | 0, m, m', ht => congrArg (relocate f) ht
  | n + 1, m, m', ⟨d, hd, ht⟩ => ⟨d.relocate f, by rw [h, hd]; rfl, h.takes ht⟩

theorem exists_takes (h : Relocates f engine engine') : ∀ {n : Nat} {m x : Machine},
    Takes engine n (m.relocate f) x → ∃ m', x = m'.relocate f ∧ Takes engine' n m m'
  | 0, m, x, ht => ⟨m, Eq.symm ht, rfl⟩
  | n + 1, m, x, ⟨y, hy, ht⟩ => by
    rw [h] at hy
    rcases hd : engine' m with d | d | ⟨g, d⟩ <;> rw [hd] at hy <;> cases hy
    obtain ⟨m', hx, ht'⟩ := h.exists_takes ht
    exact ⟨m', hx, d, hd, ht'⟩

theorem run_eq (h : Relocates f engine engine') : ∀ (fuel : Nat) (m : Machine),
    run engine fuel (m.relocate f) = (run engine' fuel m).map (·.relocate f)
  | 0, m => rfl
  | fuel + 1, m => by
    rw [run, run, h]
    rcases engine' m with d | d | ⟨g, d⟩
    · exact h.run_eq fuel d
    · rfl
    · rfl

theorem ends_iff (h : Relocates f engine engine') {m : Machine} {e : Ending} :
    Ends engine (m.relocate f) e ↔ ∃ e', Ends engine' m e' ∧ e = e'.relocate f := by
  constructor
  · rintro ⟨fuel, he⟩
    rw [h.run_eq] at he
    obtain ⟨e', he', rfl⟩ := Option.map_eq_some_iff.1 he
    exact ⟨e', ⟨fuel, he'⟩, rfl⟩
  · rintro ⟨e', ⟨fuel, he'⟩, rfl⟩
    exact ⟨fuel, by rw [h.run_eq, he']; rfl⟩

end Relocates

end Machine

open Machine

/-- What a run has come to, wherever it stopped. -/
def Ending.done (e : Ending) : Option Fault × World × Nat :=
  (e.fault?, e.machine.world, e.machine.steps)

theorem Ending.done_relocate (f : Nat → Nat) (e : Ending) : (e.relocate f).done = e.done := rfl

namespace Job

/-- One job and then another from its first instruction, if the one went well. -/
def executeThen (first second : Job) (fuel : Nat) (m : Machine) : Option Ending :=
  match first.execute fuel m with
  | some ⟨none, m'⟩ => second.execute fuel m'.rewind
  | r => r

/-- Before `len`, `whole` does what `first` does, and goes no further than that. From `start` on it
does what `second` does, moved by `start`. Between the two there is at most a comment. -/
structure Parts (whole first second : Job) (len start : Nat) : Prop where
  balanced : whole.Balanced
  balanced_first : first.Balanced
  balanced_second : second.Balanced
  within : ∀ cell pc, pc < len → whole.order cell pc = first.order cell pc
  keepsTo : ∀ cell pc, pc < len → (first.order cell pc).KeepsTo len pc
  halts : ∀ cell, first.order cell len = .halt
  between : start = len ∨ start = len + 1 ∧ ∀ cell, whole.order cell len = .pass
  beyond : ∀ cell pc, whole.order cell (start + pc) = (second.order cell pc).map (start + ·)

namespace Parts

variable {whole first second : Job} {len start : Nat} {m m' : Machine} {e : Ending}

/-! ### Single steps -/

theorem engine_within (h : Parts whole first second len start) (hm : m.pc < len) :
    whole.engine m = first.engine m := by
  rw [engine_eq_follow h.balanced, engine_eq_follow h.balanced_first, h.within _ _ hm]

theorem engine_keepsTo (h : Parts whole first second len start) (hm : m.pc < len) :
    (∃ m', first.engine m = .next m' ∧ m'.pc ≤ len) ∨ ∃ f m', first.engine m = .failed f m' := by
  rw [engine_eq_follow h.balanced_first]
  exact follow_of_keepsTo (h.keepsTo _ _ hm)

theorem engine_halts (h : Parts whole first second len start) (hm : m.pc = len) :
    first.engine m = .halted m := by
  rw [engine_eq_follow h.balanced_first, hm, h.halts]
  rfl

theorem engine_beyond (h : Parts whole first second len start) :
    Relocates (start + ·) whole.engine second.engine := by
  intro m
  rw [engine_eq_follow h.balanced, engine_eq_follow h.balanced_second, ← follow_relocate_add,
    ← h.beyond]
  rfl

/-- At the end of the first part the second is entered, by one step that does nothing or by none. -/
theorem enters (h : Parts whole first second len start) (hm : m.pc = len) :
    m = m.rewind.relocate (start + ·) ∨ whole.engine m = .next (m.rewind.relocate (start + ·)) := by
  obtain ⟨w, pc, steps⟩ := m
  rcases h.between with hs | ⟨hs, hpass⟩
  · refine .inl ?_
    simp only [rewind, relocate, Nat.add_zero, hs]
    rw [← hm]
  · refine .inr ?_
    rw [engine_eq_follow h.balanced, hm, hpass]
    simp only [follow, rewind, relocate, Nat.add_zero, hs]
    rw [← hm]

/-! ### Whole runs -/

theorem lt_of_next (h : Parts whole first second len start) (hm : m.pc ≤ len)
    (hn : first.engine m = .next m') : m.pc < len := by
  refine Nat.lt_of_le_of_ne hm fun heq => ?_
  rw [h.engine_halts heq] at hn
  cases hn

theorem pc_le_of_next (h : Parts whole first second len start) (hm : m.pc < len)
    (hn : first.engine m = .next m') : m'.pc ≤ len := by
  rcases h.engine_keepsTo hm with ⟨d, hd, hle⟩ | ⟨f, d, hd⟩ <;> rw [hn] at hd <;> cases hd
  exact hle

theorem takes (h : Parts whole first second len start) : ∀ {n : Nat} {m : Machine}, m.pc ≤ len →
    Takes first.engine n m m' → Takes whole.engine n m m' ∧ m'.pc ≤ len
  | 0, m, hm, ht => ⟨ht, Eq.subst (motive := fun x : Machine => x.pc ≤ len) ht hm⟩
  | n + 1, m, hm, ⟨d, hd, ht⟩ => by
    have hlt := h.lt_of_next hm hd
    obtain ⟨ht', hle⟩ := h.takes (h.pc_le_of_next hlt hd) ht
    exact ⟨⟨d, by rw [h.engine_within hlt, hd], ht'⟩, hle⟩

/-- A first part that fails fails as a whole. -/
theorem ends_of_failed (h : Parts whole first second len start) (hm : m.pc ≤ len) {f : Fault}
    (he : Ends first.engine m ⟨some f, m'⟩) : Ends whole.engine m ⟨some f, m'⟩ := by
  obtain ⟨fuel, hf⟩ := he
  obtain ⟨n, b, ht, hb⟩ := exists_last hf
  obtain ⟨ht', hle⟩ := h.takes hm ht
  have hlt : b.pc < len := by
    refine Nat.lt_of_le_of_ne hle fun heq => ?_
    rw [h.engine_halts heq] at hb
    cases hb
  rw [← h.engine_within hlt] at hb
  exact ht'.ends_iff.2 (Machine.ends_of_failed hb)

/-- A first part that comes to its end has come to the place of the parting. -/
theorem takes_of_ended (h : Parts whole first second len start) (hm : m.pc ≤ len)
    (he : Ends first.engine m ⟨none, m'⟩) :
    ∃ n, Takes whole.engine n m (m'.rewind.relocate (start + ·)) := by
  obtain ⟨fuel, hf⟩ := he
  obtain ⟨n, b, ht, hb⟩ := exists_last hf
  obtain ⟨ht', hle⟩ := h.takes hm ht
  have heq : b.pc = len := by
    by_contra hne
    rcases h.engine_keepsTo (Nat.lt_of_le_of_ne hle hne) with ⟨d, hd, -⟩ | ⟨f, d, hd⟩ <;>
      rw [hd] at hb <;> cases hb
  rw [h.engine_halts heq] at hb
  cases hb
  rcases h.enters heq with hsame | hstep
  · rw [← hsame]
    exact ⟨n, ht'⟩
  · exact ⟨n + 1, ht'.trans (.one hstep)⟩

/-- A whole that comes to an end has brought its first part to one. -/
theorem exists_ends_first (h : Parts whole first second len start) : ∀ {fuel : Nat} {m : Machine},
    m.pc ≤ len → Machine.run whole.engine fuel m = some e → ∃ e', Ends first.engine m e'
  | 0, m, hm, hr => by cases hr
  | fuel + 1, m, hm, hr => by
    rcases Nat.eq_or_lt_of_le hm with heq | hlt
    · exact ⟨_, ends_of_halted (h.engine_halts heq)⟩
    rcases h.engine_keepsTo hlt with ⟨d, hd, hle⟩ | ⟨f, d, hd⟩
    · rw [run_succ_of_next ((h.engine_within hlt).trans hd)] at hr
      obtain ⟨e', he'⟩ := h.exists_ends_first hle hr
      exact ⟨e', (Takes.one hd).ends_iff.2 he'⟩
    · exact ⟨_, Machine.ends_of_failed hd⟩

theorem ends_iff (h : Parts whole first second len start) (hm : m.pc ≤ len)
    (r : Option Fault × World × Nat) : (∃ e, Ends whole.engine m e ∧ e.done = r)
      ↔ (∃ f m', Ends first.engine m ⟨some f, m'⟩ ∧ Ending.done ⟨some f, m'⟩ = r)
        ∨ ∃ m', Ends first.engine m ⟨none, m'⟩
          ∧ ∃ e, Ends second.engine m'.rewind e ∧ e.done = r := by
  constructor
  · rintro ⟨e, ⟨fuel, hr⟩, rfl⟩
    obtain ⟨⟨_ | f, m'⟩, he'⟩ := h.exists_ends_first hm hr
    · obtain ⟨n, ht⟩ := h.takes_of_ended hm he'
      obtain ⟨e', he, rfl⟩ := h.engine_beyond.ends_iff.1 (ht.ends_iff.1 ⟨fuel, hr⟩)
      exact .inr ⟨m', he', e', he, (e'.done_relocate _).symm⟩
    · rw [ends_unique ⟨fuel, hr⟩ (h.ends_of_failed hm he')]
      exact .inl ⟨f, m', he', rfl⟩
  · rintro (⟨f, m', he, rfl⟩ | ⟨m', he, e, he', rfl⟩)
    · exact ⟨_, h.ends_of_failed hm he, rfl⟩
    · obtain ⟨n, ht⟩ := h.takes_of_ended hm he
      exact ⟨_, ht.ends_iff.2 (h.engine_beyond.ends_iff.2 ⟨e, he', rfl⟩), rfl⟩

theorem passes_beyond (h : Parts whole first second len start) {w : World} {steps : Nat} :
    Passes whole.engine (m.relocate (start + ·)) w steps ↔ Passes second.engine m w steps := by
  constructor
  · rintro ⟨n, pc, ht⟩
    obtain ⟨m', hm', ht'⟩ := h.engine_beyond.exists_takes ht
    cases hm'
    exact ⟨n, _, ht'⟩
  · rintro ⟨n, pc, ht⟩
    exact ⟨n, _, h.engine_beyond.takes ht⟩

/-- Step by step a run stays within the first part, or is at its end and enters the second. -/
theorem passes_of_takes (h : Parts whole first second len start) {w : World} {pc steps : Nat} :
    ∀ {n : Nat} {m : Machine}, m.pc ≤ len → Takes whole.engine n m ⟨w, pc, steps⟩ →
      Passes first.engine m w steps
        ∨ ∃ m', Ends first.engine m ⟨none, m'⟩ ∧ Passes second.engine m'.rewind w steps
  | 0, m, hm, ht => .inl ⟨0, pc, ht⟩
  | n + 1, m, hm, ⟨d, hd, ht⟩ => by
    rcases Nat.eq_or_lt_of_le hm with heq | hlt
    · refine .inr ⟨m, ends_of_halted (h.engine_halts heq), h.passes_beyond.1 ?_⟩
      rcases h.enters heq with hsame | hstep
      · rw [← hsame]
        exact ⟨n + 1, pc, d, hd, ht⟩
      · rw [hstep] at hd
        cases hd
        exact ⟨n, pc, ht⟩
    · rw [h.engine_within hlt] at hd
      rcases h.passes_of_takes (h.pc_le_of_next hlt hd) ht with ⟨k, pc', hk⟩ | ⟨m', he, hp⟩
      · exact .inl ⟨k + 1, pc', d, hd, hk⟩
      · exact .inr ⟨m', (Takes.one hd).ends_iff.2 he, hp⟩

theorem passes_iff (h : Parts whole first second len start) (hm : m.pc ≤ len) (w : World)
    (steps : Nat) : Passes whole.engine m w steps ↔ Passes first.engine m w steps
      ∨ ∃ m', Ends first.engine m ⟨none, m'⟩ ∧ Passes second.engine m'.rewind w steps := by
  constructor
  · rintro ⟨n, pc, ht⟩
    exact h.passes_of_takes hm ht
  · rintro (⟨n, pc, ht⟩ | ⟨m', he, hp⟩)
    · exact ⟨n, pc, (h.takes hm ht).1⟩
    · obtain ⟨n, ht⟩ := h.takes_of_ended hm he
      obtain ⟨k, pc, hk⟩ := h.passes_beyond.2 hp
      exact ⟨n + k, pc, ht.trans hk⟩

end Parts

theorem exists_execute_iff {j : Job} (hj : j.Balanced) (m : Machine) (P : Ending → Prop) :
    (∃ fuel e, j.execute fuel m = some e ∧ P e) ↔ ∃ e, Ends j.engine m e ∧ P e := by
  simp only [execute_of_balanced hj, Ends]
  rw [exists_comm]
  simp only [exists_and_right]

/-- What comes of an execution of one job and then another, by the runs of their engines. -/
theorem executeThen_iff {first second : Job} (hf : first.Balanced) (hs : second.Balanced)
    (m : Machine) (r : Option Fault × World × Nat) :
    (∃ fuel e, first.executeThen second fuel m = some e ∧ e.done = r)
      ↔ (∃ f m', Ends first.engine m ⟨some f, m'⟩ ∧ Ending.done ⟨some f, m'⟩ = r)
        ∨ ∃ m', Ends first.engine m ⟨none, m'⟩
          ∧ ∃ e, Ends second.engine m'.rewind e ∧ e.done = r := by
  simp only [executeThen, execute_of_balanced hf, execute_of_balanced hs]
  constructor
  · rintro ⟨fuel, e, he, hr⟩
    rcases h : Machine.run first.engine fuel m with _ | ⟨_ | f, m'⟩ <;> rw [h] at he
    · cases he
    · exact .inr ⟨m', ⟨fuel, h⟩, e, ⟨fuel, he⟩, hr⟩
    · cases he
      exact .inl ⟨f, m', ⟨fuel, h⟩, hr⟩
  · rintro (⟨f, m', ⟨fuel, h⟩, hr⟩ | ⟨m', ⟨fuel, h⟩, e, ⟨fuel', h'⟩, hr⟩)
    · exact ⟨fuel, _, by rw [h], hr⟩
    · refine ⟨fuel + fuel', e, ?_, hr⟩
      rw [run_add_of_some h]
      simp only
      rw [Nat.add_comm, run_add_of_some h']

end Job

/-! ## Joined sources -/

namespace Source

variable {a b : Source} {c : UInt8}

theorem getElem?_join_left {pc : Nat} (h : pc < a.size) :
    (a.join c b).bytes[pc]? = a.bytes[pc]? := by
  rw [← Array.getElem?_toList, toList_join, List.getElem?_append_left (by simpa [size] using h),
    Array.getElem?_toList]

theorem getElem?_join_size (a : Source) (c : UInt8) (b : Source) :
    (a.join c b).bytes[a.size]? = some c := by
  rw [← Array.getElem?_toList, toList_join]
  simp [size]

theorem getElem?_join_right (pc : Nat) : (a.join c b).bytes[a.size + 1 + pc]? = b.bytes[pc]? := by
  rw [← Array.getElem?_toList, toList_join, Nat.add_assoc, Nat.add_comm 1 pc]
  simp [size, List.getElem?_append_right]

theorem order_join_left (ha : a.checkBalance = .ok ()) (cell : UInt8) {pc : Nat}
    (hpc : pc < a.size) : (a.join c b).order cell pc = a.order cell pc := by
  have h := order_carried (t := a.join c b) (f := id) ha (fun _ _ _ _ => rfl)
    (fun _ _ => partners_join_left) (getElem?_join_left hpc) cell
  rwa [Order.map_id] at h

theorem order_join_right (hc : Symbol.ofByte? c = none) (ha : a.checkBalance = .ok ())
    (hb : b.checkBalance = .ok ()) (cell : UInt8) (pc : Nat) :
    (a.join c b).order cell (a.size + 1 + pc) = (b.order cell pc).map (a.size + 1 + ·) :=
  order_carried (f := (a.size + 1 + ·)) hb (fun _ _ _ _ => rfl)
    (fun _ _ => partners_join_right hc ha) (getElem?_join_right pc) cell

/-- No jump leads out of a balanced source. -/
theorem order_keepsTo (ha : a.checkBalance = .ok ()) (cell : UInt8) {pc : Nat} (hpc : pc < a.size) :
    (a.order cell pc).KeepsTo a.size pc := by
  have hbal := balanced_of_checkBalance ha
  have hlen : a.bytes.toList.length = a.size := rfl
  have hget : a.bytes[pc]? = some a.bytes[pc] := Array.getElem?_eq_getElem hpc
  simp only [order, hget]
  rcases hsym : Symbol.ofByte? a.bytes[pc] with _ | sym
  · exact hpc
  rw [Symbol.ofByte?_eq_some_iff.1 hsym, ← Array.getElem?_toList] at hget
  cases sym with
  | loopOpen =>
    obtain ⟨j, hj⟩ := hbal.exists_closer hget
    have := hj.lt_length
    simp only [closer?_of_partners hj, Option.getD_some, Order.KeepsTo]
    split <;> omega
  | loopClose =>
    obtain ⟨i, hi⟩ := hbal.exists_opener hget
    have := hi.lt
    simp only [opener?_of_partners hi, Option.getD_some, Order.KeepsTo]
    split <;> omega
  | _ => exact hpc

theorem parts_join (hc : Symbol.ofByte? c = none) (ha : a.checkBalance = .ok ())
    (hb : b.checkBalance = .ok ()) :
    Job.Parts (.source (a.join c b)) (.source a) (.source b) a.size (a.size + 1) where
  balanced := checkBalance_join hc ha hb
  balanced_first := ha
  balanced_second := hb
  within cell pc := order_join_left ha cell
  keepsTo cell pc := order_keepsTo ha cell
  halts cell := by
    have hend : a.bytes[a.size]? = none := Array.getElem?_eq_none_iff.2 le_rfl
    simp only [Job.order, order, hend]
  between := .inr ⟨rfl, fun cell => by simp only [Job.order, order, getElem?_join_size, hc]⟩
  beyond := order_join_right hc ha hb

end Source

namespace Program

variable {p q : Program} {offset : Nat}

theorem opcode?_join_left {k : Nat} (h : k < p.size) :
    (p.join q offset).opcode? k = p.opcode? k := by
  rw [opcode?, join, Array.getElem?_append_left h, opcode?]

theorem opcode?_join_right (k : Nat) :
    (p.join q offset).opcode? (p.size + k) = (q.opcode? k).map (Opcode.shift p.size) := by
  rw [opcode?, getElem?_join_right, Option.map_map, opcode?, Option.map_map]
  rfl

theorem Nested.target_lt (hn : p.Nested) {k t : Nat}
    (h : p.opcode? k = some (.loopStart t) ∨ p.opcode? k = some (.loopEnd t)) : t < p.size := by
  rcases h with h | h
  · exact lt_size_of_opcode? (hn.starts k t h).2
  · exact lt_size_of_opcode? (hn.ends k t h)

theorem order_keepsTo (hn : p.Nested) (hp : p.size ≤ wordMax) (cell : UInt8) {pc : Nat}
    (hpc : pc < p.size) : (p.order cell pc).KeepsTo p.size pc := by
  have hafter : ∀ k, k < p.size → after k ≤ p.size := by
    intro k hk
    unfold after
    split <;> omega
  unfold order
  rcases hop : p.opcode? pc with _ | a | t | t <;> simp only [Order.KeepsTo]
  · have := size_le_of_opcode? hop
    omega
  · exact hafter pc hpc
  · have ht := hn.target_lt (.inl hop)
    exact hafter _ (by split <;> assumption)
  · have ht := hn.target_lt (.inr hop)
    exact hafter _ (by split <;> assumption)

theorem order_join_right (hn : q.Nested) (hsize : p.size + q.size ≤ wordMax) (cell : UInt8)
    (pc : Nat) :
    (p.join q offset).order cell (p.size + pc) = (q.order cell pc).map (p.size + ·) := by
  have hafter : ∀ k, k < q.size → after (p.size + k) = p.size + after k := by
    intro k hk
    unfold after
    rw [if_neg (by omega), if_neg (by omega), Nat.add_assoc]
  unfold order
  rw [opcode?_join_right]
  rcases hop : q.opcode? pc with _ | a | t | t <;>
    simp only [Option.map_none, Option.map_some, Opcode.shift, Order.map]
  · rw [hafter pc (lt_size_of_opcode? hop)]
  · have hpc := lt_size_of_opcode? hop
    have ht := hn.target_lt (.inl hop)
    rw [← hafter _ (by split <;> assumption), apply_ite (p.size + ·)]
  · have hpc := lt_size_of_opcode? hop
    have ht := hn.target_lt (.inr hop)
    rw [← hafter _ (by split <;> assumption), apply_ite (p.size + ·)]

theorem parts_join (hp : p.Nested) (hq : q.Nested) (hsize : p.size + q.size ≤ wordMax) :
    Job.Parts (.program (p.join q offset)) (.program p) (.program q) p.size p.size where
  balanced := trivial
  balanced_first := trivial
  balanced_second := trivial
  within cell pc hpc := by simp only [Job.order, order, opcode?_join_left hpc]
  keepsTo cell pc := order_keepsTo hp (Nat.le_trans (Nat.le_add_right ..) hsize) cell
  halts cell := by
    have hend : p.opcode? p.size = none := by simp [opcode?, size]
    simp only [Job.order, order, hend]
  between := .inl rfl
  beyond := order_join_right hq hsize

end Program

theorem Source.exists_parts {a b : Source} {c : UInt8} (hc : Symbol.ofByte? c = none)
    (ha : a.checkBalance = .ok ()) (hb : b.checkBalance = .ok ())
    (hs : (a.join c b).size ≤ wordMax) (mode : Mode) :
    ∃ first second whole len start, a.job mode = .ok first ∧ b.job mode = .ok second
      ∧ (a.join c b).job mode = .ok whole ∧ Job.Parts whole first second len start := by
  cases mode with
  | direct => exact ⟨_, _, _, _, _, rfl, rfl, rfl, parts_join hc ha hb⟩
  | ir =>
    obtain ⟨p, stats, hp⟩ := exists_lower ha
    obtain ⟨q, stats', hq⟩ := exists_lower hb
    obtain ⟨sum, hpq⟩ := exists_lower_join hc hp hq
    have hsize : p.size + q.size ≤ wordMax := by
      rw [← Program.size_join p q (a.size + 1)]
      exact Nat.le_trans (renders_of_lower hpq).size_le hs
    refine ⟨.program p, .program q, .program (p.join q (a.size + 1)), _, _, ?_, ?_, ?_,
      Program.parts_join (renders_of_lower hp).nested (renders_of_lower hq).nested hsize⟩
    · rw [job, hp]
      rfl
    · rw [job, hq]
      rfl
    · rw [job, hpq]
      rfl

/-- On either engine, two balanced sources with a comment between them run as the one and then, if
that went well, the other from its first instruction. They come to the same end, if they come to
one, and by the same worlds with the same counts of steps, whether they do or not. The length of a
source is a word, as that of every buffer is. -/
theorem joined_runs_in_turn {a b : Source} {c : UInt8} (hc : Symbol.ofByte? c = none)
    (ha : a.checkBalance = .ok ()) (hb : b.checkBalance = .ok ())
    (hs : (a.join c b).size ≤ wordMax) (mode : Mode) :
    ∃ first second whole, a.job mode = .ok first ∧ b.job mode = .ok second
      ∧ (a.join c b).job mode = .ok whole ∧ ∀ m : Machine, m.pc = 0 →
        (∀ r, (∃ fuel e, whole.execute fuel m = some e ∧ e.done = r)
          ↔ ∃ fuel e, first.executeThen second fuel m = some e ∧ e.done = r)
        ∧ ∀ w steps, Passes whole.engine m w steps ↔ Passes first.engine m w steps
          ∨ ∃ fuel m', first.execute fuel m = some ⟨none, m'⟩
            ∧ Passes second.engine m'.rewind w steps := by
  obtain ⟨first, second, whole, len, start, hfirst, hsecond, hwhole, hparts⟩ :=
    Source.exists_parts hc ha hb hs mode
  refine ⟨first, second, whole, hfirst, hsecond, hwhole, fun m hm => ⟨fun r => ?_, ?_⟩⟩
  · rw [Job.exists_execute_iff hparts.balanced, hparts.ends_iff (by omega),
      Job.executeThen_iff hparts.balanced_first hparts.balanced_second]
  · intro w steps
    rw [hparts.passes_iff (by omega)]
    refine or_congr_right ⟨?_, ?_⟩
    · rintro ⟨m', ⟨fuel, he⟩, h⟩
      exact ⟨fuel, m', (Job.execute_of_balanced hparts.balanced_first fuel m).trans he, h⟩
    · rintro ⟨fuel, m', he, h⟩
      rw [Job.execute_of_balanced hparts.balanced_first] at he
      exact ⟨m', ⟨fuel, he⟩, h⟩

/-- The first part moves the one to the right and ends well; the second one then leaves the tape. -/
theorem joined_runs_in_turn_refused :
    Symbol.ofByte? 35 = none
      ∧ (⟨#[43, 91, 45, 62, 43, 60, 93]⟩ : Source).checkBalance = .ok ()
      ∧ (⟨#[62, 62]⟩ : Source).checkBalance = .ok ()
      ∧ ((⟨#[43, 91, 45, 62, 43, 60, 93]⟩ : Source).join 35 ⟨#[62, 62]⟩).size ≤ wordMax
      ∧ ∃ fuel e, ((⟨#[43, 91, 45, 62, 43, 60, 93]⟩ : Source).join 35 ⟨#[62, 62]⟩).execute fuel
          (start (.blank 2 (by decide)) { ends := .ofBytes [] }) = some e
        ∧ e.done = (some (.outOfTape 2 2),
          ⟨⟨#[0, 1], 1, by decide⟩, { ends := .ofBytes [] }⟩, 9) := by
  have hc : Symbol.ofByte? 35 = none := rfl
  have ha : (⟨#[43, 91, 45, 62, 43, 60, 93]⟩ : Source).checkBalance = .ok () := by cbv
  have hb : (⟨#[62, 62]⟩ : Source).checkBalance = .ok () := by cbv
  have hs : ((⟨#[43, 91, 45, 62, 43, 60, 93]⟩ : Source).join 35 ⟨#[62, 62]⟩).size ≤ wordMax := by
    rw [Source.size_join]
    simp [Source.size, wordMax]
  obtain ⟨first, second, whole, hfirst, hsecond, hwhole, h⟩ :=
    joined_runs_in_turn hc ha hb hs .direct
  cases hfirst
  cases hsecond
  cases hwhole
  refine ⟨hc, ha, hb, hs, ((h _ rfl).1 _).2 ⟨8, ⟨some (.outOfTape 2 2),
    ⟨⟨⟨#[0, 1], 1, by decide⟩, { ends := .ofBytes [] }⟩, 1, 9⟩⟩, rfl, rfl⟩⟩

end TapeMachine
