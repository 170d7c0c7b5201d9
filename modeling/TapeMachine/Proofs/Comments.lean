import TapeMachine.Proofs.Bare
import TapeMachine.Proofs.Equivalence
import TapeMachine.Proofs.Orders

/-!
# Comments

The direct engine does at a symbol what it does at the same symbol of the bare source
(`Source.step_bare`), and passes comments without a step that counts. So a source and its bare form
have the same runs (`Source.run_bare`). What they are lowered to differs, as a comment parts a run
of symbols or keeps a loop from being one that clears its cell; the two programs agree as each of
them agrees with its source (`comments_do_nothing`).
-/

namespace TapeMachine

open Machine Nesting

/-- The order for an engine that goes by other places. -/
def Order.map (f : Nat → Nat) : Order → Order
  | halt => halt
  | pass => pass
  | jump pc => jump (f pc)
  | act a pc => act a (f pc)

def Step.map (f : Machine → Machine) : Step → Step
  | next m => next (f m)
  | halted m => halted (f m)
  | failed fault m => failed fault (f m)

/-- The machine at another place. -/
def Machine.relocate (f : Nat → Nat) (m : Machine) : Machine := { m with pc := f m.pc }

def Ending.relocate (f : Nat → Nat) (e : Ending) : Ending := ⟨e.fault?, e.machine.relocate f⟩

theorem Machine.follow_relocate (f : Nat → Nat) (m : Machine) {o : Order} (ho : o ≠ .pass) :
    (m.relocate f).follow (o.map f) = (m.follow o).map (·.relocate f) := by
  cases o with
  | halt => rfl
  | pass => exact absurd rfl ho
  | jump pc => rfl
  | act a pc =>
    simp only [follow, act, Order.map, relocate]
    cases m.world.perform a <;> rfl

theorem conclude_relocate (f : Nat → Nat) (e : Ending) : conclude (e.relocate f) = conclude e := rfl

namespace Source

variable {s : Source} {m : Machine} {config : Config} {ends : Endpoints}

theorem checkBalance_eq_ok_iff : s.checkBalance = .ok () ↔ s.unmatched = .ok () := by
  unfold checkBalance
  cases s.unmatched <;> simp [Except.mapError]

theorem checkBalance_bare (hs : s.checkBalance = .ok ()) : s.bare.checkBalance = .ok () := by
  rw [checkBalance_eq_ok_iff, unmatched_bare, checkBalance_eq_ok_iff.1 hs]
  rfl

theorem order_ne_pass {pc : Nat} (hsym : ∀ b, s.bytes[pc]? = some b → isSymbol b)
    (cell : UInt8) : s.order cell pc ≠ .pass := by
  unfold order
  rcases hget : s.bytes[pc]? with _ | b
  · simp
  · obtain ⟨c, hc⟩ := Option.isSome_iff_exists.1 (hsym b hget)
    simp only [hc]
    cases c <;> simp

/-- A source that holds the same symbol at another place, with its partner if it is a bracket, has
the same order there. -/
theorem order_carried {t : Source} {f : Nat → Nat} (hs : s.checkBalance = .ok ())
    (hsucc : ∀ k b, s.bytes[k]? = some b → isSymbol b → f (k + 1) = f k + 1)
    (hpart : ∀ i j, Partners (depth s.bytes.toList) i j →
      Partners (depth t.bytes.toList) (f i) (f j))
    {pc : Nat} (hpc : t.bytes[f pc]? = s.bytes[pc]?) (cell : UInt8) :
    t.order cell (f pc) = (s.order cell pc).map f := by
  have hb := balanced_of_checkBalance hs
  simp only [order, hpc]
  rcases hget : s.bytes[pc]? with _ | b
  · rfl
  rcases hc : Symbol.ofByte? b with _ | c <;> simp only [hc]
  · rfl
  have hnext := hsucc pc b hget (isSymbol_of_ofByte? hc)
  rw [Symbol.ofByte?_eq_some_iff.1 hc, ← Array.getElem?_toList] at hget
  cases c with
  | loopOpen =>
    obtain ⟨j, hj⟩ := hb.exists_closer hget
    have hclose := getElem?_of_lt_depth (n := j) (by rw [hj.closes]; exact hj.above j hj.lt le_rfl)
    rw [Array.getElem?_toList] at hclose
    have hnextj := hsucc j _ hclose (isSymbol_byte _)
    rw [closer?_of_partners hj, closer?_of_partners (hpart _ _ hj)]
    simp only [Order.map, Option.getD_some, apply_ite f, hnext, hnextj]
  | loopClose =>
    obtain ⟨i, hi⟩ := hb.exists_opener hget
    rw [opener?_of_partners hi, opener?_of_partners (hpart _ _ hi)]
    simp only [Order.map, Option.getD_some, apply_ite f, hnext]
  | _ => simp only [Order.map, hnext]

theorem order_bare (hs : s.checkBalance = .ok ()) {pc : Nat}
    (hsym : ∀ b, s.bytes[pc]? = some b → isSymbol b) (cell : UInt8) :
    s.bare.order cell (s.rank pc) = (s.order cell pc).map s.rank := by
  refine order_carried hs (fun k b => rank_succ_of_symbol) (fun i j => partners_bare) ?_ cell
  rcases hget : s.bytes[pc]? with _ | b
  · rw [rank_of_size_le (Array.getElem?_eq_none_iff.1 hget)]
    exact Array.getElem?_eq_none_iff.2 le_rfl
  · exact getElem?_bare hget (hsym b hget)

theorem step_bare (hs : s.checkBalance = .ok ())
    (hsym : ∀ b, s.bytes[m.pc]? = some b → isSymbol b) :
    s.bare.step (m.relocate s.rank) = (s.step m).map (·.relocate s.rank) := by
  rw [step_eq_follow hs, step_eq_follow (checkBalance_bare hs),
    ← follow_relocate _ _ (order_ne_pass hsym _), ← order_bare hs hsym]
  rfl

/-- The comments before the next symbol are passed, and stand nowhere in the bare source. -/
theorem exists_takes_comments (s : Source) (m : Machine) :
    ∃ n m', Takes s.step n m m' ∧ m'.relocate s.rank = m.relocate s.rank
      ∧ ∀ b, s.bytes[m'.pc]? = some b → isSymbol b := by
  induction h : s.size - m.pc generalizing m with
  | zero =>
    refine ⟨0, m, rfl, rfl, fun b hb => ?_⟩
    obtain ⟨hlt, -⟩ := Array.getElem?_eq_some_iff.1 hb
    unfold size at h
    omega
  | succ k ih =>
    have hlt : m.pc < s.bytes.size := by
      unfold size at h
      omega
    have hget : s.bytes[m.pc]? = some s.bytes[m.pc] := Array.getElem?_eq_getElem hlt
    by_cases hsym : isSymbol s.bytes[m.pc]
    · refine ⟨0, m, rfl, rfl, fun b hb => ?_⟩
      rw [hget] at hb
      cases hb
      exact hsym
    · obtain ⟨n, m', ht, hm', hend⟩ := ih { m with pc := m.pc + 1 } (by simp only; omega)
      have hstep := step_comment hget (by simpa [isSymbol] using hsym)
      refine ⟨n + 1, m', ⟨_, hstep, ht⟩, ?_, hend⟩
      rw [hm']
      simp only [relocate, rank_succ_of_comment hget hsym]

theorem simulates_bare (hs : s.checkBalance = .ok ()) : Simulates s.step s.bare.step
    (fun a b => b = a.relocate s.rank) (fun e e' => e' = e.relocate s.rank) := by
  rintro a _ rfl
  obtain ⟨n, a', ht, ha', hsym⟩ := s.exists_takes_comments a
  refine .after ht ?_
  rw [← ha', step_bare hs hsym]
  rcases h : s.step a' with c | c | ⟨f, c⟩
  · exact ⟨0, c, Takes.one h, rfl⟩
  · exact ⟨_, ends_of_halted h, rfl⟩
  · exact ⟨_, ends_of_failed h, rfl⟩

/-- A balanced source and its bare form have the same runs, to the count of their steps. -/
theorem run_bare (hs : s.checkBalance = .ok ()) (config : Config) (ends : Endpoints)
    (r : Completion × Endpoints) :
    (∃ fuel, s.run fuel config ends = some r) ↔ ∃ fuel, s.bare.run fuel config ends = some r := by
  have S := simulates_bare hs
  have h0 : entry config ends = (entry config ends).relocate s.rank := rfl
  simp only [run_of_balanced hs, run_of_balanced (checkBalance_bare hs)]
  constructor
  · rintro ⟨fuel, h⟩
    obtain ⟨e, he, rfl⟩ := ends_of_conduct h
    obtain ⟨_, ⟨fuel', he'⟩, rfl⟩ := S.ends_of_ends' h0 he
    exact ⟨fuel', Option.map_eq_some_iff.2 ⟨_, he', conclude_relocate ..⟩⟩
  · rintro ⟨fuel, h⟩
    obtain ⟨e', he', rfl⟩ := ends_of_conduct h
    obtain ⟨e, ⟨fuel', he⟩, rfl⟩ := S.ends_of_ends h0 he'
    exact ⟨fuel', Option.map_eq_some_iff.2 ⟨e, he, (conclude_relocate ..).symm⟩⟩

theorem run_of_unmatched {u : Unmatched} (h : s.unmatched = .error u) (fuel : Nat) :
    s.run fuel config ends = some (.aborted (u.fault s) 0, ends.flushSink.2) := by
  refine run_of_not_balanced ?_ fuel config ends
  rw [checkBalance, h]
  rfl

theorem lower_of_unmatched {u : Unmatched} (h : s.unmatched = .error u) :
    s.lower = .error (u.fault s) := by
  have hm := map_lowerBytes s
  unfold lower
  rcases hl : s.lowerBytes with v | r <;> rw [hl, h] at hm <;> cases hm
  rfl

/-- The check blames a bracket, and the same one in the bare source. -/
theorem getElem?_of_unmatched {u : Unmatched} (h : s.unmatched = .error u) :
    ∃ b, isSymbol b ∧ s.bytes[u.offset]? = some b ∧ s.bare.bytes[s.rank u.offset]? = some b := by
  obtain ⟨c, hc⟩ : ∃ c : Symbol, s.bytes[u.offset]? = some c.byte := by
    have hj := justified_unmatched s
    rw [h] at hj
    simp only [← Array.getElem?_toList]
    cases u with
    | opening i => exact ⟨.loopOpen, hj.1.1⟩
    | closing i =>
      obtain ⟨-, hlt, hle⟩ := hj
      have hi := hle i le_rfl
      have hfall : depth s.bytes.toList (i + 1) < depth s.bytes.toList i := by
        unfold depth
        omega
      exact ⟨.loopClose, getElem?_of_lt_depth hfall⟩
  exact ⟨c.byte, isSymbol_byte c, hc, getElem?_bare hc (isSymbol_byte c)⟩

end Source

namespace Completion.Agrees

variable {c d e : Completion}

theorem symm (h : c.Agrees d) : d.Agrees c := by
  cases c with
  | finished o =>
    cases d with
    | finished o' => exact ⟨h.1.symm, h.2.1.symm, h.2.2.symm⟩
    | _ => cases h
  | aborted f n =>
    cases d with
    | aborted f' n' => exact Fault.Agrees.symm h
    | _ => cases h
  | undelivered f =>
    cases d with
    | undelivered f' => exact Eq.symm h
    | _ => cases h

theorem trans (h : c.Agrees d) (h' : d.Agrees e) : c.Agrees e := by
  cases d with
  | finished o =>
    cases c with
    | finished o₁ =>
      cases e with
      | finished o₂ =>
        exact ⟨h.1.trans h'.1, h.2.1.trans h'.2.1, h.2.2.trans h'.2.2⟩
      | _ => cases h'
    | _ => cases h
  | aborted f n =>
    cases c with
    | aborted f₁ n₁ =>
      cases e with
      | aborted f₂ n₂ => exact Fault.Agrees.trans h h'
      | _ => cases h'
    | _ => cases h
  | undelivered f =>
    cases c with
    | undelivered f₁ =>
      cases e with
      | undelivered f₂ => exact Eq.trans h h'
      | _ => cases h'
    | _ => cases h

end Completion.Agrees

/-- Comments do nothing. Without them an unbalanced source fails at the same bracket, and a balanced
one has the same runs on the direct engine, while what the two are lowered to agrees. The length of
a source is a word, as that of every buffer is. -/
theorem comments_do_nothing {s : Source} (hs : s.size ≤ wordMax) (config : Config)
    (ends : Endpoints) :
    (∀ u, s.unmatched = .error u → s.bare.unmatched = .error (u.map s.rank)
      ∧ (∃ b, isSymbol b ∧ s.bytes[u.offset]? = some b ∧ s.bare.bytes[s.rank u.offset]? = some b)
      ∧ (∃ e, ∀ fuel, s.run fuel config ends = some (.aborted (u.fault s) 0, e)
        ∧ s.bare.run fuel config ends = some (.aborted ((u.map s.rank).fault s.bare) 0, e))
      ∧ s.lower = .error (u.fault s) ∧ s.bare.lower = .error ((u.map s.rank).fault s.bare))
    ∧ (s.unmatched = .ok () → s.bare.unmatched = .ok ()
      ∧ (∀ r, (∃ fuel, s.run fuel config ends = some r)
        ↔ ∃ fuel, s.bare.run fuel config ends = some r)
      ∧ ∃ p stats p' stats', s.lower = .ok (p, stats) ∧ s.bare.lower = .ok (p', stats')
        ∧ ((∃ fuel r, p.run fuel config ends = some r) ↔ ∃ fuel r, p'.run fuel config ends = some r)
        ∧ ∀ fuel fuel' c c' e e', p.run fuel config ends = some (c, e) →
          p'.run fuel' config ends = some (c', e') → c.Agrees c' ∧ e = e') := by
  refine ⟨fun u hu => ?_, fun hu => ?_⟩
  · have hbare : s.bare.unmatched = .error (u.map s.rank) := by
      rw [Source.unmatched_bare, hu]
      rfl
    exact ⟨hbare, Source.getElem?_of_unmatched hu, ⟨_, fun fuel =>
      ⟨Source.run_of_unmatched hu fuel, Source.run_of_unmatched hbare fuel⟩⟩,
      Source.lower_of_unmatched hu, Source.lower_of_unmatched hbare⟩
  · have hc := Source.checkBalance_eq_ok_iff.2 hu
    have hc' := Source.checkBalance_bare hc
    obtain ⟨p, stats, hl⟩ := Source.exists_lower hc
    obtain ⟨p', stats', hl'⟩ := Source.exists_lower hc'
    obtain ⟨hends, hagree⟩ := Source.lowered_agrees hs hl config ends
    have hs' := Nat.le_trans s.size_bare_le hs
    obtain ⟨hends', hagree'⟩ := Source.lowered_agrees hs' hl' config ends
    have hrun := Source.run_bare hc config ends
    refine ⟨Source.checkBalance_eq_ok_iff.1 hc', hrun, p, stats, p', stats', hl, hl', ?_, ?_⟩
    · rw [← hends, ← hends']
      constructor
      · rintro ⟨fuel, r, h⟩
        obtain ⟨fuel', h'⟩ := (hrun r).1 ⟨fuel, h⟩
        exact ⟨fuel', r, h'⟩
      · rintro ⟨fuel, r, h⟩
        obtain ⟨fuel', h'⟩ := (hrun r).2 ⟨fuel, h⟩
        exact ⟨fuel', r, h'⟩
    · intro fuel fuel' c c' e e' hp hp'
      obtain ⟨fuel₁, ⟨d, e₁⟩, hd⟩ := hends.2 ⟨fuel, _, hp⟩
      obtain ⟨fuel₂, hd'⟩ := (hrun _).1 ⟨fuel₁, hd⟩
      obtain ⟨hdc, rfl⟩ := hagree _ _ _ _ _ _ hd hp
      obtain ⟨hdc', rfl⟩ := hagree' _ _ _ _ _ _ hd' hp'
      exact ⟨hdc.symm.trans hdc', rfl⟩

/-- Without its comment the loop is one that clears its cell. -/
theorem comments_do_nothing_clear :
    (⟨#[43, 91, 32, 45, 93]⟩ : Source).size ≤ wordMax
      ∧ (⟨#[43, 91, 32, 45, 93]⟩ : Source).unmatched = .ok ()
      ∧ (⟨#[43, 91, 32, 45, 93]⟩ : Source).bare.lower
        = .ok (⟨#[⟨.act (.add 1), 0⟩, ⟨.act .clear, 1⟩]⟩, ⟨4, 2, 0, 1, 0⟩)
      ∧ ∃ r, Program.run ⟨#[⟨.act (.add 1), 0⟩, ⟨.loopStart 3, 1⟩, ⟨.act (.sub 1), 3⟩,
          ⟨.loopEnd 1, 4⟩]⟩ 5 ⟨1, .ir, by decide⟩ (.ofBytes []) = some r
        ∧ r.1.Agrees (.finished ⟨⟨#[0], 0, by decide⟩, 2, 0, 0⟩) := by
  have hs : (⟨#[43, 91, 32, 45, 93]⟩ : Source).size ≤ wordMax := by decide
  have hu : (⟨#[43, 91, 32, 45, 93]⟩ : Source).unmatched = .ok () := by cbv
  have hl : (⟨#[43, 91, 32, 45, 93]⟩ : Source).lower
      = .ok (⟨#[⟨.act (.add 1), 0⟩, ⟨.loopStart 3, 1⟩, ⟨.act (.sub 1), 3⟩, ⟨.loopEnd 1, 4⟩]⟩,
        ⟨5, 4, 0, 0, 1⟩) := by cbv
  have hl' : (⟨#[43, 91, 32, 45, 93]⟩ : Source).bare.lower
      = .ok (⟨#[⟨.act (.add 1), 0⟩, ⟨.act .clear, 1⟩]⟩, ⟨4, 2, 0, 1, 0⟩) := by cbv
  have hrun : Program.run ⟨#[⟨.act (.add 1), 0⟩, ⟨.loopStart 3, 1⟩, ⟨.act (.sub 1), 3⟩,
      ⟨.loopEnd 1, 4⟩]⟩ 5 ⟨1, .ir, by decide⟩ (.ofBytes [])
      = some (.finished ⟨⟨#[0], 0, by decide⟩, 4, 0, 0⟩, ⟨⟨[.bytes []]⟩, {}, #[.flushed]⟩) := by
    cbv
  have hrun' : Program.run ⟨#[⟨.act (.add 1), 0⟩, ⟨.act .clear, 1⟩]⟩ 3 ⟨1, .ir, by decide⟩
      (.ofBytes []) = some (.finished ⟨⟨#[0], 0, by decide⟩, 2, 0, 0⟩,
        ⟨⟨[.bytes []]⟩, {}, #[.flushed]⟩) := by cbv
  obtain ⟨-, -, p, stats, p', stats', hp, hp', -, hagree⟩ :=
    (comments_do_nothing hs ⟨1, .ir, by decide⟩ (.ofBytes [])).2 hu
  rw [hl] at hp
  rw [hl'] at hp'
  cases hp
  cases hp'
  exact ⟨hs, hu, hl', _, hrun, (hagree _ _ _ _ _ _ hrun hrun').1⟩

end TapeMachine
