import TapeMachine.Proofs.Pairing

/-!
# The check of loop ends

A row of opcodes reads as a row of brackets, among which actions count for nothing. The check
accepts exactly the rows that are balanced and whose loop starts and loop ends hold the index of
their partner (`checkLoops_iff_partners`). At a loop start it looks at one opcode only, which may
stand before the loop, or belong to another one further in or further out. But what it finds there
has to refer back, and every loop end is in its turn held against the innermost open loop, which is
its partner (`sound_of_checkLoopsFrom`).
-/

namespace TapeMachine

open Nesting

namespace Nesting.Partners

variable {h : Nat → Int} {i j j' : Nat}

theorem le_of_partners (hp : Partners h i j) (hp' : Partners h i j') : j' ≤ j := by
  by_contra hlt
  have hclose := hp.closes
  have habove := hp'.above (j + 1) (by have := hp.lt; omega) (by omega)
  omega

/-- An opening bracket has one partner at most. -/
theorem unique (hp : Partners h i j) (hp' : Partners h i j') : j = j' :=
  Nat.le_antisymm (hp'.le_of_partners hp) (hp.le_of_partners hp')

/-- A closing bracket has one partner at most. -/
theorem unique_left {i' : Nat} (hp : Partners h i j) (hp' : Partners h i' j) : i = i' := by
  have hclose := hp.closes
  have hclose' := hp'.closes
  rcases Nat.lt_trichotomy i i' with hlt | rfl | hlt
  · have := hp.above i' hlt (Nat.le_of_lt hp'.lt)
    omega
  · rfl
  · have := hp'.above i hlt (Nat.le_of_lt hp.lt)
    omega

end Nesting.Partners

/-- How an opcode reads among brackets. -/
def Opcode.bracket : Opcode → UInt8
  | act _ => 0
  | loopStart _ => Symbol.loopOpen.byte
  | loopEnd _ => Symbol.loopClose.byte

theorem Opcode.rise_bracket : ∀ op : Opcode, rise op.bracket =
    match op with
    | act _ => 0
    | loopStart _ => 1
    | loopEnd _ => -1
  | act _ | loopStart _ | loopEnd _ => rfl

namespace Program

/-- The program as a row of brackets. -/
def brackets (p : Program) : List UInt8 := p.opcodes.map Opcode.bracket

variable {p : Program} {i j k : Nat}

theorem length_brackets (p : Program) : p.brackets.length = p.size := by
  simp [brackets, opcodes, size]

theorem getElem?_brackets (p : Program) (k : Nat) :
    p.brackets[k]? = (p.opcode? k).map Opcode.bracket := by
  rw [brackets, List.getElem?_map, getElem?_opcodes]

theorem depth_brackets_succ {op : Opcode} (h : p.opcode? k = some op) :
    depth p.brackets (k + 1) = depth p.brackets k + rise op.bracket :=
  depth_succ (by rw [getElem?_brackets, h]; rfl)

theorem getElem?_brackets_eq_open_iff :
    p.brackets[k]? = some Symbol.loopOpen.byte ↔ ∃ t, p.opcode? k = some (.loopStart t) := by
  rw [getElem?_brackets]
  rcases p.opcode? k with _ | a | t | t
  · simp
  · simpa [Opcode.bracket] using by decide
  · simp [Opcode.bracket]
  · simpa [Opcode.bracket] using by decide

theorem getElem?_brackets_eq_close_iff :
    p.brackets[k]? = some Symbol.loopClose.byte ↔ ∃ t, p.opcode? k = some (.loopEnd t) := by
  rw [getElem?_brackets]
  rcases p.opcode? k with _ | a | t | t
  · simp
  · simpa [Opcode.bracket] using by decide
  · simpa [Opcode.bracket] using by decide
  · simp [Opcode.bracket]

theorem exists_loopStart (h : Partners (depth p.brackets) i j) :
    ∃ t, p.opcode? i = some (.loopStart t) :=
  getElem?_brackets_eq_open_iff.1 (getElem?_of_depth_lt (by have := h.opens; omega))

/-- The two brackets of each loop hold each other's index. -/
def PartnersHeld (p : Program) : Prop :=
  ∀ i j, Partners (depth p.brackets) i j →
    p.opcode? i = some (.loopStart j) ∧ p.opcode? j = some (.loopEnd i)

/-! ## What the check accepts -/

/-- From index `k` on, loop starts are answered where they point to, and loop ends point to their
partners. -/
structure Sound (p : Program) (k : Nat) : Prop where
  starts : ∀ i t, k ≤ i → p.opcode? i = some (.loopStart t) → p.opcode? t = some (.loopEnd i)
  ends : ∀ j x, k ≤ j → p.opcode? j = some (.loopEnd x) → Partners (depth p.brackets) x j

theorem sound_of_size_le (h : p.size ≤ k) : p.Sound k where
  starts i t hi hop := absurd (lt_size_of_opcode? hop) (by omega)
  ends j x hj hop := absurd (lt_size_of_opcode? hop) (by omega)

theorem Sound.of_succ (h : p.Sound (k + 1))
    (hs : ∀ t, p.opcode? k = some (.loopStart t) → p.opcode? t = some (.loopEnd k))
    (he : ∀ x, p.opcode? k = some (.loopEnd x) → Partners (depth p.brackets) x k) : p.Sound k where
  starts i t hi hop := by
    rcases Nat.eq_or_lt_of_le hi with rfl | hlt
    · exact hs t hop
    · exact h.starts i t hlt hop
  ends j x hj hop := by
    rcases Nat.eq_or_lt_of_le hj with rfl | hlt
    · exact he x hop
    · exact h.ends j x hlt hop

/-- The stack of the check holds the openings without a partner so far, so that a loop end which it
accepts points to its partner. -/
theorem sound_of_checkLoopsFrom : ∀ (ops : List Opcode) (k : Nat) (st : List Nat),
    p.opcodes.drop k = ops → k ≤ p.size → Unclosed (depth p.brackets) k st →
    p.checkLoopsFrom ops k st = .ok () → p.Sound k ∧ Unclosed (depth p.brackets) p.size []
  | [], k, [], hops, hk, hu, _ => by
    have hle : p.size ≤ k := by simpa [opcodes, size] using List.drop_eq_nil_iff.1 hops
    obtain rfl := Nat.le_antisymm hk hle
    exact ⟨sound_of_size_le hle, hu⟩
  | [], k, start :: outer, _, _, _, h => by cases h
  | op :: rest, k, st, hops, hk, hu, h => by
    obtain ⟨hop, hrest⟩ := drop_eq_cons hops
    rw [getElem?_opcodes] at hop
    have hlt := lt_size_of_opcode? hop
    have hd := depth_brackets_succ hop
    rw [Opcode.rise_bracket] at hd
    cases op with
    | act a =>
      simp only [checkLoopsFrom] at h
      simp only [Int.add_zero] at hd
      have hstay : Unclosed (depth p.brackets) (k + 1) st := by
        refine hu.stay (Nat.le_succ k) hd fun i hki hik => ?_
        rcases Nat.eq_or_lt_of_le hki with rfl | hlt
        · exact Int.le_refl _
        · have hsame : depth p.brackets i = depth p.brackets k := by
            rw [Nat.le_antisymm hik hlt, hd]
          exact Int.le_of_eq hsame.symm
      obtain ⟨hs, hend⟩ := sound_of_checkLoopsFrom rest (k + 1) st hrest hlt hstay h
      exact ⟨hs.of_succ (by simp [hop]) (by simp [hop]), hend⟩
    | loopStart t =>
      simp only [checkLoopsFrom] at h
      split at h
      · cases h
      split at h
      · rename_i hback
        obtain ⟨hs, hend⟩ := sound_of_checkLoopsFrom rest (k + 1) (k :: st) hrest hlt (hu.push hd) h
        refine ⟨hs.of_succ (fun t' ht => ?_) (by simp [hop]), hend⟩
        cases hop.symm.trans ht
        exact hback
      · cases h
    | loopEnd x =>
      rcases st with _ | ⟨start, outer⟩
      · cases h
      simp only [checkLoopsFrom] at h
      split at h
      · rename_i hstart
        obtain ⟨hp, hpop⟩ := hu.pop hd
        obtain ⟨hs, hend⟩ := sound_of_checkLoopsFrom rest (k + 1) outer hrest hlt hpop h
        refine ⟨hs.of_succ (by simp [hop]) fun x' hx => ?_, hend⟩
        cases hop.symm.trans hx
        rwa [← hstart]
      · cases h

theorem sound_of_checkLoops (h : p.checkLoops = .ok ()) : p.Sound 0 ∧ Balanced p.brackets := by
  obtain ⟨hs, hend⟩ := sound_of_checkLoopsFrom p.opcodes 0 [] rfl (Nat.zero_le _)
    (unclosed_zero p.brackets) h
  rw [← length_brackets] at hend
  exact ⟨hs, balanced_of_unclosed hend⟩

/-- A loop start points to its partner: what it points to is a loop end that points back, and the
partner of that is the loop start. -/
theorem Sound.partnersHeld (h : p.Sound 0) : p.PartnersHeld := by
  intro i j hp
  obtain ⟨t, hi⟩ := exists_loopStart hp
  have ht := h.starts i t (Nat.zero_le i) hi
  obtain rfl := hp.unique (h.ends t i (Nat.zero_le t) ht)
  exact ⟨hi, ht⟩

/-! ## What is accepted -/

theorem PartnersHeld.nested (h : p.PartnersHeld) (hb : Balanced p.brackets) : p.Nested := by
  have hstart : ∀ i t, p.opcode? i = some (.loopStart t) →
      Partners (depth p.brackets) i t ∧ p.opcode? t = some (.loopEnd i) := by
    intro i t hi
    obtain ⟨j, hp⟩ := hb.exists_closer (getElem?_brackets_eq_open_iff.2 ⟨t, hi⟩)
    obtain ⟨hi', hj⟩ := h i j hp
    cases hi.symm.trans hi'
    exact ⟨hp, hj⟩
  refine ⟨fun i t hi => ⟨(hstart i t hi).1.lt, (hstart i t hi).2⟩, fun t i ht => ?_,
    fun i t j u hi hj hij hjt => (hstart i t hi).1.lt_of_inside (hstart j u hj).1 hij hjt⟩
  obtain ⟨i', hp⟩ := hb.exists_opener (getElem?_brackets_eq_close_iff.2 ⟨i, ht⟩)
  obtain ⟨hi, ht'⟩ := h i' t hp
  cases ht.symm.trans ht'
  exact hi

theorem checkLoops_iff (hp : p.size ≤ wordMax) :
    p.checkLoops = .ok () ↔ Balanced p.brackets ∧ p.PartnersHeld := by
  constructor
  · intro h
    obtain ⟨hs, hb⟩ := sound_of_checkLoops h
    exact ⟨hb, hs.partnersHeld⟩
  · rintro ⟨hb, hheld⟩
    exact checkLoops_of_nested (hheld.nested hb) hp

end Program

theorem opcode?_ofOpcodes (ops : List Opcode) (k : Nat) :
    (Program.ofOpcodes ops).opcode? k = ops[k]? := by
  rcases h : ops[k]? with _ | op <;> simp [Program.ofOpcodes, Program.opcode?, h]

theorem brackets_ofOpcodes (ops : List Opcode) :
    (Program.ofOpcodes ops).brackets = ops.map Opcode.bracket := by
  refine List.ext_getElem? fun k => ?_
  rw [Program.getElem?_brackets, opcode?_ofOpcodes, List.getElem?_map]

/-- The check accepts a row of opcodes, whatever they point to, if and only if their brackets are
balanced and those of each loop hold each other's index. The length of a row is a word, as that of
every buffer is. -/
theorem checkLoops_iff_partners {ops : List Opcode} (h : ops.length ≤ wordMax) :
    (Program.ofOpcodes ops).checkLoops = .ok () ↔
      Balanced (ops.map Opcode.bracket)
        ∧ ∀ i j, Partners (depth (ops.map Opcode.bracket)) i j →
          ops[i]? = some (.loopStart j) ∧ ops[j]? = some (.loopEnd i) := by
  have hsize : (Program.ofOpcodes ops).size ≤ wordMax := by
    simpa [Program.ofOpcodes, Program.size] using h
  rw [Program.checkLoops_iff hsize, Program.PartnersHeld, brackets_ofOpcodes]
  simp only [opcode?_ofOpcodes]

/-- Of two loops, one within the other, and two that cross. When they cross, each start points to an
end that points back, but not to its partner. -/
theorem checkLoops_iff_partners_crossed :
    [Opcode.loopStart 3, .loopStart 2, .loopEnd 1, .loopEnd 0].length ≤ wordMax
      ∧ (Program.ofOpcodes [.loopStart 3, .loopStart 2, .loopEnd 1, .loopEnd 0]).checkLoops = .ok ()
      ∧ Balanced ([Opcode.loopStart 3, .loopStart 2, .loopEnd 1, .loopEnd 0].map Opcode.bracket)
      ∧ (Program.ofOpcodes [.loopStart 2, .loopStart 3, .loopEnd 0, .loopEnd 1]).checkLoops
        ≠ .ok () := by
  have hok : (Program.ofOpcodes [.loopStart 3, .loopStart 2, .loopEnd 1, .loopEnd 0]).checkLoops
      = .ok () := rfl
  refine ⟨by decide, hok, ((checkLoops_iff_partners (by decide)).1 hok).1, fun hcrossed => ?_⟩
  have hp : Partners (depth ([Opcode.loopStart 2, .loopStart 3, .loopEnd 0, .loopEnd 1].map
      Opcode.bracket)) 0 3 := by
    refine ⟨by decide, by decide, by decide, fun k hk hk' => ?_⟩
    obtain rfl | rfl | rfl : k = 1 ∨ k = 2 ∨ k = 3 := by omega
    all_goals decide
  exact absurd (((checkLoops_iff_partners (by decide)).1 hcrossed).2 0 3 hp).1 (by decide)

end TapeMachine
