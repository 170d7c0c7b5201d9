import TapeMachine.Proofs.Balance
import TapeMachine.Proofs.Lexemes

/-!
# Drafts

A draft records its lexemes in order, and each loop that it closed holds two partners of the source
(`Draft.Sound`). So the loop ends of a lowered program refer to each other, and stand for two
partners (`Program.Renders`).
-/

namespace TapeMachine

open Nesting

def Opcode.lexeme : Opcode → Lexeme
  | act a => .act a
  | loopStart _ => .loopOpen
  | loopEnd _ => .loopClose

def Instruction.placed (i : Instruction) : Placed := ⟨i.opcode.lexeme, i.offset⟩

namespace Draft

/-- What a draft has recorded of a source with depths `h`, before the byte at `n`. -/
structure Sound (h : Nat → Int) (n : Nat) (d : Draft) : Prop where
  stack : Unclosed h n (d.opened.map Prod.snd)
  opened : ∀ k o : Nat, (k, o) ∈ d.opened → d.code[k]? = some ⟨.loopStart Opcode.unresolved, o⟩
  starts : ∀ k t o : Nat, d.code[k]? = some ⟨.loopStart t, o⟩ →
    (k, o) ∈ d.opened ∨ ∃ o', d.code[t]? = some ⟨.loopEnd k, o'⟩ ∧ Partners h o o'
  ends : ∀ k t o' : Nat, d.code[k]? = some ⟨.loopEnd t, o'⟩ →
    ∃ o, d.code[t]? = some ⟨.loopStart k, o⟩ ∧ Partners h o o'
  before : ∀ (k : Nat) (i : Instruction), d.code[k]? = some i → i.offset < n

theorem lt_size_of_getElem? {code : Array Instruction} {k : Nat} {i : Instruction}
    (h : code[k]? = some i) : k < code.size := (Array.getElem?_eq_some_iff.1 h).1

theorem getElem?_push_of_some {code : Array Instruction} {k : Nat} {i : Instruction}
    (h : code[k]? = some i) (j : Instruction) : (code.push j)[k]? = some i := by
  rw [Array.getElem?_push, if_neg (Nat.ne_of_lt (lt_size_of_getElem? h)), h]

theorem eq_or_of_getElem?_push {code : Array Instruction} {k : Nat} {i j : Instruction}
    (h : (code.push j)[k]? = some i) : (k = code.size ∧ i = j) ∨ code[k]? = some i := by
  rw [Array.getElem?_push] at h
  split at h
  · rename_i hk
    exact .inl ⟨hk, (Option.some.inj h).symm⟩
  · exact .inr h

section CloseLoop

variable {code : Array Instruction} {start n k : Nat} {i j : Instruction}

theorem getElem?_closeLoop_size :
    (closeLoop code start n)[code.size]? = some ⟨.loopEnd start, n⟩ := by
  rw [closeLoop, Array.getElem?_push, if_pos (Array.size_modify ..).symm]

theorem getElem?_closeLoop_start (h : code[start]? = some j) :
    (closeLoop code start n)[start]? = some ⟨.loopStart code.size, j.offset⟩ :=
  getElem?_push_of_some (by rw [Array.getElem?_modify, if_pos rfl, h]; rfl) _

theorem getElem?_closeLoop_of_ne (hne : k ≠ start) (h : code[k]? = some i) :
    (closeLoop code start n)[k]? = some i :=
  getElem?_push_of_some (by rw [Array.getElem?_modify, if_neg hne.symm, h]) _

theorem cases_closeLoop (hs : code[start]? = some j)
    (h : (closeLoop code start n)[k]? = some i) :
    (k = code.size ∧ i = ⟨.loopEnd start, n⟩)
      ∨ (k = start ∧ i = ⟨.loopStart code.size, j.offset⟩) ∨ (k ≠ start ∧ code[k]? = some i) := by
  by_cases hk : k = start
  · rw [hk, getElem?_closeLoop_start hs] at h
    exact .inr (.inl ⟨hk, (Option.some.inj h).symm⟩)
  · rcases eq_or_of_getElem?_push h with ⟨hsize, he⟩ | h
    · exact .inl ⟨by simpa using hsize, he⟩
    · rw [Array.getElem?_modify, if_neg (Ne.symm hk)] at h
      exact .inr (.inr ⟨hk, h⟩)

end CloseLoop

theorem code_of_feed_act {d d' : Draft} {a : Action} {n : Nat}
    (hf : d.feed ⟨.act a, n⟩ = .ok d') :
    d'.code = d.code.push ⟨.act a, n⟩ ∧ d'.opened = d.opened := by
  cases hf
  unfold tally emit
  repeat' split
  all_goals exact ⟨rfl, rfl⟩

namespace Sound

variable {h : Nat → Int} {n : Nat} {d : Draft}

theorem empty (h0 : h 0 = 0) : Sound h 0 {} where
  stack := ⟨h0, fun k hk => by
    obtain rfl := Nat.le_zero.1 hk
    exact Int.le_of_eq h0.symm⟩
  opened := by simp
  starts := by simp
  ends := by simp
  before := by simp

/-- Bytes that end at the depth where they begin, and do not go below it, are passed. -/
theorem pass (hd : Sound h n d) {m : Nat} (hnm : n ≤ m) (hm : h m = h n)
    (hge : ∀ k, n ≤ k → k ≤ m → h n ≤ h k) : Sound h m d where
  stack := hd.stack.stay hnm hm hge
  opened := hd.opened
  starts := hd.starts
  ends := hd.ends
  before k i hk := Nat.lt_of_lt_of_le (hd.before k i hk) hnm

/-- One more instruction, at the byte that was reached. -/
theorem record (hd : Sound h n d) {d' : Draft} {op : Opcode} {m : Nat} (hnm : n < m)
    (hcode : d'.code = d.code.push ⟨op, n⟩) (hend : ∀ t, op ≠ .loopEnd t)
    (hopened : (d'.opened = d.opened ∧ ∀ t, op ≠ .loopStart t)
      ∨ d'.opened = (d.code.size, n) :: d.opened ∧ op = .loopStart Opcode.unresolved)
    (hstack : Unclosed h m (d'.opened.map Prod.snd)) : Sound h m d' := by
  have hkeep : ∀ {k : Nat} {i : Instruction}, d.code[k]? = some i → d'.code[k]? = some i := by
    intro k i hk
    rw [hcode]
    exact getElem?_push_of_some hk _
  have hnew : d'.code[d.code.size]? = some ⟨op, n⟩ := by rw [hcode, Array.getElem?_push_size]
  have hcases : ∀ {k : Nat} {i : Instruction}, d'.code[k]? = some i →
      (k = d.code.size ∧ i = ⟨op, n⟩) ∨ d.code[k]? = some i := by
    intro k i hk
    rw [hcode] at hk
    exact eq_or_of_getElem?_push hk
  refine ⟨hstack, fun k o hk => ?_, fun k t o hk => ?_, fun k t o' hk => ?_, fun k i hk => ?_⟩
  · rcases hopened with ⟨ho, -⟩ | ⟨ho, rfl⟩ <;> rw [ho] at hk
    · exact hkeep (hd.opened k o hk)
    · rcases List.mem_cons.1 hk with he | hk
      · cases he
        exact hnew
      · exact hkeep (hd.opened k o hk)
  · rcases hcases hk with ⟨rfl, he⟩ | hk
    · cases he
      rcases hopened with ⟨-, hne⟩ | ⟨ho, -⟩
      · exact absurd rfl (hne t)
      · rw [ho]
        exact .inl List.mem_cons_self
    · rcases hd.starts k t o hk with hm | ⟨o', hend', hp⟩
      · refine .inl ?_
        rcases hopened with ⟨ho, -⟩ | ⟨ho, -⟩ <;> rw [ho]
        · exact hm
        · exact List.mem_cons_of_mem _ hm
      · exact .inr ⟨o', hkeep hend', hp⟩
  · rcases hcases hk with ⟨-, he⟩ | hk
    · cases he
      exact absurd rfl (hend t)
    · obtain ⟨o, hs, hp⟩ := hd.ends k t o' hk
      exact ⟨o, hkeep hs, hp⟩
  · rcases hcases hk with ⟨-, rfl⟩ | hk
    · exact hnm
    · have := hd.before k i hk
      omega

theorem feed_act (hd : Sound h n d) {a : Action} {d' : Draft}
    (hf : d.feed ⟨.act a, n⟩ = .ok d') {m : Nat} (hnm : n < m) (hm : h m = h n)
    (hge : ∀ k, n ≤ k → k ≤ m → h n ≤ h k) : Sound h m d' := by
  obtain ⟨hcode, hopened⟩ := code_of_feed_act hf
  refine hd.record hnm hcode (by simp) (.inl ⟨hopened, by simp⟩) ?_
  rw [hopened]
  exact hd.stack.stay (Nat.le_of_lt hnm) hm hge

theorem feed_loopOpen (hd : Sound h n d) {d' : Draft} (hf : d.feed ⟨.loopOpen, n⟩ = .ok d')
    (ho : h (n + 1) = h n + 1) : Sound h (n + 1) d' := by
  cases hf
  exact hd.record (Nat.lt_succ_self n) rfl (by simp) (.inr ⟨rfl, rfl⟩) (hd.stack.push ho)

/-- The loop that is closed holds two partners, and no other one is touched. -/
theorem feed_loopClose (hd : Sound h n d) {d' : Draft} (hf : d.feed ⟨.loopClose, n⟩ = .ok d')
    (hc : h (n + 1) = h n - 1) : Sound h (n + 1) d' := by
  unfold feed at hf
  rcases hopened : d.opened with _ | ⟨⟨start, o⟩, outer⟩ <;> rw [hopened] at hf <;> cases hf
  have hstack := hd.stack
  simp only [hopened, List.map_cons] at hstack
  obtain ⟨-, -, -, habove, hou⟩ := id hstack
  obtain ⟨hp, hstack'⟩ := hstack.pop hc
  have hstart := hd.opened start o (by rw [hopened]; exact List.mem_cons_self)
  have hpatched := getElem?_closeLoop_start (n := n) hstart
  refine ⟨hstack', fun k o' hk => ?_, fun k t o' hk => ?_, fun k t o' hk => ?_, fun k i hk => ?_⟩
  · have hk' := hd.opened k o' (by rw [hopened]; exact List.mem_cons_of_mem _ hk)
    refine getElem?_closeLoop_of_ne ?_ hk'
    rintro rfl
    have hlt := hou.lt_of_mem o' (List.mem_map_of_mem hk)
    rw [hstart] at hk'
    cases hk'
    exact Nat.lt_irrefl _ hlt
  · rcases cases_closeLoop hstart hk with ⟨-, he⟩ | ⟨rfl, he⟩ | ⟨hne, hk⟩
    · cases he
    · cases he
      exact .inr ⟨n, getElem?_closeLoop_size, hp⟩
    · rcases hd.starts k t o' hk with hm | ⟨o'', hend, hp'⟩
      · rw [hopened] at hm
        rcases List.mem_cons.1 hm with he | hm
        · cases he
          exact absurd rfl hne
        · exact .inl hm
      · refine .inr ⟨o'', getElem?_closeLoop_of_ne ?_ hend, hp'⟩
        rintro rfl
        rw [hstart] at hend
        cases hend
  · rcases cases_closeLoop hstart hk with ⟨rfl, he⟩ | ⟨-, he⟩ | ⟨hne, hk⟩
    · cases he
      exact ⟨o, hpatched, hp⟩
    · cases he
    · obtain ⟨o'', hs, hp'⟩ := hd.ends k t o' hk
      have hlt : o' < n := hd.before k _ hk
      refine ⟨o'', getElem?_closeLoop_of_ne ?_ hs, hp'⟩
      -- a loop that was closed before is not open any more
      rintro rfl
      rw [hstart] at hs
      cases hs
      have := habove (o' + 1) (by have := hp'.lt; omega) hlt
      rw [hp'.closes] at this
      omega
  · rcases cases_closeLoop hstart hk with ⟨-, rfl⟩ | ⟨-, rfl⟩ | ⟨-, hk⟩
    · exact Nat.lt_succ_self n
    · have := hd.before start _ hstart
      exact Nat.lt_succ_of_lt this
    · exact Nat.lt_succ_of_lt (hd.before k i hk)

end Sound

theorem map_placed_closeLoop {code : Array Instruction} {start o : Nat}
    (hs : code[start]? = some ⟨.loopStart Opcode.unresolved, o⟩) (n : Nat) :
    (closeLoop code start n).toList.map Instruction.placed
      = code.toList.map Instruction.placed ++ [⟨.loopClose, n⟩] := by
  have hmod : (code.modify start fun i => { i with opcode := .loopStart code.size }).toList.map
      Instruction.placed = code.toList.map Instruction.placed := by
    refine List.ext_getElem? fun k => ?_
    rw [List.getElem?_map, Array.getElem?_toList, Array.getElem?_modify, List.getElem?_map,
      Array.getElem?_toList]
    split
    · rename_i hk
      rw [← hk, hs]
      rfl
    · rfl
  rw [closeLoop, Array.toList_push, List.map_append, hmod]
  rfl

theorem Sound.map_placed_feed {h : Nat → Int} {n : Nat} {d d' : Draft} (hd : Sound h n d)
    {p : Placed} (hf : d.feed p = .ok d') :
    d'.code.toList.map Instruction.placed = d.code.toList.map Instruction.placed ++ [p] := by
  obtain ⟨l, o⟩ := p
  cases l with
  | act a =>
    rw [(code_of_feed_act hf).1]
    simp [Instruction.placed, Opcode.lexeme]
  | loopOpen =>
    cases hf
    simp [Instruction.placed, Opcode.lexeme]
  | loopClose =>
    unfold feed at hf
    rcases hopened : d.opened with _ | ⟨⟨start, o'⟩, outer⟩ <;> rw [hopened] at hf <;> cases hf
    exact map_placed_closeLoop (hd.opened start o' (by rw [hopened]; exact List.mem_cons_self)) o

end Draft

/-- The text of an action ends at the depth where it begins, and does not go below it. -/
theorem Action.depth_text (a : Action) :
    depth a.text a.text.length = 0 ∧ ∀ k, 0 ≤ depth a.text k := by
  have hflat : (∀ b ∈ a.text, rise b = 0) →
      depth a.text a.text.length = 0 ∧ ∀ k, 0 ≤ depth a.text k := by
    intro h
    exact ⟨depth_of_rise_eq_zero h _, fun k => Int.le_of_eq (depth_of_rise_eq_zero h k).symm⟩
  cases a with
  | clear =>
    refine ⟨by decide, fun k => ?_⟩
    rcases Nat.lt_or_ge k 3 with hk | hk
    · match k, hk with
      | 0, _ | 1, _ | 2, _ => decide
    · rw [depth_of_length_le hk]
      decide
  | add n | sub n | right n | left n =>
    refine hflat fun b hb => ?_
    rw [List.eq_of_mem_replicate hb]
    decide
  | output | input =>
    refine hflat fun b hb => ?_
    rw [List.mem_singleton.1 hb]
    decide

theorem depth_of_begins {whole rest : List UInt8} {b : UInt8} {a : Action} {more offset : Nat}
    (h : Lexeme.Begins rest b (.act a) more) (hw : whole.drop offset = b :: rest) :
    depth whole (offset + (more + 1)) = depth whole offset
      ∧ ∀ k, offset ≤ k → k ≤ offset + (more + 1) → depth whole offset ≤ depth whole k := by
  have hlen : a.text.length = more + 1 := h.length_text
  have hd : ∀ j ≤ more + 1, depth whole (offset + j) = depth whole offset + depth a.text j := by
    intro j hj
    rw [depth_add, hw, ← h.text_append]
    congr 1
    exact depth_append_left (by rwa [← h.length_text] at hj) _
  obtain ⟨h0, hnn⟩ := a.depth_text
  refine ⟨?_, fun k hk hk' => ?_⟩
  · rw [hd _ (Nat.le_refl _), ← hlen, h0]
    omega
  · obtain ⟨j, rfl⟩ : ∃ j, k = offset + j := ⟨k - offset, by omega⟩
    rw [hd j (by omega)]
    have := hnn j
    omega

namespace Draft

theorem Sound.feedAll_list {whole : List UInt8} (bytes : List UInt8) (offset : Nat)
    (hw : whole.drop offset = bytes) (hle : offset ≤ whole.length) {d d' : Draft}
    (hd : Sound (depth whole) offset d) (hf : d.feedAll (Lexeme.list bytes offset) = .ok d') :
    Sound (depth whole) whole.length d' ∧ d'.code.toList.map Instruction.placed
      = d.code.toList.map Instruction.placed ++ Lexeme.list bytes offset := by
  fun_induction Lexeme.list bytes offset generalizing d with
  | case1 offset =>
    obtain rfl := Nat.le_antisymm hle (List.drop_eq_nil_iff.1 hw)
    cases hf
    exact ⟨hd, by simp⟩
  | case2 b rest offset h ih =>
    obtain ⟨hb, ht⟩ := drop_eq_cons hw
    have hr := depth_succ hb
    rw [show rise b = 0 by simp [rise, Lexeme.ofByte?_of_first? h]] at hr
    refine ih ht (List.getElem?_eq_some_iff.1 hb).1 (hd.pass (Nat.le_succ _) (by omega) ?_) hf
    intro k hk hk'
    rcases Nat.eq_or_lt_of_le hk' with rfl | hlt
    · omega
    · obtain rfl := Nat.le_antisymm (Nat.le_of_lt_succ hlt) hk
      exact Int.le_refl _
  | case3 b rest offset l more h ih =>
    have hb := Lexeme.begins_of_first? h
    obtain ⟨hb0, ht⟩ := drop_eq_cons hw
    have hr := depth_succ hb0
    rw [feedAll] at hf
    split at hf
    · rename_i d1 hf1
      have hsound : Sound (depth whole) (offset + (more + 1)) d1 := by
        cases l with
        | act a =>
          obtain ⟨hm, hge⟩ := depth_of_begins hb hw
          exact hd.feed_act hf1 (by omega) hm hge
        | loopOpen =>
          cases hb
          exact hd.feed_loopOpen hf1 hr
        | loopClose =>
          cases hb
          exact hd.feed_loopClose hf1 hr
      have hlen := congrArg List.length hw
      have hlen' := congrArg List.length hb.text_append
      have hlen'' := hb.length_text
      simp only [List.length_drop, List.length_cons, List.length_append] at hlen hlen'
      obtain ⟨hs, hp⟩ := ih (Lexeme.drop_of_begins hw) (by omega) hsound hf
      refine ⟨hs, ?_⟩
      rw [hp, hd.map_placed_feed hf1, List.append_assoc]
      rfl
    · cases hf

end Draft

/-- What a lowered program records of its source. -/
structure Program.Renders (p : Program) (s : Source) : Prop where
  placed : p.code.toList.map Instruction.placed = s.lexemes
  starts : ∀ k t o : Nat, p.code[k]? = some ⟨.loopStart t, o⟩ →
    ∃ o', p.code[t]? = some ⟨.loopEnd k, o'⟩ ∧ Partners (depth s.bytes.toList) o o'
  ends : ∀ k t o' : Nat, p.code[k]? = some ⟨.loopEnd t, o'⟩ →
    ∃ o, p.code[t]? = some ⟨.loopStart k, o⟩ ∧ Partners (depth s.bytes.toList) o o'

theorem Source.renders_of_lowerBytes {s : Source} {p : Program} {stats : LoweringStats}
    (h : s.lowerBytes = .ok (p, stats)) : p.Renders s := by
  unfold lowerBytes at h
  split at h
  · rename_i d hd
    rw [lexemes_eq] at hd
    obtain ⟨hs, hp⟩ := (Draft.Sound.empty (depth_zero s.bytes.toList)).feedAll_list
      s.bytes.toList 0 rfl (Nat.zero_le _) hd
    unfold Draft.finish at h
    split at h
    · cases h
    · rename_i ho
      cases h
      refine ⟨by rw [lexemes_eq]; simpa using hp, fun k t o hk => ?_, hs.ends⟩
      rcases hs.starts k t o hk with hm | hend
      · rw [ho] at hm
        cases hm
      · exact hend
  · cases h

theorem Source.renders_of_lower {s : Source} {p : Program} {stats : LoweringStats}
    (h : s.lower = .ok (p, stats)) : p.Renders s := by
  unfold lower at h
  rcases hl : s.lowerBytes with e | ⟨q, stats'⟩ <;> rw [hl] at h <;> cases h
  exact renders_of_lowerBytes hl

end TapeMachine
