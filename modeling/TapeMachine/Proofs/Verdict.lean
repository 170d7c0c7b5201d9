import TapeMachine.Proofs.Balance
import TapeMachine.Proofs.Lexemes

/-!
# The verdict on a source

Lowering gives the verdict of the bracket check (`map_lowerBytes`), though it reads lexemes and not
bytes: an action leaves the check with the loops that were open before it (`check_of_begins`). Both
accept exactly the balanced sources, and blame the same bracket of any other.
-/

namespace TapeMachine

open Nesting

theorem check_cons_other {b : UInt8} (hb : rise b = 0) (rest : List UInt8) (n : Nat)
    (st : List Nat) : Brackets.check (b :: rest) n st = Brackets.check rest (n + 1) st := by
  unfold rise at hb
  rw [Brackets.check.eq_def]
  split at hb <;> simp_all

theorem check_append {l : List UInt8} (hl : ∀ b ∈ l, rise b = 0) (rest : List UInt8) (n : Nat)
    (st : List Nat) : Brackets.check (l ++ rest) n st = Brackets.check rest (n + l.length) st := by
  induction l generalizing n with
  | nil => rfl
  | cons b l ih =>
    rw [List.cons_append, check_cons_other (hl b List.mem_cons_self),
      ih fun c hc => hl c (List.mem_cons_of_mem _ hc), List.length_cons]
    congr 1
    omega

theorem Symbol.rise_of_counted? {s : Symbol} {n : Nat} {a : Action} (h : s.counted? n = some a) :
    rise s.byte = 0 := by
  cases s <;> first | rfl | cases h

/-- An action leaves the check with the loops that were open before it. -/
theorem check_of_begins {b : UInt8} {rest : List UInt8} {a : Action} {more : Nat}
    (h : Lexeme.Begins rest b (.act a) more) (n : Nat) (st : List Nat) :
    Brackets.check (b :: rest) n st = Brackets.check (rest.drop more) (n + (more + 1)) st := by
  have hlen := h.length_text
  rw [← h.text_append]
  cases h with
  | @run s a h =>
    rw [check_append, hlen]
    intro c hc
    rw [Lexeme.text, (Symbol.text_of_counted? h).1] at hc
    rw [List.eq_of_mem_replicate hc, Symbol.rise_of_counted? h]
  | output | input => rfl
  | clear h => rfl

namespace Draft

/-- The verdict on a text when a draft of it has come to its end. -/
def verdict (d : Draft) : Except Unmatched Unit :=
  match d.opened with
  | [] => .ok ()
  | (_, offset) :: _ => .error (.opening offset)

theorem map_finish (d : Draft) (sourceSize : Nat) :
    (d.finish sourceSize).map (fun _ => ()) = d.verdict := by
  unfold finish verdict
  rcases d.opened with _ | ⟨⟨k, o⟩, outer⟩ <;> rfl

theorem bind_feedAll_list (bytes : List UInt8) (offset : Nat) (d : Draft) :
    (d.feedAll (Lexeme.list bytes offset)).bind verdict
      = Brackets.check bytes offset (d.opened.map Prod.snd) := by
  fun_induction Lexeme.list bytes offset generalizing d with
  | case1 offset =>
    show d.verdict = _
    unfold verdict
    rcases d.opened with _ | ⟨⟨k, o⟩, outer⟩ <;> rfl
  | case2 b rest offset h ih =>
    have hb := Lexeme.ofByte?_of_first? h
    rw [ih, check_cons_other (by simp [rise, hb])]
  | case3 b rest offset l more h ih =>
    have hb := Lexeme.begins_of_first? h
    rw [feedAll]
    cases l with
    | act a =>
      rw [check_of_begins hb]
      have hd : ((d.tally a).emit (.act a) offset).opened = d.opened := by
        unfold tally emit
        repeat' split
        all_goals rfl
      exact (ih _).trans (by rw [hd])
    | loopOpen =>
      cases hb
      exact ih _
    | loopClose =>
      cases hb
      unfold feed
      rcases ho : d.opened with _ | ⟨⟨k, o⟩, outer⟩
      · rfl
      · exact ih _

end Draft

theorem map_lowerBytes (s : Source) : s.lowerBytes.map (fun _ => ()) = s.unmatched := by
  have h := Draft.bind_feedAll_list s.bytes.toList 0 {}
  rw [← Source.lexemes_eq] at h
  unfold Source.lowerBytes
  rcases hd : Draft.feedAll {} s.lexemes with e | d
  · rw [hd] at h
    exact h
  · rw [hd] at h
    exact (d.map_finish s.size).trans h

theorem map_lower (s : Source) : s.lower.map (fun _ => ()) = s.checkBalance := by
  have hm := map_lowerBytes s
  unfold Source.lower Source.checkBalance
  rw [← hm]
  cases s.lowerBytes <;> rfl

/-- Bytes that are no brackets are of no account to the check. -/
theorem check_congr : ∀ {l l' : List UInt8}, l.map rise = l'.map rise → ∀ (n : Nat)
    (st : List Nat), Brackets.check l n st = Brackets.check l' n st
  | [], [], _, _, _ => rfl
  | b :: l, b' :: l', h, n, st => by
    obtain ⟨hb, hl⟩ := List.cons.inj h
    have ih := check_congr hl
    unfold rise at hb
    rw [Brackets.check.eq_def, Brackets.check.eq_def]
    rcases st with _ | ⟨start, outer⟩ <;> split at hb <;> split at hb <;> simp_all

/-- Lowering and the bracket check accept exactly the balanced sources. Of any other they blame the
same bracket: the first that closes more than was opened, or else the last that opens a loop without
end. What other bytes there are is of no account. -/
theorem lower_and_checkBalance_agree (s : Source) :
    (s.checkBalance = .ok () ↔ Balanced s.bytes.toList)
      ∧ ((∃ r, s.lower = .ok r) ↔ Balanced s.bytes.toList)
      ∧ s.lower.map (fun _ => ()) = s.checkBalance
      ∧ (Balanced s.bytes.toList
        ∨ (∃ i, FirstExcess s.bytes.toList i
          ∧ s.checkBalance = .error (.unmatchedClose (s.locate i))
          ∧ s.lower = .error (.unmatchedClose (s.locate i)))
        ∨ ((∀ n ≤ s.size, closes s.bytes.toList n ≤ opens s.bytes.toList n)
          ∧ ∃ i, LastUnclosed s.bytes.toList i
            ∧ s.checkBalance = .error (.unmatchedOpen (s.locate i))
            ∧ s.lower = .error (.unmatchedOpen (s.locate i))))
      ∧ ∀ t : Source, t.bytes.toList.map rise = s.bytes.toList.map rise →
        t.lowerBytes.map (fun _ => ()) = s.lowerBytes.map fun _ => () := by
  have hj := justified_unmatched s
  have hm := map_lowerBytes s
  have hcongr : ∀ t : Source, t.bytes.toList.map rise = s.bytes.toList.map rise →
      t.lowerBytes.map (fun _ => ()) = s.lowerBytes.map fun _ => () := by
    intro t ht
    rw [map_lowerBytes, map_lowerBytes]
    exact check_congr ht 0 []
  unfold Source.checkBalance Source.lower
  rcases hu : s.unmatched with (i | i) | ⟨⟩ <;> rw [hu] at hj hm <;>
    rcases hl : s.lowerBytes with e | r <;> rw [hl] at hm hcongr <;> cases hm
  · have hnb : ¬ Balanced s.bytes.toList := fun hb => hb.not_lastUnclosed i hj.1
    exact ⟨by simpa [Except.mapError] using hnb, by simpa [Except.mapError] using hnb, rfl,
      .inr (.inr ⟨by simpa [Source.size] using hj.2, i, hj.1, rfl, rfl⟩), hcongr⟩
  · have hnb : ¬ Balanced s.bytes.toList := fun hb => hb.not_firstExcess i hj
    exact ⟨by simpa [Except.mapError] using hnb, by simpa [Except.mapError] using hnb, rfl,
      .inr (.inl ⟨i, hj, rfl, rfl⟩), hcongr⟩
  · have hb : Balanced s.bytes.toList := hj
    exact ⟨by simpa [Except.mapError] using hb, by simpa [Except.mapError] using hb, rfl,
      .inl hb, hcongr⟩

end TapeMachine
