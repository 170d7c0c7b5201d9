import Mathlib
import TapeMachine.Proofs.Confinement

/-!
# Edits of a tape

To count is to repeat. An edit that carries a count changes the tape as that many single edits do,
and where it is refused one of these is refused as well (`Tape.Repeats.edits_iff`); what it is
refused for is told from where it would have gone to as a whole. A refused edit changes nothing, so
that whatever is done to a tape, its length stays (`Tape.size_edits`) and the head is on it.
-/

namespace TapeMachine

namespace Tape

inductive Edit where
  | set (value : UInt8)
  | add (count : Nat)
  | sub (count : Nat)
  | right (count : Nat)
  | left (count : Nat)
deriving DecidableEq

variable {t u : Tape} {n : Nat} {f : Fault}

def tryEdit (t : Tape) : Edit → Except Fault Tape
  | .set value => .ok (t.set value)
  | .add count => .ok (t.add count)
  | .sub count => .ok (t.sub count)
  | .right count => t.right count
  | .left count => t.left count

/-- What there is to complain of in an edit, and the tape after it. A refused edit leaves the tape
as it was. -/
def edit (t : Tape) (e : Edit) : Option Fault × Tape :=
  match t.tryEdit e with
  | .ok u => (none, u)
  | .error f => (some f, t)

/-- Edits one after the other, each on what the one before left, whether that was refused or not. -/
def edits : Tape → List Edit → List (Option Fault) × Tape
  | t, [] => ([], t)
  | t, e :: rest => ((t.edit e).1 :: ((t.edit e).2.edits rest).1, ((t.edit e).2.edits rest).2)

theorem edit_of_ok {e : Edit} (h : t.tryEdit e = .ok u) : t.edit e = (none, u) := by
  simp only [edit, h]

theorem edit_of_error {e : Edit} (h : t.tryEdit e = .error f) : t.edit e = (some f, t) := by
  simp only [edit, h]

/-! ## Counts -/

/-- An edit with a count is the first of as many single edits and an edit with the count of the
others. -/
structure Repeats (counted : Nat → Edit) : Prop where
  zero : ∀ t : Tape, t.tryEdit (counted 0) = .ok t
  succ : ∀ (t u : Tape) (n : Nat), t.tryEdit (counted (n + 1)) = .ok u
    ↔ ∃ v, t.tryEdit (counted 1) = .ok v ∧ v.tryEdit (counted n) = .ok u

theorem edits_replicate_succ_iff {e : Edit} :
    t.edits (List.replicate (n + 1) e) = (List.replicate (n + 1) none, u)
      ↔ ∃ v, t.tryEdit e = .ok v ∧ v.edits (List.replicate n e) = (List.replicate n none, u) := by
  rw [List.replicate_succ, List.replicate_succ, edits]
  rcases h : t.tryEdit e with f | v
  · simp [edit_of_error h]
  · simp [edit_of_ok h, Prod.ext_iff]

/-- An edit with a count is done exactly where each of as many single edits is, and gives the same
tape. -/
theorem Repeats.edits_iff {counted : Nat → Edit} (h : Repeats counted) :
    t.tryEdit (counted n) = .ok u
      ↔ t.edits (List.replicate n (counted 1)) = (List.replicate n none, u) := by
  induction n generalizing t with
  | zero => simp [h.zero, edits]
  | succ n ih =>
    rw [h.succ, edits_replicate_succ_iff]
    simp only [ih]

theorem repeats_add : Repeats .add where
  zero t := by simp [tryEdit, add, set_current]
  succ t u n := by simp [tryEdit, add_add, Nat.add_comm 1]

theorem repeats_sub : Repeats .sub where
  zero t := by simp [tryEdit, sub, set_current]
  succ t u n := by simp [tryEdit, sub_sub, Nat.add_comm 1]

theorem SameMove.ok_iff {x y : Except Fault Tape} (h : SameMove x y) : x = .ok u ↔ y = .ok u := by
  rcases h with ⟨t, rfl, rfl⟩ | ⟨i, j, size, rfl, rfl⟩
  · rfl
  · simp

theorem bind_eq_ok_iff {x : Except Fault Tape} {k : Tape → Except Fault Tape} :
    x.bind k = .ok u ↔ ∃ v, x = .ok v ∧ k v = .ok u := by
  cases x <;> simp [Except.bind]

theorem repeats_right : Repeats .right where
  zero t := right_of_lt (n := 0) t.head_lt
  succ t u n := by
    rw [Nat.add_comm, ← bind_eq_ok_iff]
    exact (t.right_add 1 n).ok_iff.symm

theorem repeats_left : Repeats .left where
  zero t := left_of_le (Nat.zero_le t.head)
  succ t u n := by
    rw [Nat.add_comm, ← bind_eq_ok_iff]
    exact (t.left_add 1 n).ok_iff.symm

/-! ## Any edits -/

theorem kept_edit (t : Tape) (e : Edit) : t.Kept (t.edit e).2 := by
  rcases h : t.tryEdit e with f | u
  · rw [edit_of_error h]
    exact kept_of_cells rfl
  · rw [edit_of_ok h]
    cases e with
    | set value =>
      cases h
      exact t.kept_set value
    | add n =>
      cases h
      exact t.kept_set _
    | sub n =>
      cases h
      exact t.kept_set _
    | right n => exact kept_of_cells (right_ok h).1
    | left n => exact kept_of_cells (left_ok h).1

theorem size_edits (es : List Edit) (t : Tape) : (t.edits es).2.size = t.size := by
  induction es generalizing t with
  | nil => rfl
  | cons e es ih => exact (ih (t.edit e).2).trans (t.kept_edit e).size

theorem sub_add (t : Tape) (n : Nat) : (t.add n).sub n = t := by
  simp only [add, sub, current_set, set_set, UInt8.add_sub_cancel, set_current]

end Tape

open Tape

/-- To add or to subtract a number is to do so with one that many times, although only its last byte
is looked at, and the one undoes the other. A move over a number of cells is done exactly where as
many single moves are, and leads to the same place. Otherwise it changes nothing, and the fault
names where it would have led, kept within a signed word, which is to the side of the tape. Whatever
is done to a tape, refused or not, its length stays and the head is on it. -/
theorem edits_counted {t : Tape} (ht : t.size ≤ tapeMax) :
    (∀ n, t.edits (List.replicate n (.add 1)) = (List.replicate n none, t.add n)
        ∧ t.edits (List.replicate n (.sub 1)) = (List.replicate n none, t.sub n)
        ∧ (t.add n).sub n = t)
      ∧ (∀ n u, (t.right n = .ok u
          ↔ t.edits (List.replicate n (.right 1)) = (List.replicate n none, u))
        ∧ (t.left n = .ok u ↔ t.edits (List.replicate n (.left 1)) = (List.replicate n none, u)))
      ∧ (∀ n f, t.right n = .error f → t.edit (.right n) = (some f, t)
        ∧ f = .outOfTape (clampHead (t.head + n)) t.size ∧ t.size ≤ clampHead (t.head + n))
      ∧ (∀ n f, t.left n = .error f → t.edit (.left n) = (some f, t)
        ∧ f = .outOfTape (clampHead (t.head - n)) t.size ∧ clampHead (t.head - n) < 0)
      ∧ ∀ es, (t.edits es).2.size = t.size ∧ (t.edits es).2.head < t.size := by
  refine ⟨fun n => ⟨repeats_add.edits_iff.1 rfl, repeats_sub.edits_iff.1 rfl, t.sub_add n⟩,
    fun n u => ⟨repeats_right.edits_iff, repeats_left.edits_iff⟩, fun n f h => ?_, fun n f h => ?_,
    fun es => ?_⟩
  · obtain ⟨hn, hf⟩ := right_error h
    exact ⟨edit_of_error h, hf, size_le_clampHead ht hn⟩
  · obtain ⟨hn, hf⟩ := left_error h
    exact ⟨edit_of_error h, hf, clampHead_neg (by omega)⟩
  · have hsize := size_edits es t
    exact ⟨hsize, hsize ▸ (t.edits es).2.head_lt⟩

/-- A count above a byte, and moves by the largest word from the second of two cells. -/
theorem edits_counted_wide :
    (⟨#[5, 7], 1, by decide⟩ : Tape).size ≤ tapeMax
      ∧ (⟨#[5, 7], 1, by decide⟩ : Tape).edits (List.replicate 257 (.add 1))
        = (List.replicate 257 none, ⟨#[5, 8], 1, by decide⟩)
      ∧ (⟨#[5, 7], 1, by decide⟩ : Tape).edits (List.replicate 1 (.left 1))
        = (List.replicate 1 none, ⟨#[5, 7], 0, by decide⟩)
      ∧ (⟨#[5, 7], 1, by decide⟩ : Tape).edit (.right wordMax)
        = (some (.outOfTape (2 ^ 63 - 1) 2), ⟨#[5, 7], 1, by decide⟩)
      ∧ (⟨#[5, 7], 1, by decide⟩ : Tape).edit (.left wordMax)
        = (some (.outOfTape (-2 ^ 63) 2), ⟨#[5, 7], 1, by decide⟩)
      ∧ ((⟨#[5, 7], 1, by decide⟩ : Tape).edits [.right 1, .set 9, .left 2]).2.head < 2 := by
  have ht : (⟨#[5, 7], 1, by decide⟩ : Tape).size ≤ tapeMax := by decide
  obtain ⟨hcount, hmove, hright, hleft, hany⟩ := edits_counted ht
  exact ⟨ht, (hcount 257).1, (hmove 1 _).2.1 rfl, (hright wordMax _ rfl).1, (hleft wordMax _ rfl).1,
    (hany _).2⟩

end TapeMachine
