import Mathlib.Order.Monotone.Basic
import TapeMachine.Proofs.Verdict

/-!
# Bare sources

A source without its comments. A symbol stands there at the offset that is the number of symbols
before it (`Source.rank`), so the nesting depth at an offset is the one at its rank, partners stay
partners (`Source.partners_bare`), and the bracket check blames the same bracket
(`Source.unmatched_bare`).
-/

namespace TapeMachine

open Nesting

/-- The bracket at another offset. -/
def Unmatched.map (f : Nat → Nat) : Unmatched → Unmatched
  | opening offset => opening (f offset)
  | closing offset => closing (f offset)

def Unmatched.offset : Unmatched → Nat
  | opening offset | closing offset => offset

def isSymbol (b : UInt8) : Bool := (Symbol.ofByte? b).isSome

@[simp]
theorem isSymbol_byte (c : Symbol) : isSymbol c.byte = true := by
  rw [isSymbol, Symbol.ofByte?_byte]
  rfl

theorem isSymbol_of_ofByte? {b : UInt8} {c : Symbol} (h : Symbol.ofByte? b = some c) :
    isSymbol b = true := by
  rw [Symbol.ofByte?_eq_some_iff.1 h, isSymbol_byte]

namespace Source

def bare (s : Source) : Source := ⟨s.bytes.filter isSymbol⟩

/-- How many symbols there are before an offset. -/
def rank (s : Source) (n : Nat) : Nat :=
  (s.bytes.toList.take n).countP isSymbol

variable {s : Source} {n : Nat} {b : UInt8}

theorem toList_bare (s : Source) (n : Nat) : s.bare.bytes.toList
    = ((s.bytes.toList.take n).filter isSymbol)
      ++ (s.bytes.toList.drop n).filter isSymbol := by
  rw [← List.filter_append, List.take_append_drop, bare, Array.toList_filter]

theorem length_filter_take (s : Source) (n : Nat) :
    ((s.bytes.toList.take n).filter isSymbol).length = s.rank n :=
  List.countP_eq_length_filter.symm

theorem take_bare (s : Source) (n : Nat) : s.bare.bytes.toList.take (s.rank n)
    = (s.bytes.toList.take n).filter isSymbol := by
  rw [toList_bare s n, List.take_left' (length_filter_take s n)]

theorem drop_bare (s : Source) (n : Nat) : s.bare.bytes.toList.drop (s.rank n)
    = (s.bytes.toList.drop n).filter isSymbol := by
  rw [toList_bare s n, List.drop_left' (length_filter_take s n)]

theorem rank_zero (s : Source) : s.rank 0 = 0 := rfl

theorem rank_succ (hb : s.bytes[n]? = some b) :
    s.rank (n + 1) = s.rank n + if isSymbol b then 1 else 0 := by
  rw [← Array.getElem?_toList] at hb
  simp [rank, List.take_add_one, hb, List.countP_cons]

theorem rank_succ_of_symbol (hb : s.bytes[n]? = some b) (hsym : isSymbol b) :
    s.rank (n + 1) = s.rank n + 1 := by
  rw [rank_succ hb, if_pos hsym]

theorem rank_succ_of_comment (hb : s.bytes[n]? = some b) (hsym : ¬ isSymbol b) :
    s.rank (n + 1) = s.rank n := by
  rw [rank_succ hb, if_neg hsym, Nat.add_zero]

theorem rank_of_size_le (h : s.size ≤ n) : s.rank n = s.bare.size := by
  have hlen : s.bytes.toList.length ≤ n := by simpa [size] using h
  have hall := toList_bare s n
  rw [List.drop_eq_nil_of_le hlen, List.filter_nil, List.append_nil] at hall
  rw [← length_filter_take, ← hall]
  simp [size]

theorem size_bare_le (s : Source) : s.bare.size ≤ s.size := Array.size_filter_le

theorem rank_le_succ (s : Source) (n : Nat) : s.rank n ≤ s.rank (n + 1) := by
  rcases hb : s.bytes[n]? with _ | b
  · have hn : s.size ≤ n := Array.getElem?_eq_none_iff.1 hb
    rw [rank_of_size_le hn, rank_of_size_le (Nat.le_succ_of_le hn)]
  · rw [rank_succ hb]
    exact Nat.le_add_right ..

theorem rank_succ_le (s : Source) (n : Nat) : s.rank (n + 1) ≤ s.rank n + 1 := by
  rcases hb : s.bytes[n]? with _ | b
  · have hn : s.size ≤ n := Array.getElem?_eq_none_iff.1 hb
    rw [rank_of_size_le hn, rank_of_size_le (Nat.le_succ_of_le hn)]
    exact Nat.le_succ _
  · rw [rank_succ hb]
    split <;> omega

theorem rank_mono (s : Source) : Monotone s.rank := monotone_nat_of_le_succ s.rank_le_succ

/-- The rank leaves out no place between two others. -/
theorem exists_rank_eq {i j k : Nat} (hij : i ≤ j) (hi : s.rank i ≤ k) (hj : k ≤ s.rank j) :
    ∃ n, i ≤ n ∧ n ≤ j ∧ s.rank n = k := by
  induction j, hij using Nat.le_induction with
  | base => exact ⟨i, le_rfl, le_rfl, le_antisymm hi hj⟩
  | succ j hij ih =>
    by_cases hk : k ≤ s.rank j
    · obtain ⟨n, hin, hnj, hn⟩ := ih hk
      exact ⟨n, hin, Nat.le_succ_of_le hnj, hn⟩
    · have hstep := s.rank_succ_le j
      exact ⟨j + 1, Nat.le_succ_of_le hij, le_rfl, by omega⟩

theorem getElem?_bare (hb : s.bytes[n]? = some b) (hsym : isSymbol b) :
    s.bare.bytes[s.rank n]? = some b := by
  rw [← Array.getElem?_toList] at hb ⊢
  obtain ⟨hn, hb⟩ := List.getElem?_eq_some_iff.1 hb
  have hdrop := drop_bare s n
  rw [List.drop_eq_getElem_cons hn, hb, List.filter_cons_of_pos hsym] at hdrop
  exact (drop_eq_cons hdrop).1

/-! ## Brackets -/

theorem depth_bare (s : Source) (n : Nat) :
    depth s.bare.bytes.toList (s.rank n) = depth s.bytes.toList n := by
  simp only [depth, opens, closes, take_bare]
  rw [List.count_filter (isSymbol_byte _), List.count_filter (isSymbol_byte _)]

theorem partners_bare {i j : Nat} (h : Partners (depth s.bytes.toList) i j) :
    Partners (depth s.bare.bytes.toList) (s.rank i) (s.rank j) := by
  have hopen := getElem?_of_depth_lt (n := i) (by rw [h.opens]; omega)
  have hclose := getElem?_of_lt_depth (n := j) (by rw [h.closes]; exact h.above j h.lt le_rfl)
  rw [Array.getElem?_toList] at hopen hclose
  have hi := rank_succ_of_symbol hopen (isSymbol_byte _)
  refine ⟨?_, ?_, ?_, fun k hik hkj => ?_⟩
  · have hlt : s.rank (i + 1) ≤ s.rank j := s.rank_mono h.lt
    omega
  · rw [← hi, depth_bare, depth_bare, h.opens]
  · rw [← rank_succ_of_symbol hclose (isSymbol_byte _), depth_bare, depth_bare, h.closes]
  · obtain ⟨n, hin, hnj, rfl⟩ := exists_rank_eq (Nat.le_of_lt h.lt) (Nat.le_of_lt hik) hkj
    have hne : i ≠ n := by
      rintro rfl
      exact lt_irrefl _ hik
    rw [depth_bare, depth_bare]
    exact h.above n (by omega) hnj

theorem check_bare (rest : List UInt8) (n : Nat) (st : List Nat)
    (hrest : s.bytes.toList.drop n = rest) :
    Brackets.check (rest.filter isSymbol) (s.rank n) (st.map s.rank)
      = (Brackets.check rest n st).mapError (·.map s.rank) := by
  have hnext : ∀ {n : Nat} {b : UInt8} {tail : List UInt8}, s.bytes.toList.drop n = b :: tail →
      s.bytes[n]? = some b ∧ s.bytes.toList.drop (n + 1) = tail := by
    intro n b tail h
    rw [← Array.getElem?_toList]
    exact drop_eq_cons h
  fun_induction Brackets.check rest n st with
  | case1 n => rfl
  | case2 n start outer => rfl
  | case3 b rest n opened hb ih =>
    obtain ⟨hget, ht⟩ := hnext hrest
    have hsym := isSymbol_of_ofByte? hb
    rw [← ih ht, List.filter_cons_of_pos hsym, Brackets.check.eq_def,
      rank_succ_of_symbol hget hsym]
    simp only [hb, List.map_cons]
  | case4 b rest n hb =>
    rw [List.filter_cons_of_pos (isSymbol_of_ofByte? hb), Brackets.check.eq_def]
    simp only [hb]
    rfl
  | case5 b rest n hb start outer ih =>
    obtain ⟨hget, ht⟩ := hnext hrest
    have hsym := isSymbol_of_ofByte? hb
    rw [← ih ht, List.filter_cons_of_pos hsym, List.map_cons, Brackets.check,
      rank_succ_of_symbol hget hsym]
    simp only [hb]
  | case6 b rest n opened ho hc ih =>
    obtain ⟨hget, ht⟩ := hnext hrest
    rw [← ih ht]
    by_cases hsym : isSymbol b
    · rw [List.filter_cons_of_pos hsym, check_cons_other (rise_of_other ho hc),
        rank_succ_of_symbol hget hsym]
    · rw [List.filter_cons_of_neg hsym, rank_succ_of_comment hget hsym]

theorem unmatched_bare (s : Source) : s.bare.unmatched = s.unmatched.mapError (·.map s.rank) := by
  have h := check_bare s.bytes.toList 0 [] rfl
  rwa [← Array.toList_filter, rank_zero] at h

end Source

end TapeMachine
