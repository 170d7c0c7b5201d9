import Mathlib.Data.Nat.Find
import TapeMachine.Brackets

/-!
# Nesting depth

The depth at an offset is the number of opening brackets before it less the number of closing ones.
Two brackets are partners when the depth after the second is what it was before the first, and
higher everywhere in between (`Partners`). A stack that is pushed at opening brackets and popped at
closing ones holds the brackets without a partner so far (`Unclosed`), and what a closing bracket
pops is its partner (`Unclosed.pop`).
-/

namespace TapeMachine.Nesting

theorem drop_eq_cons {α : Type} {l : List α} {n : Nat} {a : α} {rest : List α}
    (h : l.drop n = a :: rest) : l[n]? = some a ∧ l.drop (n + 1) = rest := by
  refine ⟨?_, ?_⟩
  · have := congrArg (·[0]?) h
    simpa using this
  · rw [← List.drop_drop, h]
    rfl

/-- How many loops open in the first `n` bytes. -/
def opens (bytes : List UInt8) (n : Nat) : Nat := (bytes.take n).count Symbol.loopOpen.byte

/-- How many loops close in the first `n` bytes. -/
def closes (bytes : List UInt8) (n : Nat) : Nat := (bytes.take n).count Symbol.loopClose.byte

def depth (bytes : List UInt8) (n : Nat) : Int := opens bytes n - closes bytes n

/-- How far a byte takes the depth up. -/
def rise (b : UInt8) : Int :=
  match Symbol.ofByte? b with
  | some .loopOpen => 1
  | some .loopClose => -1
  | _ => 0

@[simp]
theorem depth_zero (bytes : List UInt8) : depth bytes 0 = 0 := by simp [depth, opens, closes]

theorem rise_eq (b : UInt8) :
    rise b = ([b].count Symbol.loopOpen.byte : Int) - [b].count Symbol.loopClose.byte := by
  have ho := @Symbol.ofByte?_eq_some_iff b .loopOpen
  have hc := @Symbol.ofByte?_eq_some_iff b .loopClose
  unfold rise
  split
  · rename_i h
    rw [ho.1 h]
    decide
  · rename_i h
    rw [hc.1 h]
    decide
  · rename_i h1 h2
    simp [mt ho.2 h1, mt hc.2 h2]

theorem depth_succ {bytes : List UInt8} {n : Nat} {b : UInt8} (h : bytes[n]? = some b) :
    depth bytes (n + 1) = depth bytes n + rise b := by
  have ht : bytes.take (n + 1) = bytes.take n ++ [b] := by rw [List.take_add_one, h]; rfl
  simp only [depth, opens, closes, ht, List.count_append, rise_eq]
  omega

theorem depth_of_length_le {bytes : List UInt8} {n : Nat} (h : bytes.length ≤ n) :
    depth bytes n = depth bytes bytes.length := by
  simp only [depth, opens, closes, List.take_of_length_le h, List.take_length]

theorem depth_sub_one_le (bytes : List UInt8) (n : Nat) :
    depth bytes n - 1 ≤ depth bytes (n + 1) := by
  rcases hb : bytes[n]? with _ | b
  · have hn := List.getElem?_eq_none_iff.1 hb
    rw [depth_of_length_le hn, depth_of_length_le (Nat.le_succ_of_le hn)]
    omega
  · rw [depth_succ hb]
    unfold rise
    split <;> omega

theorem depth_succ_le (bytes : List UInt8) (n : Nat) : depth bytes (n + 1) ≤ depth bytes n + 1 := by
  rcases hb : bytes[n]? with _ | b
  · have hn := List.getElem?_eq_none_iff.1 hb
    rw [depth_of_length_le hn, depth_of_length_le (Nat.le_succ_of_le hn)]
    omega
  · rw [depth_succ hb]
    unfold rise
    split <;> omega

theorem depth_of_rise_eq_zero {bytes : List UInt8} (h : ∀ b ∈ bytes, rise b = 0) :
    ∀ n, depth bytes n = 0
  | 0 => depth_zero bytes
  | n + 1 => by
    have ih := depth_of_rise_eq_zero h n
    rcases hb : bytes[n]? with _ | b
    · have hn := List.getElem?_eq_none_iff.1 hb
      rw [depth_of_length_le (Nat.le_succ_of_le hn), ← depth_of_length_le hn, ih]
    · rw [depth_succ hb, ih, h b (List.mem_of_getElem? hb)]
      rfl

theorem depth_add (bytes : List UInt8) (n k : Nat) :
    depth bytes (n + k) = depth bytes n + depth (bytes.drop n) k := by
  simp only [depth, opens, closes, List.take_add, List.count_append]
  omega

theorem opens_append_left {l : List UInt8} {k : Nat} (hk : k ≤ l.length) (rest : List UInt8) :
    opens (l ++ rest) k = opens l k := by
  rw [opens, opens, List.take_append_of_le_length hk]

theorem closes_append_left {l : List UInt8} {k : Nat} (hk : k ≤ l.length) (rest : List UInt8) :
    closes (l ++ rest) k = closes l k := by
  rw [closes, closes, List.take_append_of_le_length hk]

theorem depth_append_left {l : List UInt8} {k : Nat} (hk : k ≤ l.length) (rest : List UInt8) :
    depth (l ++ rest) k = depth l k := by
  rw [depth, depth, opens_append_left hk, closes_append_left hk]

/-- The brackets at `i` and `j` open and close one loop. -/
structure Partners (h : Nat → Int) (i j : Nat) : Prop where
  lt : i < j
  opens : h (i + 1) = h i + 1
  closes : h (j + 1) = h i
  above : ∀ k, i < k → k ≤ j → h i < h k

/-- Where the depth comes back to what it was before an opening bracket, that bracket has found its
partner. -/
theorem exists_partner {h : Nat → Int} (hfall : ∀ k, h k - 1 ≤ h (k + 1)) {i n : Nat}
    (ho : h (i + 1) = h i + 1) (hin : i < n) (hn : h n ≤ h i) : ∃ j < n, Partners h i j := by
  have hex : ∃ j, i < j ∧ h (j + 1) ≤ h i := by
    have hne : n ≠ i + 1 := by
      rintro rfl
      omega
    exact ⟨n - 1, by omega, by rwa [Nat.sub_add_cancel (by omega)]⟩
  have hij : i < Nat.find hex := (Nat.find_spec hex).1
  have hj : h (Nat.find hex + 1) ≤ h i := (Nat.find_spec hex).2
  have habove : ∀ k, i < k → k ≤ Nat.find hex → h i < h k := by
    intro k hik hkj
    rcases eq_or_ne k (i + 1) with rfl | hk
    · omega
    · have hmin := Nat.find_min hex (show k - 1 < Nat.find hex by omega)
      rw [Nat.sub_add_cancel (by omega)] at hmin
      by_contra hle
      exact hmin ⟨by omega, by omega⟩
  have hclose : h (Nat.find hex + 1) = h i := by
    have := habove _ hij le_rfl
    have := hfall (Nat.find hex)
    omega
  refine ⟨Nat.find hex, ?_, hij, ho, hclose, habove⟩
  by_contra hle
  have := habove n hin (by omega)
  omega

/-- Where the depth falls and does not fall below zero, the bracket that closes has a partner. -/
theorem exists_partner_of_fall {h : Nat → Int} (hrise : ∀ k, h (k + 1) ≤ h k + 1) (h0 : h 0 = 0)
    {n : Nat} (hc : h (n + 1) = h n - 1) (hn : 0 ≤ h (n + 1)) : ∃ i, Partners h i n := by
  -- the partner is the last place before `n` where the depth is lower than at `n`
  have hlow : h (Nat.findGreatest (fun i => h i < h n) n) < h n :=
    Nat.findGreatest_spec (P := fun i => h i < h n) (Nat.zero_le n) (by omega)
  have hle := Nat.findGreatest_le (P := fun i => h i < h n) n
  have habove : ∀ k, Nat.findGreatest (fun i => h i < h n) n < k → k ≤ n → h n ≤ h k :=
    fun k hk hkn => Int.not_lt.1 (Nat.findGreatest_is_greatest hk hkn)
  generalize Nat.findGreatest (fun i => h i < h n) n = i at *
  have hin : i < n := by
    rcases Nat.eq_or_lt_of_le hle with rfl | hlt
    · omega
    · exact hlt
  have hnext := habove (i + 1) (Nat.lt_succ_self i) hin
  have hstep := hrise i
  refine ⟨i, hin, by omega, by omega, fun k hik hkn => ?_⟩
  have := habove k hik hkn
  omega

/-- The openings before `n` that have no partner before `n`, the innermost first. -/
def Unclosed (h : Nat → Int) : Nat → List Nat → Prop
  | n, [] => h n = 0 ∧ ∀ k ≤ n, 0 ≤ h k
  | n, start :: outer =>
    start < n ∧ h (start + 1) = h start + 1 ∧ h n = h start + 1
      ∧ (∀ k, start < k → k ≤ n → h start < h k) ∧ Unclosed h start outer

theorem unclosed_zero (bytes : List UInt8) : Unclosed (depth bytes) 0 [] := by
  refine ⟨depth_zero bytes, fun k hk => ?_⟩
  have hzero : depth bytes k = 0 := by rw [Nat.le_zero.1 hk, depth_zero]
  exact Int.le_of_eq hzero.symm

namespace Unclosed

variable {h : Nat → Int} {n start : Nat} {outer : List Nat}

theorem nonneg : ∀ {st : List Nat} {n : Nat}, Unclosed h n st → ∀ k ≤ n, 0 ≤ h k
  | [], _, hu => hu.2
  | start :: _, n, hu => by
    obtain ⟨-, -, -, habove, hou⟩ := hu
    intro k hk
    have h0 := hou.nonneg start le_rfl
    rcases Nat.lt_or_ge start k with hlt | hge
    · have := habove k hlt hk
      omega
    · exact hou.nonneg k hge

/-- Bytes that end at the depth where they begin and do not go below it leave the stack as it
is. -/
theorem stay {m : Nat} (hnm : n ≤ m) (hm : h m = h n) (hge : ∀ k, n ≤ k → k ≤ m → h n ≤ h k) :
    ∀ {st : List Nat}, Unclosed h n st → Unclosed h m st
  | [], ⟨h0, hnn⟩ => by
    refine ⟨by omega, fun k hk => ?_⟩
    rcases Nat.le_total k n with hkn | hnk
    · exact hnn k hkn
    · have := hge k hnk hk
      omega
  | start :: outer, ⟨hlt, ho, hd, habove, hou⟩ => by
    refine ⟨by omega, ho, by omega, fun k hsk hk => ?_, hou⟩
    rcases Nat.le_total k n with hkn | hnk
    · exact habove k hsk hkn
    · have := hge k hnk hk
      omega

theorem push {st : List Nat} (hu : Unclosed h n st) (ho : h (n + 1) = h n + 1) :
    Unclosed h (n + 1) (n :: st) := by
  refine ⟨by omega, ho, ho, fun k hnk hk => ?_, hu⟩
  obtain rfl : k = n + 1 := by omega
  omega

theorem pop (hu : Unclosed h n (start :: outer)) (hc : h (n + 1) = h n - 1) :
    Partners h start n ∧ Unclosed h (n + 1) outer := by
  obtain ⟨hlt, ho, hd, habove, hou⟩ := hu
  refine ⟨⟨hlt, ho, by omega, habove⟩, hou.stay (by omega) (by omega) fun k hsk hk => ?_⟩
  rcases eq_or_ne k start with rfl | hks
  · exact Int.le_refl _
  rcases eq_or_ne k (n + 1) with rfl | hkn
  · omega
  · have := habove k (by omega) (by omega)
    omega

theorem lt_of_mem : ∀ {st : List Nat} {n : Nat}, Unclosed h n st → ∀ k ∈ st, k < n
  | start :: outer, n, ⟨hlt, _, _, _, hou⟩, k, hk => by
    rcases List.mem_cons.1 hk with rfl | hk
    · exact hlt
    · have := hou.lt_of_mem k hk
      omega

end Unclosed

end TapeMachine.Nesting
