import TapeMachine.Proofs.Entries
import TapeMachine.Proofs.Positions

/-!
# What can complete an entry

The prompt asks for another line as long as more loops are opened than closed. That helps where no
bracket closes more than was opened so far: then the missing brackets complete the entry
(`Nesting.Balanced.of_append`). A bracket that closes too much stays to blame whatever follows
(`Nesting.FirstExcess.append`), so where one is made up for by loops that are opened later, the
prompt asks in vain, and its complaint about that bracket only comes with the line that makes up the
counts (`completable_iff`).
-/

namespace TapeMachine

namespace Nesting

variable {bytes rest : List UInt8} {i j : Nat}

theorem opens_append (bytes rest : List UInt8) (k : Nat) :
    opens (bytes ++ rest) (bytes.length + k) = opens bytes bytes.length + opens rest k := by
  simp only [opens, List.take_length_add_append, List.count_append, List.take_length]

theorem closes_append (bytes rest : List UInt8) (k : Nat) :
    closes (bytes ++ rest) (bytes.length + k) = closes bytes bytes.length + closes rest k := by
  simp only [closes, List.take_length_add_append, List.count_append, List.take_length]

theorem closes_le (bytes : List UInt8) (n : Nat) : closes bytes n ≤ closes bytes bytes.length := by
  rw [closes, closes, List.take_length]
  exact (List.take_sublist n bytes).count_le _

/-- What closes all that stays open completes a text, where nothing closes too much. -/
theorem Balanced.of_append (hle : ∀ n ≤ bytes.length, closes bytes n ≤ opens bytes n)
    (hopens : opens rest rest.length = 0)
    (hcloses : closes bytes bytes.length + closes rest rest.length = opens bytes bytes.length) :
    Balanced (bytes ++ rest) := by
  refine ⟨fun n _ => ?_, ?_⟩
  · rcases Nat.le_total n bytes.length with hn | hn
    · rw [opens_append_left hn, closes_append_left hn]
      exact hle n hn
    · obtain ⟨k, rfl⟩ := Nat.exists_eq_add_of_le hn
      have := closes_le rest k
      rw [opens_append, closes_append]
      omega
  · rw [List.length_append, opens_append, closes_append]
    omega

/-- The first bracket that closes too much is the first one whatever follows. -/
theorem FirstExcess.append (h : FirstExcess bytes i) (rest : List UInt8) :
    FirstExcess (bytes ++ rest) i := by
  obtain ⟨hi, hlt, hle⟩ := h
  refine ⟨?_, ?_, fun n hn => ?_⟩
  · rw [List.length_append]
    omega
  · rwa [opens_append_left hi, closes_append_left hi]
  · rw [opens_append_left (by omega), closes_append_left (by omega)]
    exact hle n hn

theorem FirstExcess.unique (hi : FirstExcess bytes i) (hj : FirstExcess bytes j) : i = j := by
  have hle : ∀ {i j : Nat}, FirstExcess bytes i → FirstExcess bytes j → i ≤ j := by
    intro i j hi hj
    by_contra hlt
    have := hi.2.2 (j + 1) (by omega)
    have := hj.2.1
    omega
  exact Nat.le_antisymm (hle hi hj) (hle hj hi)

/-- Where no bracket is the first to close too much, none closes too much. -/
theorem closes_le_opens_of_not_firstExcess (h : ∀ i, ¬ FirstExcess bytes i) :
    ∀ n ≤ bytes.length, closes bytes n ≤ opens bytes n := by
  have hj := justified_unmatched ⟨bytes.toArray⟩
  rcases hu : (⟨bytes.toArray⟩ : Source).unmatched with (i | i) | _ <;> rw [hu] at hj
  · exact hj.2
  · exact absurd hj (h i)
  · exact hj.1

end Nesting

open Nesting

namespace Source

variable {s : Source} {i : Nat}

theorem unmatched_of_firstExcess (h : FirstExcess s.bytes.toList i) :
    s.unmatched = .error (.closing i) := by
  have hj := justified_unmatched s
  rcases hu : s.unmatched with (j | j) | _ <;> rw [hu] at hj
  · have := hj.2 (i + 1) h.1
    have := h.2.1
    omega
  · rw [FirstExcess.unique hj h]
  · exact absurd h (hj.not_firstExcess i)

theorem toList_ofString_append (a b : String) : (ofString (a ++ b)).bytes.toList
    = (ofString a).bytes.toList ++ (ofString b).bytes.toList := by
  simp [ofString]

/-- A text of so many closing brackets. -/
theorem exists_closers : ∀ k : Nat, ∃ text : String,
    (ofString text).bytes.toList = List.replicate k Symbol.loopClose.byte
  | 0 => ⟨"", rfl⟩
  | k + 1 => by
    obtain ⟨text, h⟩ := exists_closers k
    refine ⟨"]" ++ text, ?_⟩
    rw [toList_ofString_append, h]
    rfl

variable {text : String}

theorem unmatched_append (h : FirstExcess (ofString text).bytes.toList i)
    (more : String) : (ofString (text ++ more)).unmatched = .error (.closing i)
      ∧ (ofString (text ++ more)).locate i = (ofString text).locate i := by
  constructor
  · apply unmatched_of_firstExcess
    rw [toList_ofString_append]
    exact h.append _
  · apply locate_congr
    rw [toList_ofString_append, List.take_append_of_le_length (Nat.le_of_lt h.1)]

theorem checkBalance_of_firstExcess (h : FirstExcess (ofString text).bytes.toList i)
    (more : String) : (ofString (text ++ "\n" ++ more)).checkBalance
      = .error (.unmatchedClose ((ofString text).locate i)) := by
  obtain ⟨hu, hlocate⟩ := unmatched_append h ("\n" ++ more)
  rw [String.append_assoc, checkBalance, hu, ← hlocate]
  rfl

/-- A text in which nothing closes too much is completed by a line that closes what it leaves
open. -/
theorem exists_completion (h : ∀ i, ¬ FirstExcess (ofString text).bytes.toList i) :
    ∃ more, (ofString (text ++ "\n" ++ more)).checkBalance = .ok () := by
  have hle := closes_le_opens_of_not_firstExcess h
  have hlast := hle _ le_rfl
  generalize hbytes : (ofString text).bytes.toList = bytes at hle hlast
  obtain ⟨k, hk⟩ := Nat.exists_eq_add_of_le hlast
  obtain ⟨more, hmore⟩ := exists_closers k
  have hline : (ofString "\n").bytes.toList = [10] := rfl
  have ho : (10 : UInt8) ≠ Symbol.loopOpen.byte := by decide
  have hc : (10 : UInt8) ≠ Symbol.loopClose.byte := by decide
  have hne : Symbol.loopClose.byte ≠ Symbol.loopOpen.byte := by decide
  refine ⟨more, checkBalance_of_balanced ?_⟩
  rw [toList_ofString_append, toList_ofString_append, hbytes, hmore, hline, List.append_assoc]
  refine .of_append hle ?_ (hk ▸ congrArg _ ?_)
  · simp [opens, List.count_replicate, ho, hne]
  · simp [closes, hc]

end Source

namespace Session

variable {text : String} {i : Nat}

theorem ne_empty_of_firstExcess (h : FirstExcess (Source.ofString text).bytes.toList i) :
    text ≠ "" := by
  rintro rfl
  exact Nat.not_lt_zero i h.1

theorem join_append {entry : String} (h : entry ≠ "") (more line : String) :
    join (entry ++ more) line = entry ++ (more ++ ("\n" ++ line)) := by
  rw [join, if_neg fun h' => h (String.append_eq_empty_iff.1 h').1]
  simp only [String.append_assoc]

/-- Behind lines that were gathered stands what was gathered since. -/
theorem Leads.exists_entry {m b : Moment} {lines : List String}
    (h : Leads m (lines.map .gathered) b) (hne : m.entry ≠ "") :
    ∃ more, b.entry = m.entry ++ more := by
  generalize hturns : lines.map Turn.gathered = turns at h
  induction h generalizing lines with
  | here => exact ⟨"", String.append_empty.symm⟩
  | @on b c turns turn _ hlast ih =>
    obtain ⟨before, last, rfl, hbefore, hlines⟩ := List.map_eq_append_iff.1 hturns
    obtain ⟨line, rfl, rfl⟩ := List.map_eq_singleton_iff.1 hlines
    obtain ⟨more, hentry⟩ := ih hbefore
    cases hlast with
    | gathered _ _ _ =>
      rw [hentry, join_append hne]
      exact ⟨_, rfl⟩

/-- An entry with a bracket that closes too much is rejected for that bracket, whenever it is
evaluated. -/
theorem Leads.result_of_firstExcess {m m' : Moment} {lines : List String} {line entry : String}
    {result : Except Failure Outcome}
    (h : Leads m (lines.map .gathered ++ [.evaluated line entry result]) m')
    (hi : FirstExcess (Source.ofString m.entry).bytes.toList i) :
    result = .error (.program (.unmatchedClose ((Source.ofString m.entry).locate i))) := by
  have hne := ne_empty_of_firstExcess hi
  obtain ⟨b, hgathered, hlast⟩ := h.last
  obtain ⟨more, hentry⟩ := hgathered.exists_entry hne
  cases hlast with
  | @evaluated _ c fuel e _ _ _ he =>
    rw [hentry, join_append hne] at he
    obtain ⟨hu, hlocate⟩ := Source.unmatched_append hi (more ++ ("\n" ++ line))
    obtain ⟨e', he', hr⟩ := evaluate_of_unmatched hu b.session fuel c.ends
    cases he.symm.trans he'
    rw [hr, Unmatched.fault, hlocate]

/-- A text can be completed exactly where no bracket closes more than was opened before. The prompt
asks for more of it as long as more loops are opened than closed. So it asks in vain where a bracket
closes too much and loops are opened after it: that bracket stays the one to blame, at the same
place, with whatever lines follow, and is complained of once the loops are closed in number. -/
theorem completable_iff (text : String) :
    ((∃ more, (Source.ofString (text ++ "\n" ++ more)).checkBalance = .ok ())
        ↔ ∀ i, ¬ FirstExcess (Source.ofString text).bytes.toList i)
      ∧ (isClosed text = false
        ↔ closes (Source.ofString text).bytes.toList (Source.ofString text).size
          < opens (Source.ofString text).bytes.toList (Source.ofString text).size)
      ∧ ∀ i, FirstExcess (Source.ofString text).bytes.toList i →
        (∀ more, (Source.ofString (text ++ "\n" ++ more)).checkBalance
          = .error (.unmatchedClose ((Source.ofString text).locate i)))
        ∧ ∀ (m m' : Moment) (lines : List String) (line entry : String)
          (result : Except Failure Outcome), m.entry = text →
          Leads m (lines.map .gathered ++ [.evaluated line entry result]) m' →
          result = .error (.program (.unmatchedClose ((Source.ofString text).locate i))) := by
  refine ⟨⟨?_, Source.exists_completion⟩, ?_,
    fun i hi => ⟨Source.checkBalance_of_firstExcess hi, ?_⟩⟩
  · rintro ⟨more, hok⟩ i hi
    cases hok.symm.trans (Source.checkBalance_of_firstExcess hi more)
  · rw [← Bool.not_eq_true, isClosed_iff, not_not]
    exact staysOpen_iff text
  · rintro m m' lines line entry result rfl h
    exact h.result_of_firstExcess hi

/-- The bracket at the beginning closes nothing, so nothing completes the text. It is taken to be
unfinished all the same, and in a dialogue in which it is the only line there is no complaint. -/
theorem asks_in_vain :
    isClosed "][[" = false
      ∧ (∀ more, (Source.ofString ("][[" ++ "\n" ++ more)).checkBalance
        = .error (.unmatchedClose ⟨1, 1, 0⟩))
      ∧ (repl 2 { config := .standard } ⟨[93, 91, 91, 10], #[], #[]⟩).map
          (fun d => (d.session, d.console.remarks))
        = some ({ config := .standard }, #[.note .noTerminal, .note .noTerminal]) := by
  have hfirst : FirstExcess (Source.ofString "][[").bytes.toList 0 := by
    refine ⟨by decide +kernel, by decide +kernel, fun n hn => ?_⟩
    rw [Nat.le_zero.1 hn]
    exact Nat.zero_le _
  exact ⟨by decide +kernel, Source.checkBalance_of_firstExcess hfirst, by decide +kernel⟩

end Session

end TapeMachine
