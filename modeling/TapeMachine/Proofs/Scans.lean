import TapeMachine.Proofs.Orders
import TapeMachine.Proofs.Pairing

/-!
# The scans for a partner

In a source that the bracket check accepts, the two scans find a partner for every bracket, and each
finds the bracket from which the other was begun (`scans_of_balanced`). Wherever a scan passes, its
counter says how much deeper it stands than the loop that it is about (`Partners.closeFrom_eq`,
`Partners.openBefore_eq`), which is at least one until the partner is reached; so it is never taken
below zero.
-/

namespace TapeMachine

open Brackets Machine

namespace Nesting

variable {h : Nat → Int} {c : Int} {i j k x : Nat}

/-- A fall is looked for from any place before it, as long as the depth keeps up on the way. -/
theorem FallsAt.congr (hik : i ≤ k) (hc : ∀ q, i ≤ q → q ≤ k → c ≤ h q) :
    FallsAt h c i x ↔ FallsAt h c k x := by
  induction k, hik using Nat.le_induction with
  | base => rfl
  | succ k hik ih =>
    rw [ih fun q hiq hqk => hc q hiq (Nat.le_succ_of_le hqk),
      ← FallsAt.succ_iff (hc k hik (Nat.le_succ k)) (hc (k + 1) (by omega) le_rfl)]

theorem RisesAt.congr (hkj : k ≤ j) (hc : ∀ q, k ≤ q → q ≤ j → c ≤ h q) :
    RisesAt h c k x ↔ RisesAt h c j x := by
  induction j, hkj using Nat.le_induction with
  | base => rfl
  | succ j hkj ih =>
    rw [ih fun q hkq hqj => hc q hkq (Nat.le_succ_of_le hqj),
      RisesAt.succ_iff (hc j hkj (Nat.le_succ j)) (hc (j + 1) (by omega) le_rfl)]

namespace Partners

variable {s : Source} {i' j' d : Nat}

/-- Two loops are apart, or one is within the other. -/
theorem apart_or_inside (hp : Partners h i j) (hp' : Partners h i' j') (hlt : i < i') :
    j < i' ∨ j' < j := by
  rcases Nat.lt_trichotomy i' j with hin | rfl | hout
  · exact .inr (hp.lt_of_inside hp' hlt hin)
  · -- at one place the depth does not both rise and fall
    have := hp.closes
    have := hp.above i' hp.lt le_rfl
    have := hp'.opens
    omega
  · exact .inl hout

theorem getElem?_open (hp : Partners (depth s.bytes.toList) i j) :
    s.bytes.toList[i]? = some Symbol.loopOpen.byte :=
  getElem?_of_depth_lt (by have := hp.opens; omega)

theorem getElem?_close (hp : Partners (depth s.bytes.toList) i j) :
    s.bytes.toList[j]? = some Symbol.loopClose.byte := by
  have habove := hp.above j hp.lt le_rfl
  have hclose := hp.closes
  exact getElem?_of_lt_depth (by omega)

theorem exists_counter (hp : Partners h i j) (hik : i < k) (hkj : k ≤ j) :
    ∃ d : Nat, h k = h i + 1 + d :=
  ⟨(h k - h i - 1).toNat, by have := hp.above k hik hkj; omega⟩

/-- The scan for the end of a loop, begun at the first byte of the loop, goes on at a later one with
a counter that says how much deeper it stands there. -/
theorem closeFrom_eq (hp : Partners (depth s.bytes.toList) i j) (hik : i < k) (hkj : k ≤ j)
    (hd : depth s.bytes.toList k = depth s.bytes.toList i + 1 + d) (length : Nat) :
    closeFrom s.bytes (i + 1) (k - (i + 1) + length) 0 = closeFrom s.bytes k length d := by
  have hstart : depth s.bytes.toList (i + 1) = depth s.bytes.toList i + 1 + (0 : Nat) := by
    simpa using hp.opens
  refine Option.ext fun x => ?_
  rw [closeFrom_eq_some_iff s hstart, closeFrom_eq_some_iff s hd,
    FallsAt.congr hik fun q hiq hqk => hp.above q hiq (Nat.le_trans hqk hkj)]
  exact and_congr_left fun _ => by omega

theorem openBefore_eq (hp : Partners (depth s.bytes.toList) i j) (hik : i < k) (hkj : k ≤ j)
    (hd : depth s.bytes.toList k = depth s.bytes.toList i + 1 + d) :
    openBefore s.bytes j 0 = openBefore s.bytes k d := by
  have habove := hp.above j hp.lt le_rfl
  have hfall := depth_sub_one_le s.bytes.toList j
  have hclose := hp.closes
  have hstart : depth s.bytes.toList j = depth s.bytes.toList i + 1 + (0 : Nat) := by omega
  refine Option.ext fun x => ?_
  rw [openBefore_eq_some_iff s hstart, openBefore_eq_some_iff s hd,
    RisesAt.congr hkj fun q hkq hqj => hp.above q (Nat.lt_of_lt_of_le hik hkq) hqj]

end Partners

end Nesting

open Nesting

/-- In a source that the bracket check accepts, the scan from any opening bracket finds one that
closes, the scan from that finds the opening one again, and likewise the other way round. Where a
scan passes, its counter, which begins at zero for the one loop that is open, stands for how much
deeper it is there. Two loops are apart, or one is within the other. So an execution does not end
with a bracket to blame, wherever it starts from and whatever tape and channel it is given. -/
theorem scans_of_balanced {s : Source} (hs : s.checkBalance = .ok ()) :
    (∀ i, s.bytes[i]? = some Symbol.loopOpen.byte →
      ∃ j, s.bytes[j]? = some Symbol.loopClose.byte ∧ s.closer? i = some j ∧ s.opener? j = some i)
      ∧ (∀ j, s.bytes[j]? = some Symbol.loopClose.byte →
        ∃ i, s.bytes[i]? = some Symbol.loopOpen.byte ∧ s.opener? j = some i ∧ s.closer? i = some j)
      ∧ (∀ i j k, s.bytes[i]? = some Symbol.loopOpen.byte → s.closer? i = some j →
        i < k → k ≤ j → ∃ d : Nat, depth s.bytes.toList k = depth s.bytes.toList i + 1 + d
          ∧ (∀ length, closeFrom s.bytes (i + 1) (k - (i + 1) + length) 0
            = closeFrom s.bytes k length d)
          ∧ openBefore s.bytes j 0 = openBefore s.bytes k d)
      ∧ (∀ i j i' j', s.bytes[i]? = some Symbol.loopOpen.byte → s.closer? i = some j →
        s.bytes[i']? = some Symbol.loopOpen.byte → s.closer? i' = some j' → i < i' →
        j < i' ∨ j' < j)
      ∧ ∀ fuel m e f, s.execute fuel m = some e → e.fault? = some f → ¬ f.isStructural := by
  have hb := balanced_of_checkBalance hs
  simp only [← Array.getElem?_toList]
  have hpartners : ∀ i j, s.bytes.toList[i]? = some Symbol.loopOpen.byte → s.closer? i = some j →
      Partners (depth s.bytes.toList) i j := by
    intro i j hi hj
    obtain ⟨j', hp⟩ := hb.exists_closer hi
    cases hj.symm.trans (closer?_of_partners hp)
    exact hp
  refine ⟨fun i hi => ?_, fun j hj => ?_, fun i j k hi hj hik hkj => ?_,
    fun i j i' j' hi hj hi' hj' hlt => ?_, fun fuel m e f he hf => ?_⟩
  · obtain ⟨j, hp⟩ := hb.exists_closer hi
    exact ⟨j, hp.getElem?_close, closer?_of_partners hp, opener?_of_partners hp⟩
  · obtain ⟨i, hp⟩ := hb.exists_opener hj
    exact ⟨i, hp.getElem?_open, opener?_of_partners hp, closer?_of_partners hp⟩
  · have hp := hpartners i j hi hj
    obtain ⟨d, hd⟩ := hp.exists_counter hik hkj
    exact ⟨d, hd, hp.closeFrom_eq hik hkj hd, hp.openBefore_eq hik hkj hd⟩
  · exact (hpartners i j hi hj).apart_or_inside (hpartners i' j' hi' hj') hlt
  · obtain ⟨fault?, m'⟩ := e
    cases hf
    simp only [Source.execute, hs] at he
    rcases (Source.ordered hs).kind_of_run he with hk | hk <;> simp [Fault.isStructural, hk]

/-- A loop within a loop. The execution starts at the end of the inner one, over a cell that is not
zero, looks for its start and goes on from there, out of the tape. -/
theorem scans_of_balanced_inner :
    (⟨#[91, 91, 60, 93, 93]⟩ : Source).checkBalance = .ok ()
      ∧ (⟨#[91, 91, 60, 93, 93]⟩ : Source).bytes[1]? = some Symbol.loopOpen.byte
      ∧ (∃ j, (⟨#[91, 91, 60, 93, 93]⟩ : Source).closer? 1 = some j
        ∧ (⟨#[91, 91, 60, 93, 93]⟩ : Source).opener? j = some 1)
      ∧ (⟨#[91, 91, 60, 93, 93]⟩ : Source).execute 4
          ⟨⟨⟨#[2], 0, by decide⟩, { ends := .ofBytes [] }⟩, 3, 0⟩
        = some ⟨some (.outOfTape (-1) 1), ⟨⟨⟨#[2], 0, by decide⟩, { ends := .ofBytes [] }⟩, 2, 3⟩⟩
      ∧ ¬ (Fault.outOfTape (-1) 1).isStructural := by
  have hs : (⟨#[91, 91, 60, 93, 93]⟩ : Source).checkBalance = .ok () := rfl
  have hrun : (⟨#[91, 91, 60, 93, 93]⟩ : Source).execute 4
      ⟨⟨⟨#[2], 0, by decide⟩, { ends := .ofBytes [] }⟩, 3, 0⟩
        = some ⟨some (.outOfTape (-1) 1),
          ⟨⟨⟨#[2], 0, by decide⟩, { ends := .ofBytes [] }⟩, 2, 3⟩⟩ := rfl
  obtain ⟨hclose, -, -, -, hfault⟩ := scans_of_balanced hs
  obtain ⟨j, -, hj, hi⟩ := hclose 1 rfl
  exact ⟨hs, rfl, ⟨j, hj, hi⟩, hrun, hfault 4 _ _ _ hrun rfl⟩

end TapeMachine
