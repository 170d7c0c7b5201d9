import TapeMachine.Proofs.Nesting

/-!
# Balance

The bracket check goes right exactly on the sources whose brackets balance, and blames the first
closing bracket with too few openings before it or else the last opening one without a partner
(`justified_check`). The two scans find the partner of a bracket (`closer?_of_partners`,
`opener?_of_partners`).
-/

namespace TapeMachine.Nesting

/-- No prefix closes more than it opens, and the whole closes as much as it opens. -/
def Balanced (bytes : List UInt8) : Prop :=
  (∀ n ≤ bytes.length, closes bytes n ≤ opens bytes n)
    ∧ opens bytes bytes.length = closes bytes bytes.length

/-- The prefix that ends with the byte at `i` is the first to close more than it opens. -/
def FirstExcess (bytes : List UInt8) (i : Nat) : Prop :=
  i < bytes.length ∧ opens bytes (i + 1) < closes bytes (i + 1)
    ∧ ∀ n ≤ i, closes bytes n ≤ opens bytes n

/-- The opening bracket at `i` has no partner, and every later one has. -/
def LastUnclosed (bytes : List UInt8) (i : Nat) : Prop :=
  bytes[i]? = some Symbol.loopOpen.byte ∧ (∀ j, ¬ Partners (depth bytes) i j)
    ∧ ∀ k, i < k → bytes[k]? = some Symbol.loopOpen.byte → ∃ j, Partners (depth bytes) k j

theorem rise_of_open {b : UInt8} (h : Symbol.ofByte? b = some .loopOpen) : rise b = 1 := by
  simp only [rise, h]

theorem rise_of_close {b : UInt8} (h : Symbol.ofByte? b = some .loopClose) : rise b = -1 := by
  simp only [rise, h]

theorem rise_of_other {b : UInt8} (ho : Symbol.ofByte? b ≠ some .loopOpen)
    (hc : Symbol.ofByte? b ≠ some .loopClose) : rise b = 0 := by
  unfold rise
  split <;> simp_all

theorem rise_of_depth_ne {bytes : List UInt8} {n : Nat}
    (h : depth bytes (n + 1) ≠ depth bytes n) :
    ∃ b, bytes[n]? = some b ∧ depth bytes (n + 1) = depth bytes n + rise b := by
  rcases hb : bytes[n]? with _ | b
  · have hn := List.getElem?_eq_none_iff.1 hb
    rw [depth_of_length_le hn, depth_of_length_le (Nat.le_succ_of_le hn)] at h
    exact absurd rfl h
  · exact ⟨b, rfl, depth_succ hb⟩

/-- A byte that takes the depth up is an opening bracket. -/
theorem getElem?_of_depth_lt {bytes : List UInt8} {n : Nat}
    (h : depth bytes n < depth bytes (n + 1)) : bytes[n]? = some Symbol.loopOpen.byte := by
  obtain ⟨b, hb, hd⟩ := rise_of_depth_ne (Int.ne_of_gt h)
  by_cases ho : Symbol.ofByte? b = some .loopOpen
  · rw [hb, Symbol.ofByte?_eq_some_iff.1 ho]
  · have : rise b ≤ 0 := by
      unfold rise
      split <;> simp_all
    omega

theorem getElem?_of_lt_depth {bytes : List UInt8} {n : Nat}
    (h : depth bytes (n + 1) < depth bytes n) : bytes[n]? = some Symbol.loopClose.byte := by
  obtain ⟨b, hb, hd⟩ := rise_of_depth_ne (Int.ne_of_lt h)
  by_cases hc : Symbol.ofByte? b = some .loopClose
  · rw [hb, Symbol.ofByte?_eq_some_iff.1 hc]
  · have : 0 ≤ rise b := by
      unfold rise
      split <;> simp_all
    omega

theorem lastUnclosed_of_unclosed {bytes : List UInt8} {i : Nat} {outer : List Nat}
    (h : Unclosed (depth bytes) bytes.length (i :: outer)) : LastUnclosed bytes i := by
  obtain ⟨hlt, ho, hd, habove, -⟩ := h
  refine ⟨getElem?_of_depth_lt (by omega), fun j hp => ?_, fun k hik hk => ?_⟩
  · have hj := hp.closes
    rcases Nat.lt_or_ge j bytes.length with hjl | hjl
    · have := habove (j + 1) (by have := hp.lt; omega) hjl
      omega
    · rw [depth_of_length_le (Nat.le_succ_of_le hjl)] at hj
      omega
  · obtain ⟨hkl, -⟩ := List.getElem?_eq_some_iff.1 hk
    have hks := depth_succ hk
    rw [rise_of_open (Symbol.ofByte?_byte _)] at hks
    have := habove k hik (Nat.le_of_lt hkl)
    obtain ⟨j, -, hp⟩ := exists_partner (depth_sub_one_le bytes) hks hkl (by omega)
    exact ⟨j, hp⟩

theorem balanced_of_unclosed {bytes : List UInt8}
    (h : Unclosed (depth bytes) bytes.length []) : Balanced bytes := by
  obtain ⟨h0, hnn⟩ := h
  unfold depth at h0 hnn
  refine ⟨fun n hn => ?_, by omega⟩
  have := hnn n hn
  omega

theorem Balanced.not_firstExcess {bytes : List UInt8} (hb : Balanced bytes) (i : Nat) :
    ¬ FirstExcess bytes i := by
  rintro ⟨hi, hlt, -⟩
  have := hb.1 (i + 1) hi
  omega

theorem Balanced.exists_closer {bytes : List UInt8} (hb : Balanced bytes) {i : Nat}
    (hi : bytes[i]? = some Symbol.loopOpen.byte) : ∃ j, Partners (depth bytes) i j := by
  obtain ⟨hlt, -⟩ := List.getElem?_eq_some_iff.1 hi
  have ho := depth_succ hi
  rw [rise_of_open (Symbol.ofByte?_byte _)] at ho
  have hle := hb.1 i (Nat.le_of_lt hlt)
  have heq := hb.2
  obtain ⟨j, -, hp⟩ := exists_partner (depth_sub_one_le bytes) ho hlt (by unfold depth; omega)
  exact ⟨j, hp⟩

theorem Balanced.exists_opener {bytes : List UInt8} (hb : Balanced bytes) {j : Nat}
    (hj : bytes[j]? = some Symbol.loopClose.byte) : ∃ i, Partners (depth bytes) i j := by
  obtain ⟨hlt, -⟩ := List.getElem?_eq_some_iff.1 hj
  have hc := depth_succ hj
  rw [rise_of_close (Symbol.ofByte?_byte _)] at hc
  have hle := hb.1 (j + 1) hlt
  exact exists_partner_of_fall (depth_succ_le bytes) (depth_zero bytes) hc (by unfold depth; omega)

theorem Balanced.not_lastUnclosed {bytes : List UInt8} (hb : Balanced bytes) (i : Nat) :
    ¬ LastUnclosed bytes i := by
  rintro ⟨hi, hnone, -⟩
  obtain ⟨j, hp⟩ := hb.exists_closer hi
  exact hnone j hp

/-- What a verdict of the bracket check says about the whole text. -/
def Justified (bytes : List UInt8) : Except Unmatched Unit → Prop
  | .ok _ => Balanced bytes
  | .error (.closing i) => FirstExcess bytes i
  | .error (.opening i) => LastUnclosed bytes i ∧ ∀ n ≤ bytes.length, closes bytes n ≤ opens bytes n

theorem justified_check {bytes : List UInt8} (rest : List UInt8) (n : Nat) (st : List Nat)
    (hrest : bytes.drop n = rest) (hn : n ≤ bytes.length) (hu : Unclosed (depth bytes) n st) :
    Justified bytes (Brackets.check rest n st) := by
  have hnext : ∀ {n : Nat} {b : UInt8} {tail : List UInt8}, bytes.drop n = b :: tail →
      n < bytes.length ∧ depth bytes (n + 1) = depth bytes n + rise b
        ∧ bytes.drop (n + 1) = tail := by
    intro n b tail h
    obtain ⟨hb, ht⟩ := drop_eq_cons h
    exact ⟨(List.getElem?_eq_some_iff.1 hb).1, depth_succ hb, ht⟩
  fun_induction Brackets.check rest n st with
  | case1 n =>
    obtain rfl : n = bytes.length := Nat.le_antisymm hn (List.drop_eq_nil_iff.1 hrest)
    exact balanced_of_unclosed hu
  | case2 n start outer =>
    obtain rfl : n = bytes.length := Nat.le_antisymm hn (List.drop_eq_nil_iff.1 hrest)
    refine ⟨lastUnclosed_of_unclosed hu, fun k hk => ?_⟩
    have := hu.nonneg k hk
    unfold depth at this
    omega
  | case3 b rest n opened hb ih =>
    obtain ⟨hlt, hd, ht⟩ := hnext hrest
    exact ih ht hlt (hu.push (by rw [hd, rise_of_open hb]))
  | case4 b rest n hb =>
    obtain ⟨hlt, hd, -⟩ := hnext hrest
    obtain ⟨h0, hnn⟩ := hu
    have hr := rise_of_close hb
    unfold depth at h0 hnn hd
    refine ⟨hlt, by omega, fun k hk => ?_⟩
    have := hnn k hk
    omega
  | case5 b rest n hb start outer ih =>
    obtain ⟨hlt, hd, ht⟩ := hnext hrest
    have hr := rise_of_close hb
    exact ih ht hlt (hu.pop (by omega)).2
  | case6 b rest n opened ho hc ih =>
    obtain ⟨hlt, hd, ht⟩ := hnext hrest
    have hr := rise_of_other ho hc
    refine ih ht hlt (hu.stay (by omega) (by omega) fun k hnk hk => ?_)
    rcases eq_or_ne k n with rfl | hkn
    · omega
    · obtain rfl : k = n + 1 := by omega
      omega

theorem justified_unmatched (s : Source) : Justified s.bytes.toList s.unmatched :=
  justified_check _ _ _ rfl (Nat.zero_le _) (unclosed_zero _)

theorem balanced_of_checkBalance {s : Source} (h : s.checkBalance = .ok ()) :
    Balanced s.bytes.toList := by
  have hj := justified_unmatched s
  unfold Source.checkBalance at h
  rcases hu : s.unmatched with e | _ <;> rw [hu] at h hj
  · cases h
  · exact hj

theorem checkBalance_of_balanced {s : Source} (h : Balanced s.bytes.toList) :
    s.checkBalance = .ok () := by
  have hj := justified_unmatched s
  unfold Source.checkBalance
  rcases hu : s.unmatched with (i | i) | _ <;> rw [hu] at hj
  · exact absurd hj.1 (h.not_lastUnclosed i)
  · exact absurd hj (h.not_firstExcess i)
  · rfl

/-- Behind its end a text has no brackets. -/
theorem Partners.lt_length {bytes : List UInt8} {i j : Nat} (h : Partners (depth bytes) i j) :
    j < bytes.length := by
  by_contra hle
  have hj : bytes.length ≤ j := Nat.le_of_not_lt hle
  have hclose := h.closes
  have habove := h.above j h.lt le_rfl
  rw [depth_of_length_le (Nat.le_succ_of_le hj)] at hclose
  rw [depth_of_length_le hj] at habove
  omega

/-! ### The scans for a partner -/

theorem depth_succ_getD (s : Source) (n : Nat) :
    depth s.bytes.toList (n + 1) = depth s.bytes.toList n + rise (s.bytes.getD n 0) := by
  rcases hb : s.bytes.toList[n]? with _ | b
  · have hn := List.getElem?_eq_none_iff.1 hb
    rw [depth_of_length_le hn, depth_of_length_le (Nat.le_succ_of_le hn)]
    have h0 : rise 0 = 0 := by decide
    simp_all
  · rw [depth_succ hb]
    simp_all

/-- From `i` on, the depth keeps to `c` through `j` and falls below it there. -/
structure FallsAt (h : Nat → Int) (c : Int) (i j : Nat) : Prop where
  le : i ≤ j
  falls : h (j + 1) = c - 1
  above : ∀ k, i ≤ k → k ≤ j → c ≤ h k

theorem FallsAt.succ_iff {h : Nat → Int} {c : Int} {i j : Nat} (hi : c ≤ h i)
    (hs : c ≤ h (i + 1)) : FallsAt h c (i + 1) j ↔ FallsAt h c i j := by
  constructor
  · rintro ⟨hij, hf, ha⟩
    refine ⟨by omega, hf, fun k hik hkj => ?_⟩
    rcases Nat.eq_or_lt_of_le hik with rfl | hlt
    · exact hi
    · exact ha k hlt hkj
  · rintro ⟨hij, hf, ha⟩
    have hne : j ≠ i := by
      rintro rfl
      omega
    exact ⟨by omega, hf, fun k hik hkj => ha k (by omega) hkj⟩

theorem FallsAt.eq_iff {h : Nat → Int} {c : Int} {i j : Nat} (hi : c ≤ h i)
    (hs : h (i + 1) = c - 1) : FallsAt h c i j ↔ i = j := by
  constructor
  · rintro ⟨hij, hf, ha⟩
    by_contra hne
    have := ha (i + 1) (by omega) (by omega)
    omega
  · rintro rfl
    refine ⟨le_rfl, hs, fun k h1 h2 => ?_⟩
    rw [Nat.le_antisymm h2 h1]
    exact hi

theorem closeFrom_eq_some_iff (s : Source) {c : Int} {i length d j : Nat}
    (hc : depth s.bytes.toList i = c + d) :
    Brackets.closeFrom s.bytes i length d = some j
      ↔ j < i + length ∧ FallsAt (depth s.bytes.toList) c i j := by
  have hs := depth_succ_getD s
  fun_induction Brackets.closeFrom s.bytes i length d with
  | case1 i d =>
    simp only [reduceCtorEq, false_iff, not_and]
    intro hlt hf
    have := hf.le
    omega
  | case2 i length d hb ih =>
    have hd := hs i
    rw [rise_of_open hb] at hd
    refine (ih (by omega)).trans ?_
    rw [FallsAt.succ_iff (by omega) (by omega)]
    exact and_congr_left fun _ => by omega
  | case3 i length hb =>
    have hd := hs i
    rw [rise_of_close hb] at hd
    rw [FallsAt.eq_iff (by omega) (by omega), Option.some.injEq]
    omega
  | case4 i length d hb ih =>
    have hd := hs i
    rw [rise_of_close hb] at hd
    refine (ih (by omega)).trans ?_
    rw [FallsAt.succ_iff (by omega) (by omega)]
    exact and_congr_left fun _ => by omega
  | case5 i length d ho h1 h2 ih =>
    have hd := hs i
    rw [rise_of_other ho fun hb => by cases d <;> simp_all] at hd
    refine (ih (by omega)).trans ?_
    rw [FallsAt.succ_iff (by omega) (by omega)]
    exact and_congr_left fun _ => by omega

/-- Before `i`, the depth keeps to `c` after `j` and rises to it there. -/
structure RisesAt (h : Nat → Int) (c : Int) (i j : Nat) : Prop where
  lt : j < i
  rises : h j = c - 1
  above : ∀ k, j < k → k ≤ i → c ≤ h k

theorem RisesAt.succ_iff {h : Nat → Int} {c : Int} {i j : Nat} (hi : c ≤ h i)
    (hs : c ≤ h (i + 1)) : RisesAt h c i j ↔ RisesAt h c (i + 1) j := by
  constructor
  · rintro ⟨hlt, hr, ha⟩
    refine ⟨by omega, hr, fun k hjk hki => ?_⟩
    rcases Nat.eq_or_lt_of_le hki with rfl | hlt'
    · exact hs
    · exact ha k hjk (by omega)
  · rintro ⟨hlt, hr, ha⟩
    have hne : j ≠ i := by
      rintro rfl
      omega
    exact ⟨by omega, hr, fun k hjk hki => ha k hjk (by omega)⟩

theorem RisesAt.eq_iff {h : Nat → Int} {c : Int} {i j : Nat} (hi : h i = c - 1)
    (hs : c ≤ h (i + 1)) : RisesAt h c (i + 1) j ↔ i = j := by
  constructor
  · rintro ⟨hlt, hr, ha⟩
    by_contra hne
    have := ha i (by omega) (by omega)
    omega
  · rintro rfl
    refine ⟨by omega, hi, fun k h1 h2 => ?_⟩
    rw [Nat.le_antisymm h2 h1]
    exact hs

theorem openBefore_eq_some_iff (s : Source) {c : Int} {i d j : Nat}
    (hc : depth s.bytes.toList i = c + d) :
    Brackets.openBefore s.bytes i d = some j ↔ RisesAt (depth s.bytes.toList) c i j := by
  have hs := depth_succ_getD s
  fun_induction Brackets.openBefore s.bytes i d with
  | case1 d =>
    simp only [reduceCtorEq, false_iff]
    intro hr
    exact Nat.not_lt_zero _ hr.lt
  | case2 i d hb ih =>
    have hd := hs i
    simp only [Nat.succ_eq_add_one] at hc
    rw [rise_of_close hb] at hd
    exact (ih (by omega)).trans (RisesAt.succ_iff (by omega) (by omega))
  | case3 i hb =>
    have hd := hs i
    simp only [Nat.succ_eq_add_one] at hc
    rw [rise_of_open hb] at hd
    rw [RisesAt.eq_iff (by omega) (by omega), Option.some.injEq]
  | case4 i d hb ih =>
    have hd := hs i
    simp only [Nat.succ_eq_add_one] at hc
    rw [rise_of_open hb] at hd
    exact (ih (by omega)).trans (RisesAt.succ_iff (by omega) (by omega))
  | case5 i d hcl h1 h2 ih =>
    have hd := hs i
    simp only [Nat.succ_eq_add_one] at hc
    rw [rise_of_other (fun hb => by cases d <;> simp_all) hcl] at hd
    exact (ih (by omega)).trans (RisesAt.succ_iff (by omega) (by omega))

theorem closer?_of_partners {s : Source} {i j : Nat} (h : Partners (depth s.bytes.toList) i j) :
    s.closer? i = some j := by
  have hj : j < s.size := h.lt_length
  have hd : depth s.bytes.toList (i + 1) = depth s.bytes.toList i + 1 + (0 : Nat) := by
    simpa using h.opens
  refine (closeFrom_eq_some_iff s hd).2 ⟨by have := h.lt; omega, h.lt, ?_, fun k hik hkj => ?_⟩
  · rw [h.closes]
    omega
  · exact h.above k hik hkj

theorem opener?_of_partners {s : Source} {i j : Nat} (h : Partners (depth s.bytes.toList) i j) :
    s.opener? j = some i := by
  have habove := h.above j h.lt le_rfl
  have hfall := depth_sub_one_le s.bytes.toList j
  have hclose := h.closes
  have hd : depth s.bytes.toList j = depth s.bytes.toList i + 1 + (0 : Nat) := by
    omega
  exact (openBefore_eq_some_iff s hd).2 ⟨h.lt, by omega, fun k hik hkj => h.above k hik hkj⟩

end TapeMachine.Nesting
