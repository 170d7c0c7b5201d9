import TapeMachine.Ir.Lower
import TapeMachine.Proofs.Nesting

/-!
# Lexemes

Each lexeme stands for a text, and the lexemes of a source are found where their texts are: in
order, without overlap, and with nothing but comments around them (`text_prefix_of_mem`,
`pairwise_list`, `ofByte?_of_uncovered`). A run is as long as it can be on both sides
(`maximal_of_mem`), and a loop that clears its cell is found wherever its three bytes are
(`clear_mem_list_iff`).
-/

namespace TapeMachine

def Action.text : Action → List UInt8
  | add n => List.replicate n Symbol.increment.byte
  | sub n => List.replicate n Symbol.decrement.byte
  | clear => [Symbol.loopOpen.byte, Symbol.decrement.byte, Symbol.loopClose.byte]
  | right n => List.replicate n Symbol.right.byte
  | left n => List.replicate n Symbol.left.byte
  | output => [Symbol.output.byte]
  | input => [Symbol.input.byte]

theorem Action.text_of_count? {a : Action} {n : Nat} (h : a.count? = some n) :
    ∃ b, a.text = List.replicate n b := by
  cases a <;> cases h <;> exact ⟨_, rfl⟩

theorem Symbol.text_of_counted? {s : Symbol} {n : Nat} {a : Action} (h : s.counted? n = some a) :
    a.text = List.replicate n s.byte ∧ a.count? = some n := by
  cases s <;> simp only [counted?, Option.some.injEq, reduceCtorEq] at h <;> subst h <;>
    exact ⟨rfl, rfl⟩

theorem Symbol.counted?_one {s : Symbol} {n : Nat} {a : Action} (h : s.counted? n = some a) :
    ∃ b, s.counted? 1 = some b := by
  cases s <;> simp_all [counted?]

namespace Lexeme

def text : Lexeme → List UInt8
  | act a => a.text
  | loopOpen => [Symbol.loopOpen.byte]
  | loopClose => [Symbol.loopClose.byte]

/-- How a lexeme begins with a byte and goes on in the bytes after it. -/
inductive Begins (rest : List UInt8) : UInt8 → Lexeme → Nat → Prop
  | run {s : Symbol} {a : Action} (h : s.counted? (runLength s.byte rest + 1) = some a) :
    Begins rest s.byte (.act a) (runLength s.byte rest)
  | output : Begins rest Symbol.output.byte (.act .output) 0
  | input : Begins rest Symbol.input.byte (.act .input) 0
  | clear (h : clearTail <+: rest) : Begins rest Symbol.loopOpen.byte (.act .clear) 2
  | loopOpen (h : ¬ clearTail <+: rest) : Begins rest Symbol.loopOpen.byte .loopOpen 0
  | loopClose : Begins rest Symbol.loopClose.byte .loopClose 0

theorem begins_of_first? {b : UInt8} {rest : List UInt8} {l : Lexeme} {more : Nat}
    (h : first? b rest = some (l, more)) : Begins rest b l more := by
  unfold first? at h
  split at h
  · cases h
  · rename_i hb
    rw [Symbol.ofByte?_eq_some_iff.1 hb]
    cases h
    exact .output
  · rename_i hb
    rw [Symbol.ofByte?_eq_some_iff.1 hb]
    cases h
    exact .input
  · rename_i hb
    rw [Symbol.ofByte?_eq_some_iff.1 hb]
    cases h
    exact .loopClose
  · rename_i hb
    rw [Symbol.ofByte?_eq_some_iff.1 hb]
    split at h
    · rename_i hp
      cases h
      exact .clear (List.isPrefixOf_iff_prefix.1 hp)
    · rename_i hp
      cases h
      exact .loopOpen fun hpre => hp (List.isPrefixOf_iff_prefix.2 hpre)
  · rename_i hb
    rw [Symbol.ofByte?_eq_some_iff.1 hb] at h ⊢
    obtain ⟨a, ha, he⟩ := Option.map_eq_some_iff.1 h
    cases he
    exact .run ha

theorem ofByte?_of_first? {b : UInt8} {rest : List UInt8} (h : first? b rest = none) :
    Symbol.ofByte? b = none := by
  unfold first? at h
  split at h
  · assumption
  · cases h
  · cases h
  · cases h
  · split at h <;> cases h
  · rename_i s h1 h2 h3 h4 hb
    cases s <;> simp_all [Symbol.counted?]

theorem replicate_append_drop (b : UInt8) : ∀ rest : List UInt8,
    List.replicate (runLength b rest) b ++ rest.drop (runLength b rest) = rest
  | [] => rfl
  | c :: rest => by
    have ih := replicate_append_drop b rest
    by_cases hc : c = b
    · subst hc
      simpa [runLength, List.replicate_succ] using ih
    · simp [runLength, hc]

theorem head?_drop_runLength (b : UInt8) : ∀ rest : List UInt8,
    (rest.drop (runLength b rest)).head? ≠ some b
  | [] => by simp
  | c :: rest => by
    have ih := head?_drop_runLength b rest
    by_cases hc : c = b
    · subst hc
      simpa [runLength] using ih
    · simp [runLength, hc]

namespace Begins

variable {rest : List UInt8} {b : UInt8} {l : Lexeme} {more : Nat}

theorem text_append (h : Begins rest b l more) : l.text ++ rest.drop more = b :: rest := by
  cases h with
  | run h =>
    rw [text, (Symbol.text_of_counted? h).1, List.replicate_succ, List.cons_append,
      replicate_append_drop]
  | clear h =>
    obtain ⟨tail, rfl⟩ := h
    rfl
  | output | input | loopOpen | loopClose => rfl

theorem length_text (h : Begins rest b l more) : l.text.length = more + 1 := by
  cases h with
  | run h => simp [text, (Symbol.text_of_counted? h).1]
  | output | input | clear | loopOpen | loopClose => rfl

theorem getElem?_text (h : Begins rest b l more) {whole : List UInt8} {offset : Nat}
    (hw : whole.drop offset = b :: rest) {k : Nat} (hk : k ≤ more) :
    whole[offset + k]? = l.text[k]? := by
  have hlen := h.length_text
  rw [← List.getElem?_drop, hw, ← h.text_append, List.getElem?_append_left (by omega)]

theorem isSome_of_mem (h : Begins rest b l more) {c : UInt8} (hc : c ∈ l.text) :
    (Symbol.ofByte? c).isSome := by
  cases h with
  | run h =>
    rw [text, (Symbol.text_of_counted? h).1] at hc
    rw [List.eq_of_mem_replicate hc, Symbol.ofByte?_byte]
    rfl
  | output | input | clear | loopOpen | loopClose =>
    simp only [text, Action.text, List.mem_cons, List.not_mem_nil, or_false] at hc
    rcases hc with rfl | rfl | rfl <;> rfl

/-- An opening bracket stands only at the front of a lexeme. -/
theorem getElem?_ne_loopOpen (h : Begins rest b l more) {k : Nat} (hk : 0 < k) :
    l.text[k]? ≠ some Symbol.loopOpen.byte := by
  obtain ⟨k, rfl⟩ : ∃ j, k = j + 1 := ⟨k - 1, by omega⟩
  cases h with
  | @run s a h =>
    rw [text, (Symbol.text_of_counted? h).1]
    intro hk
    have hs := List.eq_of_mem_replicate (List.mem_of_getElem? hk)
    cases s <;> simp_all [Symbol.counted?, Symbol.byte]
  | clear => rcases k with _ | _ | k <;> simp [text, Action.text, Symbol.byte]
  | output | input | loopOpen | loopClose => simp [text, Action.text]

/-- A counted symbol at the end of a lexeme does not follow it once more. -/
theorem head?_drop_ne (h : Begins rest b l more) {s : Symbol} {a : Action}
    (hs : s.counted? 1 = some a) (hlast : l.text[more]? = some s.byte) :
    (rest.drop more).head? ≠ some s.byte := by
  cases h with
  | @run s' a' h =>
    rw [text, (Symbol.text_of_counted? h).1] at hlast
    rw [List.eq_of_mem_replicate (List.mem_of_getElem? hlast)]
    exact head?_drop_runLength _ _
  | output | input | clear | loopOpen | loopClose =>
    cases s <;> simp_all [text, Action.text, Symbol.counted?, Symbol.byte]

end Begins

/-- The lexemes of bytes that start at `offset`. -/
def list : List UInt8 → Nat → List Placed
  | [], _ => []
  | b :: rest, offset =>
    match first? b rest with
    | none => list rest (offset + 1)
    | some (lexeme, more) => ⟨lexeme, offset⟩ :: list (rest.drop more) (offset + (more + 1))
termination_by bytes => bytes.length

theorem toList_scan (bytes : List UInt8) (offset : Nat) (found : Array Placed) :
    (scan bytes offset found).toList = found.toList ++ list bytes offset := by
  fun_induction scan bytes offset found with
  | case1 => simp [list]
  | case2 b rest offset found h ih => rw [ih, list, h]
  | case3 b rest offset found l more h ih =>
    rw [ih, list, h]
    simp

end Lexeme

theorem Source.lexemes_eq (s : Source) : s.lexemes = Lexeme.list s.bytes.toList 0 := by
  simp [lexemes, Lexeme.toList_scan]

namespace Placed

def text (p : Placed) : List UInt8 := p.lexeme.text

/-- The offset after the text of a lexeme. -/
def stop (p : Placed) : Nat := p.offset + p.text.length

end Placed

namespace Lexeme

theorem flatMap_text_list (bytes : List UInt8) (offset : Nat) :
    (list bytes offset).flatMap Placed.text
      = bytes.filter fun b => (Symbol.ofByte? b).isSome := by
  fun_induction list bytes offset with
  | case1 => rfl
  | case2 b rest offset h ih =>
    rw [ih, List.filter_cons_of_neg (by simp [ofByte?_of_first? h])]
  | case3 b rest offset l more h ih =>
    have hb := begins_of_first? h
    rw [List.flatMap_cons, ih, ← hb.text_append, List.filter_append,
      List.filter_eq_self.2 fun c hc => hb.isSome_of_mem hc]
    rfl

theorem le_offset_of_mem {bytes : List UInt8} {offset : Nat} :
    ∀ p ∈ list bytes offset, offset ≤ p.offset := by
  fun_induction list bytes offset with
  | case1 => simp
  | case2 b rest offset h ih =>
    intro p hp
    have := ih p hp
    omega
  | case3 b rest offset l more h ih =>
    intro p hp
    rcases List.mem_cons.1 hp with rfl | hp
    · exact Nat.le_refl _
    · have := ih p hp
      omega

theorem length_list_le (bytes : List UInt8) (offset : Nat) :
    (list bytes offset).length ≤ bytes.length := by
  fun_induction list bytes offset with
  | case1 => exact Nat.le_refl _
  | case2 b rest offset h ih => exact Nat.le_succ_of_le ih
  | case3 b rest offset l more h ih =>
    rw [List.length_drop] at ih
    simp only [List.length_cons]
    omega

theorem text_ne_nil_of_mem {bytes : List UInt8} {offset : Nat} :
    ∀ p ∈ list bytes offset, p.text ≠ [] := by
  fun_induction list bytes offset with
  | case1 => simp
  | case2 b rest offset h ih => exact ih
  | case3 b rest offset l more h ih =>
    intro p hp
    rcases List.mem_cons.1 hp with rfl | hp
    · have hlen := (begins_of_first? h).length_text
      exact List.ne_nil_of_length_pos (by simp only [Placed.text]; omega)
    · exact ih p hp

theorem pairwise_list (bytes : List UInt8) (offset : Nat) :
    (list bytes offset).Pairwise fun p q => p.offset < q.offset ∧ p.stop ≤ q.offset := by
  fun_induction list bytes offset with
  | case1 => exact .nil
  | case2 b rest offset h ih => exact ih
  | case3 b rest offset l more h ih =>
    refine List.pairwise_cons.2 ⟨fun q hq => ?_, ih⟩
    have hlen := (begins_of_first? h).length_text
    have := le_offset_of_mem q hq
    simp only [Placed.stop, Placed.text]
    omega

section Whole

variable {whole : List UInt8}

theorem drop_of_begins {b : UInt8} {rest : List UInt8} {more offset : Nat}
    (h : whole.drop offset = b :: rest) :
    whole.drop (offset + (more + 1)) = rest.drop more := by
  rw [← List.drop_drop, h, List.drop_succ_cons]

theorem text_prefix_of_mem (bytes : List UInt8) (offset : Nat) (hw : whole.drop offset = bytes) :
    ∀ p ∈ list bytes offset, p.text <+: whole.drop p.offset := by
  fun_induction list bytes offset with
  | case1 => simp
  | case2 b rest offset h ih => exact ih (Nesting.drop_eq_cons hw).2
  | case3 b rest offset l more h ih =>
    have hb := begins_of_first? h
    intro p hp
    rcases List.mem_cons.1 hp with rfl | hp
    · exact ⟨_, hb.text_append.trans hw.symm⟩
    · exact ih (drop_of_begins hw) p hp

theorem ofByte?_of_uncovered (bytes : List UInt8) (offset : Nat) (hw : whole.drop offset = bytes)
    {i : Nat} {c : UInt8} (hi : offset ≤ i) (hc : whole[i]? = some c)
    (hout : ∀ p ∈ list bytes offset, i < p.offset ∨ p.stop ≤ i) : Symbol.ofByte? c = none := by
  fun_induction list bytes offset with
  | case1 offset =>
    have := List.drop_eq_nil_iff.1 hw
    have := (List.getElem?_eq_some_iff.1 hc).1
    omega
  | case2 b rest offset h ih =>
    rcases Nat.eq_or_lt_of_le hi with rfl | hlt
    · have hb := (Nesting.drop_eq_cons hw).1
      rw [Option.some.inj (hc.symm.trans hb)]
      exact ofByte?_of_first? h
    · exact ih (Nesting.drop_eq_cons hw).2 hlt hout
  | case3 b rest offset l more h ih =>
    have hlen := (begins_of_first? h).length_text
    have hout' := hout ⟨l, offset⟩ List.mem_cons_self
    simp only [Placed.stop, Placed.text, hlen] at hout'
    exact ih (drop_of_begins hw) (by omega) fun p hp => hout p (List.mem_cons_of_mem _ hp)

theorem maximal_of_mem (bytes : List UInt8) (offset : Nat) (hw : whole.drop offset = bytes)
    (hprev : ∀ (s : Symbol) (a : Action) (i : Nat), s.counted? 1 = some a → i + 1 = offset →
      whole[i]? = some s.byte → bytes.head? ≠ some s.byte) :
    ∀ p ∈ list bytes offset, ∀ (a : Action) (n : Nat), p.lexeme = .act a → a.count? = some n →
      1 ≤ n ∧ ∀ c ∈ p.text, whole[p.stop]? ≠ some c
        ∧ ∀ i, i + 1 = p.offset → whole[i]? ≠ some c := by
  fun_induction list bytes offset with
  | case1 => simp
  | case2 b rest offset h ih =>
    refine ih (Nesting.drop_eq_cons hw).2 fun s a i _ hi hs => ?_
    obtain rfl : i = offset := by omega
    have hb := (Nesting.drop_eq_cons hw).1
    have := ofByte?_of_first? h
    rw [Option.some.inj (hb.symm.trans hs), Symbol.ofByte?_byte] at this
    cases this
  | case3 b rest offset l more h ih =>
    have hb := begins_of_first? h
    intro p hp a n hl hn
    rcases List.mem_cons.1 hp with rfl | hp
    · cases hb with
      | @run s a' hs =>
        cases hl
        have ht := Symbol.text_of_counted? hs
        have hn' := Option.some.inj (hn.symm.trans ht.2)
        refine ⟨by omega, fun c hc => ?_⟩
        rw [Placed.text, text, ht.1] at hc
        rw [List.eq_of_mem_replicate hc, ← List.head?_drop, Placed.stop, Placed.text, text, ht.1,
          List.length_replicate, drop_of_begins hw]
        refine ⟨head?_drop_runLength _ _, fun i hi hb => ?_⟩
        obtain ⟨b, hs1⟩ := s.counted?_one hs
        exact hprev s b i hs1 hi hb rfl
      | output | input | clear | loopOpen | loopClose => cases hl <;> cases hn
    · refine ih (drop_of_begins hw) (fun s a i hs hi hlast => ?_) p hp a n hl hn
      obtain rfl : i = offset + more := by omega
      rw [hb.getElem?_text hw (Nat.le_refl more)] at hlast
      exact hb.head?_drop_ne hs hlast

theorem clear_mem_list_iff (bytes : List UInt8) (offset : Nat) (hw : whole.drop offset = bytes)
    {i : Nat} : ⟨.act .clear, i⟩ ∈ list bytes offset
      ↔ offset ≤ i ∧ Action.clear.text <+: whole.drop i := by
  constructor
  · intro h
    exact ⟨le_offset_of_mem _ h, text_prefix_of_mem bytes offset hw _ h⟩
  rintro ⟨hi, hpre⟩
  have hopen : whole[i]? = some Symbol.loopOpen.byte := by
    obtain ⟨tail, ht⟩ := hpre
    rw [← List.head?_drop, ← ht]
    rfl
  fun_induction list bytes offset with
  | case1 offset =>
    have := List.drop_eq_nil_iff.1 hw
    have := (List.getElem?_eq_some_iff.1 hopen).1
    omega
  | case2 b rest offset h ih =>
    rcases Nat.eq_or_lt_of_le hi with rfl | hlt
    · have hb := (Nesting.drop_eq_cons hw).1
      have := ofByte?_of_first? h
      rw [Option.some.inj (hb.symm.trans hopen), Symbol.ofByte?_byte] at this
      cases this
    · exact ih (Nesting.drop_eq_cons hw).2 hlt
  | case3 b rest offset l more h ih =>
    have hb := begins_of_first? h
    rcases Nat.eq_or_lt_of_le hi with rfl | hlt
    · obtain ⟨tail, ht⟩ := hpre
      obtain ⟨rfl, hrest⟩ : Symbol.loopOpen.byte = b ∧ clearTail ++ tail = rest :=
        List.cons.inj (ht.trans hw)
      have hfirst : first? Symbol.loopOpen.byte rest = some (.act .clear, 2) := by
        rw [← hrest]
        rfl
      rw [hfirst] at h
      cases h
      exact List.mem_cons_self
    · refine List.mem_cons_of_mem _ (ih (drop_of_begins hw) (Nat.le_of_not_lt fun hin => ?_))
      obtain ⟨k, rfl⟩ : ∃ k, i = offset + k := ⟨i - offset, by omega⟩
      rw [hb.getElem?_text hw (by omega)] at hopen
      exact hb.getElem?_ne_loopOpen (by omega) hopen

end Whole

end Lexeme

end TapeMachine
