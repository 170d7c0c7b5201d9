import Mathlib
import TapeMachine.Source

/-!
# Positions

Line and column of an offset are counted together, byte by byte. That comes to a count of the
newlines before the offset and to the length of what stands behind the last of them
(`Source.locate_eq`), so an offset is the start of its line and as many bytes as its column tells.
As long as no count leaves its word, a later offset has a later position (`locate_increasing`).
-/

namespace TapeMachine

/-- What stands behind the last newline. -/
def lastLine (bytes : List UInt8) : List UInt8 := bytes.rtakeWhile (· ≠ 10)

section LastLine

variable {bytes more : List UInt8}

theorem lastLine_concat_newline (bytes : List UInt8) : lastLine (bytes ++ [10]) = [] :=
  List.rtakeWhile_concat_neg _ _ _ (by decide)

theorem lastLine_concat_of_ne {b : UInt8} (h : b ≠ 10) :
    lastLine (bytes ++ [b]) = lastLine bytes ++ [b] :=
  List.rtakeWhile_concat_pos _ _ _ (by simpa using h)

/-- Bytes without a newline lengthen the last line. -/
theorem lastLine_append (h : 10 ∉ more) : lastLine (bytes ++ more) = lastLine bytes ++ more := by
  induction more using List.reverseRecOn with
  | nil => simp
  | append_singleton more b ih =>
    obtain ⟨hmore, hb⟩ : 10 ∉ more ∧ b ≠ 10 := by
      simpa [not_or, eq_comm] using h
    rw [← List.append_assoc, lastLine_concat_of_ne hb, ih hmore, List.append_assoc]

theorem lastLine_suffix (bytes : List UInt8) : lastLine bytes <:+ bytes :=
  List.rtakeWhile_suffix _ _

theorem not_mem_lastLine (bytes : List UInt8) : 10 ∉ lastLine bytes := fun h => by
  simpa using List.mem_rtakeWhile_imp h

/-- In front of the last line the text ends with a newline, if there is any. -/
theorem exists_lastLine (bytes : List UInt8) :
    bytes = lastLine bytes ∨ ∃ before, bytes = before ++ 10 :: lastLine bytes := by
  induction bytes using List.reverseRecOn with
  | nil => exact .inl rfl
  | append_singleton bytes b ih =>
    by_cases hb : b = 10
    · rw [hb, lastLine_concat_newline]
      exact .inr ⟨bytes, rfl⟩
    · rw [lastLine_concat_of_ne hb]
      rcases ih with ih | ⟨before, ih⟩
      · exact .inl (congrArg (· ++ [b]) ih)
      · refine .inr ⟨before, ?_⟩
        rw [← List.cons_append, ← List.append_assoc, ← ih]

end LastLine

/-- The position behind `bytes`, from two counts. -/
def Position.behind (bytes : List UInt8) : Position :=
  ⟨UInt32.ofNat (bytes.count 10) + 1, UInt32.ofNat (lastLine bytes).length + 1, bytes.length⟩

namespace Position

variable {bytes more : List UInt8}

theorem after_behind (bytes : List UInt8) (b : UInt8) :
    (behind bytes).after b = behind (bytes ++ [b]) := by
  by_cases hb : b = 10
  · subst hb
    simp [after, behind, lastLine_concat_newline, UInt32.ofNat_add]
  · simp [after, behind, lastLine_concat_of_ne hb, UInt32.ofNat_add, hb]

theorem foldl_after (bytes more : List UInt8) :
    more.foldl after (behind bytes) = behind (bytes ++ more) := by
  induction more generalizing bytes with
  | nil => simp
  | cons b more ih =>
    rw [List.foldl_cons, after_behind, ih, List.append_assoc, List.singleton_append]

theorem toNat_ofNat_succ {n : Nat} (h : n < 2 ^ 32 - 1) : (UInt32.ofNat n + 1).toNat = n + 1 := by
  have h1 : (1 : UInt32).toNat = 1 := rfl
  rw [UInt32.toNat_add, UInt32.toNat_ofNat', h1]
  omega

theorem line_behind (h : bytes.length < 2 ^ 32 - 1) :
    (behind bytes).line.toNat = bytes.count 10 + 1 := by
  have hle : bytes.count 10 ≤ bytes.length := List.count_le_length
  exact toNat_ofNat_succ (by omega)

theorem column_behind (h : bytes.length < 2 ^ 32 - 1) :
    (behind bytes).column.toNat = (lastLine bytes).length + 1 := by
  have hle := (lastLine_suffix bytes).length_le
  exact toNat_ofNat_succ (by omega)

/-- More bytes take the position on, to a later line or to a later column of the same line. -/
theorem behind_lt_behind (h : (bytes ++ more).length < 2 ^ 32 - 1) (hmore : more ≠ []) :
    toLex ((behind bytes).line, (behind bytes).column)
      < toLex ((behind (bytes ++ more)).line, (behind (bytes ++ more)).column) := by
  have hbytes : bytes.length < 2 ^ 32 - 1 := by
    rw [List.length_append] at h
    omega
  rw [Prod.Lex.toLex_lt_toLex]
  by_cases hnew : 10 ∈ more
  · have hpos := List.count_pos_iff.2 hnew
    left
    rw [UInt32.lt_iff_toNat_lt, line_behind hbytes, line_behind h, List.count_append]
    omega
  · have hpos := List.length_pos_iff.2 hmore
    right
    constructor
    · simp only [behind, List.count_append, List.count_eq_zero.2 hnew, Nat.add_zero]
    · rw [UInt32.lt_iff_toNat_lt, column_behind hbytes, column_behind h, lastLine_append hnew,
        List.length_append]
      omega

end Position

namespace Source

variable {s : Source} {offset : Nat}

/-- The line that `offset` is on begins at `start`: in front of it stands a newline, and none
between it and the offset. -/
structure OnLine (s : Source) (start offset : Nat) : Prop where
  le : start ≤ offset
  begins : start = 0 ∨ s.bytes[start - 1]? = some 10
  within : ∀ k, start ≤ k → k < offset → s.bytes[k]? ≠ some 10

theorem locate_eq (s : Source) (offset : Nat) :
    s.locate offset = .behind (s.bytes.toList.take offset) := by
  have hfold := Position.foldl_after [] (s.bytes.toList.take offset)
  rw [locate, Array.foldl_eq_foldl_extract, ← Array.foldl_toList, Array.toList_extract,
    List.extract_eq_take_drop]
  exact hfold

theorem locate_of_size_le (h : s.size ≤ offset) : s.locate offset = s.locate s.size := by
  rw [locate_eq, locate_eq, List.take_of_length_le h, List.take_of_length_le (Nat.le_refl s.size)]

/-- The position of an offset does not depend on what comes after it. -/
theorem locate_congr {s' : Source} (h : s.bytes.toList.take offset = s'.bytes.toList.take offset) :
    s.locate offset = s'.locate offset := by
  rw [locate_eq, locate_eq, h]

theorem onLine (ho : offset ≤ s.size) :
    s.OnLine (offset - (lastLine (s.bytes.toList.take offset)).length) offset := by
  have hlen : (s.bytes.toList.take offset).length = offset := List.length_take_of_le ho
  have hget : ∀ k < offset, s.bytes[k]? = (s.bytes.toList.take offset)[k]? := fun k hk => by
    rw [List.getElem?_take_of_lt hk, Array.getElem?_toList]
  generalize s.bytes.toList.take offset = bytes at hlen hget ⊢
  refine ⟨Nat.sub_le .., ?_, fun k hle hlt hk => not_mem_lastLine bytes ?_⟩
  · rcases exists_lastLine bytes with h | ⟨before, h⟩
    · exact .inl (by rw [← h, hlen, Nat.sub_self])
    · have hsize := congrArg List.length h
      rw [List.length_append, List.length_cons] at hsize
      have hindex : offset - (lastLine bytes).length - 1 = before.length := by omega
      rw [hindex, hget _ (by omega), h]
      exact .inr (by simp)
  · obtain ⟨before, h⟩ := lastLine_suffix bytes
    have hsize := congrArg List.length h
    rw [List.length_append] at hsize
    rw [hget k hlt, ← h, List.getElem?_append_right (by omega)] at hk
    exact List.mem_of_getElem? hk

end Source

/-- In a text that is short enough for the words that count it, a later offset has a later position.
The line of an offset is one more than the newlines before it. The column is one more than the bytes
since the last of these, so that the offset is the start of its line and the column less one. All
offsets past the end have the position of the end. -/
theorem locate_increasing {s : Source} (hs : s.size < 2 ^ 32 - 1) :
    (∀ a b, a < b → b ≤ s.size → toLex ((s.locate a).line, (s.locate a).column)
        < toLex ((s.locate b).line, (s.locate b).column))
      ∧ (∀ offset ≤ s.size, (s.locate offset).offset = offset
        ∧ (s.locate offset).line.toNat = (s.bytes.toList.take offset).count 10 + 1
        ∧ ∃ start, s.OnLine start offset ∧ offset + 1 = start + (s.locate offset).column.toNat)
      ∧ ∀ offset, s.size ≤ offset → s.locate offset = s.locate s.size := by
  have hlen : ∀ offset ≤ s.size, (s.bytes.toList.take offset).length = offset :=
    fun offset ho => List.length_take_of_le ho
  refine ⟨fun a b hab hb => ?_, fun offset ho => ?_, fun offset ho => Source.locate_of_size_le ho⟩
  · obtain ⟨more, hmore⟩ : s.bytes.toList.take a <+: s.bytes.toList.take b :=
      List.take_prefix_take_left (Nat.le_of_lt hab)
    have hsize := congrArg List.length hmore
    rw [List.length_append, hlen a (by omega), hlen b hb] at hsize
    rw [Source.locate_eq, Source.locate_eq, ← hmore]
    refine Position.behind_lt_behind ?_ (List.length_pos_iff.1 (by omega))
    rw [hmore, hlen b hb]
    omega
  · have hword : (s.bytes.toList.take offset).length < 2 ^ 32 - 1 := by
      rw [hlen offset ho]
      omega
    have hcolumn := Position.column_behind hword
    have hle := (lastLine_suffix (s.bytes.toList.take offset)).length_le
    rw [hlen offset ho] at hle
    rw [Source.locate_eq]
    refine ⟨hlen offset ho, Position.line_behind hword, _, Source.onLine ho, ?_⟩
    omega

/-- The carriage return is the third byte of the first line, and the bracket the first one of the
second. -/
theorem locate_increasing_crlf :
    (⟨#[43, 13, 10, 93]⟩ : Source).size < 2 ^ 32 - 1
      ∧ (⟨#[43, 13, 10, 93]⟩ : Source).locate 2 = ⟨1, 3, 2⟩
      ∧ (⟨#[43, 13, 10, 93]⟩ : Source).locate 3 = ⟨2, 1, 3⟩
      ∧ toLex ((1 : UInt32), (3 : UInt32)) < toLex (2, 1)
      ∧ (∃ start, (⟨#[43, 13, 10, 93]⟩ : Source).OnLine start 3 ∧ 3 + 1 = start + 1)
      ∧ (⟨#[43, 13, 10, 93]⟩ : Source).locate 99 = (⟨#[43, 13, 10, 93]⟩ : Source).locate 4 := by
  have hs : (⟨#[43, 13, 10, 93]⟩ : Source).size < 2 ^ 32 - 1 := by decide
  obtain ⟨hlt, hat, hpast⟩ := locate_increasing hs
  obtain ⟨-, -, hline⟩ := hat 3 (by decide)
  exact ⟨hs, rfl, rfl, hlt 2 3 (by decide) (by decide), hline, hpast 99 (by decide)⟩

end TapeMachine
