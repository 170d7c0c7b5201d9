import Mathlib
import TapeMachine.Ir.Program

/-!
# Listings

A listing is read back in one way only (`listing_inj`). Two lines of one index are compared from the
left: a mnemonic ends with its capitals, a numeral with its digits, and an opcode in front of the
semicolon (`Program.line_append_inj`). The index itself need not be read, as it is the number of the
lines before, in however many digits.
-/

namespace TapeMachine

namespace Text

variable {p : Char → Bool} {l l' rest rest' : List Char}

theorem takeWhile_append (hl : ∀ c ∈ l, p c) (hrest : ∀ c ∈ rest.head?, ¬ p c) :
    (l ++ rest).takeWhile p = l := by
  rw [List.takeWhile_append_of_pos hl]
  rcases rest with _ | ⟨c, rest⟩
  · simp
  · rw [List.takeWhile_cons_of_neg (hrest c rfl), List.append_nil]

/-- A text of one class of characters is told from what follows, if that begins with another. -/
theorem append_inj_of_head (hl : ∀ c ∈ l, p c) (hl' : ∀ c ∈ l', p c)
    (hrest : ∀ c ∈ rest.head?, ¬ p c) (hrest' : ∀ c ∈ rest'.head?, ¬ p c)
    (h : l ++ rest = l' ++ rest') : l = l' ∧ rest = rest' := by
  have hfront := congrArg (List.takeWhile p) h
  rw [takeWhile_append hl hrest, takeWhile_append hl' hrest'] at hfront
  subst hfront
  exact ⟨rfl, List.append_cancel_left h⟩

theorem isDigit_of_mem_toString {n : Nat} {c : Char} (h : c ∈ (toString n).toList) : c.isDigit := by
  rw [Nat.toString_eq_repr, Nat.toList_repr] at h
  exact Nat.isDigit_of_mem_toDigits (by decide) (by decide) h

theorem numeral_append_inj {m n : Nat} (hrest : ∀ c ∈ rest.head?, ¬ c.isDigit)
    (hrest' : ∀ c ∈ rest'.head?, ¬ c.isDigit)
    (h : (toString m).toList ++ rest = (toString n).toList ++ rest') : m = n ∧ rest = rest' := by
  obtain ⟨hnum, hrest⟩ := append_inj_of_head (fun _ => isDigit_of_mem_toString)
    (fun _ => isDigit_of_mem_toString) hrest hrest' h
  exact ⟨Nat.repr_injective (String.toList_inj.1 hnum), hrest⟩

theorem not_mem_toString {c : Char} (hc : ¬ c.isDigit) (n : Nat) : c ∉ (toString n).toList :=
  fun h => hc (isDigit_of_mem_toString h)

theorem toString_ne_mark (n : Nat) : toString n ≠ "?" := fun h =>
  not_mem_toString (c := '?') (by decide) n (by simp [h])

end Text

namespace Opcode

/-- What stands behind the mnemonic. -/
def operandText : Opcode → String
  | act a =>
    match a.count? with
    | some n => " " ++ toString n
    | none => ""
  | loopStart n => " -> " ++ if n = unresolved then "?" else toString n
  | loopEnd n => " -> " ++ toString n

theorem describe_eq (op : Opcode) : op.describe = op.mnemonic ++ op.operandText := by
  rcases op with ⟨_ | _ | _ | _ | _ | _ | _⟩ | n | n
  case act.add | act.sub | act.right | act.left => exact String.append_assoc
  case act.clear | act.output | act.input => rfl
  case loopStart =>
    simp only [describe, mnemonic, operandText]
    split
    · rfl
    · rw [← String.append_assoc]
      rfl
  case loopEnd =>
    rw [operandText, ← String.append_assoc]
    rfl

/-- The opcode of a mnemonic, given its operand. -/
def ofMnemonic? : String → Option Nat → Option Opcode
  | "ADD", some n => some (act (.add n))
  | "SUB", some n => some (act (.sub n))
  | "ZERO", none => some (act .clear)
  | "MOVR", some n => some (act (.right n))
  | "MOVL", some n => some (act (.left n))
  | "OUT", none => some (act .output)
  | "IN", none => some (act .input)
  | "LOOP", some n => some (loopStart n)
  | "END", some n => some (loopEnd n)
  | _, _ => none

theorem ofMnemonic?_mnemonic (op : Opcode) : ofMnemonic? op.mnemonic op.operand? = some op := by
  rcases op with ⟨_ | _ | _ | _ | _ | _ | _⟩ | n | n <;> rfl

/-- The mnemonic tells the kind of an opcode, and the text behind it then tells the operand. -/
theorem eq_of_mnemonic_eq {a b : Opcode} (hm : a.mnemonic = b.mnemonic)
    (ho : a.operandText = b.operandText) : a = b := by
  have hb := ofMnemonic?_mnemonic b
  rw [← hm] at hb
  generalize b.operand? = operand? at hb
  rcases a with ⟨m | m | _ | m | m | _ | _⟩ | m | m <;> rcases operand? with _ | n <;> cases hb
  case act.clear.none | act.output.none | act.input.none => rfl
  case loopStart.some =>
    simp only [operandText, String.append_right_inj] at ho
    split at ho <;> split at ho
    · rename_i hu hu'
      rw [hu, hu']
    · exact absurd ho.symm (Text.toString_ne_mark n)
    · exact absurd ho (Text.toString_ne_mark m)
    · rw [Nat.repr_injective ho]
  all_goals
    have hmn : m = n := by simpa [operandText, Action.count?] using ho
    rw [hmn]

theorem isUpper_of_mem_mnemonic (op : Opcode) : ∀ c ∈ op.mnemonic.toList, c.isUpper := by
  rcases op with ⟨_ | _ | _ | _ | _ | _ | _⟩ | n | n <;> simp [mnemonic]

theorem not_isUpper_head?_operandText (op : Opcode) :
    ∀ c ∈ op.operandText.toList.head?, ¬ c.isUpper := by
  rcases op with ⟨_ | _ | _ | _ | _ | _ | _⟩ | n | n <;>
    simp [operandText, Action.count?, String.toList_append]

theorem describe_inj {a b : Opcode} : a.describe = b.describe ↔ a = b := by
  refine ⟨fun h => ?_, fun h => h ▸ rfl⟩
  have hlist := congrArg String.toList h
  rw [describe_eq, describe_eq, String.toList_append, String.toList_append] at hlist
  obtain ⟨hm, ho⟩ := Text.append_inj_of_head a.isUpper_of_mem_mnemonic b.isUpper_of_mem_mnemonic
    a.not_isUpper_head?_operandText b.not_isUpper_head?_operandText hlist
  exact eq_of_mnemonic_eq (String.toList_inj.1 hm) (String.toList_inj.1 ho)

theorem not_mem_operandText (op : Opcode) : ';' ∉ op.operandText.toList := by
  have hnum : ∀ n : Nat, ';' ∉ (toString n).toList := Text.not_mem_toString (by decide)
  rcases op with ⟨_ | _ | _ | _ | _ | _ | _⟩ | n | n
  case loopStart =>
    simp only [operandText, String.toList_append, List.mem_append]
    split
    · decide
    · simp only [hnum, or_false]
      decide
  all_goals
    simp only [operandText, Action.count?, String.toList_append, List.mem_append, hnum, or_false]
    decide

theorem not_mem_describe (op : Opcode) : ';' ∉ op.describe.toList := by
  rw [describe_eq, String.toList_append, List.mem_append]
  rintro (h | h)
  · exact absurd (op.isUpper_of_mem_mnemonic _ h) (by decide)
  · exact op.not_mem_operandText h

end Opcode

namespace Program

variable {index : Nat} {i j : Instruction} {rest rest' : List Char}

/-- A line is its index, what does not reach beyond the semicolon, and the offset. -/
theorem toList_line (index : Nat) (i : Instruction) (rest : List Char) :
    (line index i).toList ++ rest = (Text.padStart 4 '0' (toString index) ++ "  ").toList
      ++ ((i.opcode.describe ++ "  ").toList
        ++ ("; @".toList ++ ((toString i.offset).toList ++ '\n' :: rest))) := by
  simp [line, String.toList_append]

/-- Two lines of one index, whatever follows them. -/
theorem line_append_inj (h : (line index i).toList ++ rest = (line index j).toList ++ rest') :
    i = j ∧ rest = rest' := by
  have hfront : ∀ op : Opcode, ∀ c ∈ (op.describe ++ "  ").toList, decide (c ≠ ';') := by
    intro op c hc
    rw [decide_eq_true_iff]
    rintro rfl
    rw [String.toList_append, List.mem_append] at hc
    rcases hc with hc | hc
    · exact op.not_mem_describe hc
    · exact absurd hc (by decide)
  rw [toList_line, toList_line] at h
  obtain ⟨hop, hback⟩ := Text.append_inj_of_head (hfront i.opcode) (hfront j.opcode) (by simp)
    (by simp) (List.append_cancel_left h)
  obtain ⟨hoffset, hrest⟩ :=
    Text.numeral_append_inj (by simp) (by simp) (List.append_cancel_left hback)
  have hopcode : i.opcode = j.opcode :=
    Opcode.describe_inj.1 ((String.append_left_inj "  ").1 (String.toList_inj.1 hop))
  obtain ⟨op, offset⟩ := i
  obtain ⟨op', offset'⟩ := j
  cases hopcode
  cases hoffset
  exact ⟨rfl, (List.cons.inj hrest).2⟩

/-- The lines from `index` on. -/
def linesFrom (index : Nat) : List Instruction → List Char
  | [] => []
  | i :: rest => (line index i).toList ++ linesFrom (index + 1) rest

theorem linesFrom_eq (index : Nat) (l : List Instruction) :
    linesFrom index l = (String.join (l.mapIdx fun k => line (index + k))).toList := by
  induction l generalizing index with
  | nil => rfl
  | cons i l ih =>
    rw [linesFrom, ih, List.mapIdx_cons, String.toList_join, String.toList_join, List.flatMap_cons]
    simp only [Nat.add_zero, Nat.add_assoc, Nat.add_comm 1]

theorem linesFrom_cons_ne_nil (index : Nat) (i : Instruction) (l : List Instruction) :
    linesFrom index (i :: l) ≠ [] := by
  rw [linesFrom, toList_line]
  simp

theorem linesFrom_inj {l l' : List Instruction} (h : linesFrom index l = linesFrom index l') :
    l = l' := by
  induction l generalizing index l' with
  | nil =>
    cases l' with
    | nil => rfl
    | cons j l' => exact absurd h.symm (linesFrom_cons_ne_nil index j l')
  | cons i l ih =>
    cases l' with
    | nil => exact absurd h (linesFrom_cons_ne_nil index i l)
    | cons j l' =>
      obtain ⟨rfl, hrest⟩ := line_append_inj h
      rw [ih hrest]

end Program

/-- The listing of a program tells the program, with all operands and offsets, and the text of an
opcode the opcode, whether or not it is a loop start whose end is not known. -/
theorem listing_inj : (∀ p q : Program, p.listing = q.listing ↔ p = q)
    ∧ ∀ a b : Opcode, a.describe = b.describe ↔ a = b := by
  refine ⟨fun p q => ⟨fun h => ?_, fun h => h ▸ rfl⟩, fun a b => Opcode.describe_inj⟩
  have hlines : ∀ p : Program, p.listing.toList = Program.linesFrom 0 p.code.toList := by
    intro p
    rw [Program.linesFrom_eq]
    simp only [Program.listing, Nat.zero_add]
  have hcode := congrArg String.toList h
  rw [hlines, hlines] at hcode
  obtain ⟨code⟩ := p
  obtain ⟨code'⟩ := q
  exact congrArg Program.mk (Array.toList_inj.1 (Program.linesFrom_inj hcode))

/-- The index takes the digits that it needs, and an end that is not known yet is no numeral. -/
example : Program.line 12345 ⟨.loopStart Opcode.unresolved, 7⟩ = "12345  LOOP -> ?  ; @7\n" := by
  decide +kernel

end TapeMachine
