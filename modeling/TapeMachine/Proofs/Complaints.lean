import TapeMachine.CommandLine.Run

/-!
# Complaints

A complaint is a text on the error stream that begins with `Error: `. A load and a run remark much,
but never complain: the one text among their remarks is the listing, and that begins with an index
(`not_isComplaint_listing`). So of what the command writes on the error stream, the complaints are
those that it makes itself.
-/

namespace TapeMachine

/-- Notes are kept for the log, and told in another form. -/
def Remark.isComplaint : Remark → Bool
  | .note _ => false
  | .text s => s.startsWith "Error: "

theorem isComplaint_error (text : String) : (Remark.text ("Error: " ++ text)).isComplaint := by
  rw [Remark.isComplaint, String.startsWith_string_iff, String.toList_append]
  exact List.prefix_append _ _

theorem not_isComplaint_of_head {text : String} {c : Char} (h : text.toList.head? = some c)
    (hc : c ≠ 'E') : ¬ (Remark.text text).isComplaint := by
  rw [Remark.isComplaint, String.startsWith_string_iff]
  rintro ⟨rest, hrest⟩
  rw [← hrest] at h
  exact hc (Option.some.inj h).symm

theorem Program.head?_line (i : Instruction) : (line 0 i).toList.head? = some '0' := by
  have hindex : Text.padStart 4 '0' (toString 0) = "0000" := by decide +kernel
  rw [line, hindex]
  simp only [String.append_assoc, String.toList_append]
  rfl

theorem not_isComplaint_listing (p : Program) : ¬ (Remark.text p.listing).isComplaint := by
  rcases hcode : p.code.toList with _ | ⟨i, rest⟩
  · rw [Program.listing, hcode]
    decide +kernel
  · refine not_isComplaint_of_head (c := '0') ?_ (by decide)
    rw [Program.listing, hcode, List.mapIdx_cons, String.toList_join, List.flatMap_cons,
      List.head?_append, Program.head?_line]
    rfl

namespace Session

/-- None of the remarks is a complaint. -/
def Calm (remarks : List Remark) : Prop := ∀ r ∈ remarks, ¬ r.isComplaint

theorem Calm.append {a b : List Remark} (ha : Calm a) (hb : Calm b) : Calm (a ++ b) :=
  fun r hr => (List.mem_append.1 hr).elim (ha r) (hb r)

theorem calm_notes (notes : List Note) : Calm (notes.map .note) := by
  intro r hr
  obtain ⟨n, -, rfl⟩ := List.mem_map.1 hr
  exact Bool.false_ne_true

theorem calm_nil : Calm [] := calm_notes []

variable (s : Session)

theorem calm_compile : Calm s.compile.remarks := by
  unfold compile
  split
  · exact calm_nil
  · split
    · exact calm_notes [_]
    · exact calm_notes [_]

theorem calm_obtainProgram : Calm s.obtainProgram.remarks := by
  unfold obtainProgram
  split
  · exact calm_nil
  · exact s.calm_compile

theorem calm_announce (p : Program) : Calm (s.announce p) := by
  unfold announce
  split
  · intro r hr
    rw [List.mem_singleton.1 hr]
    exact not_isComplaint_listing p
  · exact calm_nil

theorem calm_conclude (mode : Mode) {remarks : List Remark} (h : Calm remarks)
    (completion : Completion) (ends : Endpoints) :
    Calm (s.conclude mode remarks completion ends).response.remarks := by
  have hnotes := h.append (calm_notes (s.runNotes mode completion))
  unfold conclude
  split
  · exact hnotes
  · split
    · exact hnotes
    · exact hnotes.append (calm_notes [_])

variable {s} {fuel : Nat} {ends : Endpoints} {e : Execution}

theorem calm_execute {mode : Mode} (h : s.execute fuel mode ends = some e) :
    Calm e.response.remarks := by
  cases mode with
  | direct =>
    rcases hs : s.source? with _ | source <;> simp only [execute, hs] at h
    · cases h
      exact calm_nil
    · obtain ⟨r, -, rfl⟩ := Option.map_eq_some_iff.1 h
      exact s.calm_conclude .direct calm_nil _ _
  | ir =>
    have hcalm := s.calm_obtainProgram
    rcases hobtain : s.obtainProgram with ⟨f | p, s', remarks⟩ <;>
      simp only [execute, hobtain] at h hcalm
    · cases h
      exact hcalm
    · obtain ⟨r, -, rfl⟩ := Option.map_eq_some_iff.1 h
      exact s'.calm_conclude .ir (hcalm.append (s'.calm_announce p)) _ _

theorem calm_runAsConfigured (h : s.runAsConfigured fuel ends = some e) :
    Calm e.response.remarks := by
  unfold runAsConfigured at h
  split at h
  · exact calm_execute h
  · have hcalm := s.calm_compile
    rcases hcompile : s.compile with ⟨f | p, s', remarks⟩ <;> simp only [hcompile] at h hcalm
    · cases h
      exact hcalm
    · obtain ⟨e', he', rfl⟩ := Option.map_eq_some_iff.1 h
      exact hcalm.append (calm_execute he')

end Session

end TapeMachine
