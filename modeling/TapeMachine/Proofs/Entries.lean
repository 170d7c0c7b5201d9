import TapeMachine.Proofs.Comments
import TapeMachine.Proofs.Dialogues
import TapeMachine.Proofs.Modes

/-!
# Entries at the prompt

The prompt counts brackets, and the check of a source looks at their order as well. Where no more
loops are opened than closed, a loop that stays open has to be made up for by a bracket that closes
nothing, and that is to blame first (`lt_opens_of_justified`). So an entry that is evaluated is
balanced or has such a bracket, and an entry that is not evaluated yet is not balanced.
-/

namespace TapeMachine

open Nesting

/-- Where a loop that stays open is to blame, the loops that are opened outnumber those that are
closed: otherwise the brackets would balance. -/
theorem Nesting.lt_opens_of_justified {bytes : List UInt8} {i : Nat}
    (h : Justified bytes (.error (.opening i))) :
    closes bytes bytes.length < opens bytes bytes.length := by
  obtain ⟨hopen, hle⟩ := h
  by_contra hge
  have hlast := hle bytes.length le_rfl
  exact Balanced.not_lastUnclosed ⟨hle, by omega⟩ i hopen

namespace Session

variable {s : Session} {text : String} {fuel : Nat} {ends : Endpoints} {f : Fault}

theorem staysOpen_iff (text : String) : StaysOpen text
    ↔ closes (Source.ofString text).bytes.toList (Source.ofString text).bytes.toList.length
      < opens (Source.ofString text).bytes.toList (Source.ofString text).bytes.toList.length := by
  rw [closes, opens, List.take_length]
  rfl

theorem not_staysOpen_of_checkBalance (h : (Source.ofString text).checkBalance = .ok ()) :
    ¬ StaysOpen text := by
  have hb := balanced_of_checkBalance h
  have heq := hb.2
  rw [staysOpen_iff]
  omega

theorem firstExcess_of_unmatched {u : Unmatched} (h : ¬ StaysOpen text)
    (hu : (Source.ofString text).unmatched = .error u) :
    ∃ i, u = .closing i ∧ FirstExcess (Source.ofString text).bytes.toList i := by
  have hj := justified_unmatched (Source.ofString text)
  rw [hu] at hj
  cases u with
  | opening i => exact absurd ((staysOpen_iff text).2 (lt_opens_of_justified hj)) h
  | closing i => exact ⟨i, rfl, hj⟩

/-! ## Evaluation -/

theorem report_evaluate (s : Session) (fuel : Nat) (text : String) (ends : Endpoints) :
    (s.evaluate fuel text ends).map Execution.report
      = ((s.loadText text).session.runAsConfigured fuel ends).map Execution.report := by
  simp only [evaluate, Option.map_map]
  rfl

/-- In either mode an entry that is not balanced is rejected, and nothing is run. -/
theorem evaluate_of_unmatched {u : Unmatched} (hu : (Source.ofString text).unmatched = .error u)
    (s : Session) (fuel : Nat) (ends : Endpoints) : ∃ e, s.evaluate fuel text ends = some e
      ∧ e.response.result = .error (.program (u.fault (.ofString text))) := by
  have hc : (Source.ofString text).checkBalance = .error (u.fault (.ofString text)) := by
    rw [Source.checkBalance, hu]
    rfl
  obtain ⟨ends', hreport, -⟩ := report_runAsConfigured_of_not_balanced
    (s := (s.loadText text).session) rfl rfl hc fuel ends
  rw [← report_evaluate] at hreport
  obtain ⟨e, he, hr⟩ := Option.map_eq_some_iff.1 hreport
  exact ⟨e, he, congrArg Prod.fst hr⟩

/-- A balanced entry is run in either mode. -/
theorem exists_job_of_evaluate (h : (Source.ofString text).checkBalance = .ok ()) (s : Session)
    (fuel : Nat) (ends : Endpoints) : ∃ j : Job, j.Balanced
      ∧ (s.evaluate fuel text ends).map Execution.report
        = (j.run fuel s.config ends).map settle := by
  obtain ⟨j, -, hj, hreport⟩ :=
    report_runAsConfigured_of_balanced (s := (s.loadText text).session) rfl rfl h
  exact ⟨j, hj, (report_evaluate s fuel text ends).trans (hreport fuel ends)⟩

theorem kind_of_evaluate (h : (Source.ofString text).checkBalance = .ok ()) {e : Execution}
    (he : s.evaluate fuel text ends = some e) (hr : e.response.result = .error (.program f)) :
    f.kind = .tapeOutOfRange ∨ f.kind = .io := by
  obtain ⟨j, hj, hreport⟩ := exists_job_of_evaluate h s fuel ends
  rw [he, Option.map_some, Job.run_eq, Option.map_map] at hreport
  obtain ⟨x, hx, hsettle⟩ := Option.map_eq_some_iff.1 hreport.symm
  have hresult : (settle (Machine.conclude x)).1 = .error (.program f) :=
    (congrArg Prod.fst hsettle).trans hr
  refine Job.kind_of_conclude hj hx ?_
  rcases hc : (Machine.conclude x).1.result with g | o <;> simp only [settle, hc] at hresult
  · cases hresult
    rfl
  · split at hresult <;> cases hresult

/-- An entry that is closed does not fail at a loop without end. -/
theorem evaluate_ne_unmatchedOpen (h : ¬ StaysOpen text) {e : Execution}
    (he : s.evaluate fuel text ends = some e) (pos : Position) :
    e.response.result ≠ .error (.program (.unmatchedOpen pos)) := by
  intro hr
  rcases hu : (Source.ofString text).unmatched with u | _
  · obtain ⟨i, rfl, -⟩ := firstExcess_of_unmatched h hu
    obtain ⟨e', he', hr'⟩ := evaluate_of_unmatched hu s fuel ends
    cases he.symm.trans he'
    cases hr.symm.trans hr'
  · rcases kind_of_evaluate (Source.checkBalance_eq_ok_iff.2 hu) he hr with hk | hk <;> cases hk

/-! ## Dialogues -/

/-- The prompt holds back no text that could be run, and evaluates none that stays open. A text that
it takes for complete is lowered and then never fails at a bracket, or it is rejected, in either
mode, for the first bracket that closes more than was opened. So in no dialogue a balanced entry
waits for another line, and no entry that is evaluated fails at a loop without end. -/
theorem entries_complete (text : String) :
    ((Source.ofString text).checkBalance = .ok () → isClosed text)
      ∧ (isClosed text → ((∃ p stats, (Source.ofString text).lower = .ok (p, stats))
          ∧ ∀ (s : Session) (fuel : Nat) (ends : Endpoints) (e : Execution) (f : Fault),
            s.evaluate fuel text ends = some e → e.response.result = .error (.program f) →
              ¬ f.isStructural)
        ∨ ∃ i, FirstExcess (Source.ofString text).bytes.toList i
          ∧ (Source.ofString text).lower
            = .error (.unmatchedClose ((Source.ofString text).locate i))
          ∧ ∀ (s : Session) (fuel : Nat) (ends : Endpoints), ∃ e,
            s.evaluate fuel text ends = some e ∧ e.response.result
              = .error (.program (.unmatchedClose ((Source.ofString text).locate i))))
      ∧ ∀ (s : Session) (c : Console) (turns : List Turn) (line : String) (m : Moment),
        (Leads (greet s c) (turns ++ [.gathered line]) m →
          (Source.ofString m.entry).checkBalance ≠ .ok ())
        ∧ ∀ result, Leads (greet s c) (turns ++ [.evaluated line text result]) m →
          isClosed text ∧ ∀ pos, result ≠ .error (.program (.unmatchedOpen pos)) := by
  refine ⟨fun h => ?_, fun h => ?_, fun s c turns line m => ⟨fun h hb => ?_, fun result h => ?_⟩⟩
  · rw [isClosed_iff]
    exact not_staysOpen_of_checkBalance h
  · rw [isClosed_iff] at h
    rcases hu : (Source.ofString text).unmatched with u | _
    · obtain ⟨i, rfl, hi⟩ := firstExcess_of_unmatched h hu
      exact .inr ⟨i, hi, Source.lower_of_unmatched hu, evaluate_of_unmatched hu⟩
    · have hb := Source.checkBalance_eq_ok_iff.2 hu
      refine .inl ⟨Source.exists_lower hb, fun s fuel ends e f he hr => ?_⟩
      rcases kind_of_evaluate hb he hr with hk | hk <;> simp [Fault.isStructural, hk]
  · obtain ⟨b, -, hlast⟩ := h.last
    cases hlast with
    | gathered _ _ hopen => exact not_staysOpen_of_checkBalance hb hopen
  · obtain ⟨b, -, hlast⟩ := h.last
    cases hlast with
    | evaluated _ _ hclosed he =>
      exact ⟨(isClosed_iff _).2 hclosed, fun pos => evaluate_ne_unmatchedOpen hclosed he pos⟩

/-- As many loops are closed as are opened, though not in this order. -/
example : isClosed "]["
    ∧ (Source.ofString "][").checkBalance = .error (.unmatchedClose ⟨1, 1, 0⟩) :=
  ⟨by decide +kernel, by decide +kernel⟩

end Session

end TapeMachine
