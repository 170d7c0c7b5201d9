import TapeMachine.Proofs.Cycles
import TapeMachine.Proofs.Takings

/-!
# Either mode

Of a run it is seen whether it went well, what it left to read and what the sink took of its output.
A program that was just loaded comes in either mode to the same sight, or in both to no end: what is
seen is that of the direct engine (`sight_runAsConfigured`). Lowering that fails touches no
endpoint, and the direct engine, which fails as early, only flushes the sink.
-/

namespace TapeMachine

/-- Of the configuration, a run looks at the size of the tape only. -/
theorem Source.run_congr {config config' : Config} (h : config'.heapSize = config.heapSize)
    (source : Source) (fuel : Nat) (ends : Endpoints) :
    source.run fuel config' ends = source.run fuel config ends := by
  obtain ⟨size, mode, hsize⟩ := config
  obtain ⟨size', mode', hsize'⟩ := config'
  cases h
  rfl

namespace Session

/-- What is seen of a run from outside. -/
structure Sight where
  well : Bool
  reader : Reader
  accepted : Array UInt8

def sight (r : Except Failure Outcome × Endpoints) : Sight :=
  ⟨r.1.isOk, r.2.reader, r.2.sink.accepted⟩

theorem sight_settle_of_agrees {c c' : Completion} (h : c.Agrees c') (ends : Endpoints) :
    sight (settle (c, ends)) = sight (settle (c', ends)) := by
  rcases c with o | ⟨f, n⟩ | f <;> rcases c' with o' | ⟨f', n'⟩ | f' <;>
    simp only [Completion.Agrees] at h
  · simp only [settle, Completion.result]
    rcases endLine ends with ⟨_ | f, ends'⟩ <;> rfl
  · rfl
  · rfl

/-- A program that fails at once is seen as one that was not run. -/
theorem sight_settle_aborted (f : Fault) (ends : Endpoints) :
    sight (settle (.aborted f 0, ends.flushSink.2)) = sight (.error (.program f), ends) := by
  obtain ⟨hreader, haccepted, -⟩ := ends.flushSink_eq
  exact congrArg₂ (Sight.mk false) hreader haccepted

/-! ## Loaded sessions -/

variable {s : Session} {source : Source}

theorem report_runAsConfigured_direct (hm : s.config.mode = .direct) (hs : s.source? = some source)
    (hp : s.program? = none) (fuel : Nat) (ends : Endpoints) :
    (s.runAsConfigured fuel ends).map Execution.report
      = (source.run fuel s.config ends).map settle := by
  simp only [runAsConfigured, hm]
  exact report_run_of_none hs hp fuel ends

theorem report_runAsConfigured_ir {p : Program} {stats : LoweringStats}
    (hm : s.config.mode = .ir) (hs : s.source? = some source) (hl : source.lower = .ok (p, stats))
    (fuel : Nat) (ends : Endpoints) : (s.runAsConfigured fuel ends).map Execution.report
      = (p.run fuel s.config ends).map settle := by
  simp only [runAsConfigured, hm, compile, hs, hl, Option.map_map]
  exact report_run_of_some (s := { s with source? := some source, program? := some p }) rfl fuel
    ends

theorem report_runAsConfigured_ir_error {f : Fault} (hm : s.config.mode = .ir)
    (hs : s.source? = some source) (hl : source.lower = .error f) (fuel : Nat) (ends : Endpoints) :
    (s.runAsConfigured fuel ends).map Execution.report = some (.error (.program f), ends) := by
  simp only [runAsConfigured, hm, compile, hs, hl]
  rfl

/-- A source that was just loaded is run as what it is in the mode. -/
theorem report_runAsConfigured_of_balanced (hs : s.source? = some source) (hp : s.program? = none)
    (hc : source.checkBalance = .ok ()) : ∃ j : Job, source.job s.config.mode = .ok j ∧ j.Balanced
      ∧ ∀ fuel ends, (s.runAsConfigured fuel ends).map Execution.report
        = (j.run fuel s.config ends).map settle := by
  cases hm : s.config.mode with
  | direct => exact ⟨.source source, rfl, hc, report_runAsConfigured_direct hm hs hp⟩
  | ir =>
    obtain ⟨p, stats, hl⟩ := Source.exists_lower hc
    refine ⟨.program p, ?_, trivial, report_runAsConfigured_ir hm hs hl⟩
    rw [Source.job, hl]
    rfl

/-- A source whose brackets do not match is rejected in either mode, and nothing is read or
written. -/
theorem report_runAsConfigured_of_not_balanced {f : Fault} (hs : s.source? = some source)
    (hp : s.program? = none) (hc : source.checkBalance = .error f) (fuel : Nat)
    (ends : Endpoints) : ∃ ends', (s.runAsConfigured fuel ends).map Execution.report
        = some (.error (.program f), ends')
      ∧ ends'.reader = ends.reader ∧ ends'.sink.accepted = ends.sink.accepted := by
  cases hm : s.config.mode with
  | direct =>
    obtain ⟨hreader, haccepted, -⟩ := ends.flushSink_eq
    refine ⟨ends.flushSink.2, ?_, hreader, haccepted⟩
    rw [report_runAsConfigured_direct hm hs hp, Source.run_of_not_balanced hc]
    rfl
  | ir =>
    have hl := Source.lower_of_not_balanced hc
    exact ⟨ends, report_runAsConfigured_ir_error hm hs hl fuel ends, rfl, rfl⟩

/-- Both engines come to the same sight. -/
theorem sight_lowered {p : Program} {stats : LoweringStats} (hsize : source.size ≤ wordMax)
    (hl : source.lower = .ok (p, stats)) (config : Config) (ends : Endpoints) (v : Sight) :
    (∃ fuel, ((p.run fuel config ends).map settle).map sight = some v)
      ↔ ∃ fuel, ((source.run fuel config ends).map settle).map sight = some v := by
  obtain ⟨hends, hagree⟩ := Source.lowered_agrees hsize hl config ends
  -- the sight of any two ends is the same, so it is enough that both come to one
  have hsame : ∀ {fuel fuel' r r'}, source.run fuel config ends = some r →
      p.run fuel' config ends = some r' → sight (settle r) = sight (settle r') := by
    rintro fuel fuel' ⟨c, e⟩ ⟨c', e'⟩ h h'
    obtain ⟨hc, rfl⟩ := hagree fuel fuel' c c' e e' h h'
    exact sight_settle_of_agrees hc e
  simp only [Option.map_map, Option.map_eq_some_iff]
  constructor
  · rintro ⟨fuel', r', h', rfl⟩
    obtain ⟨fuel, r, h⟩ := hends.2 ⟨fuel', r', h'⟩
    exact ⟨fuel, r, h, hsame h h'⟩
  · rintro ⟨fuel, r, h, rfl⟩
    obtain ⟨fuel', r', h'⟩ := hends.1 ⟨fuel, r, h⟩
    exact ⟨fuel', r', h', (hsame h h').symm⟩

/-- In either mode, what is seen of a program that was just loaded is what is seen of the direct
engine. -/
theorem sight_runAsConfigured (hsize : source.size ≤ wordMax) (hs : s.source? = some source)
    (hp : s.program? = none) (ends : Endpoints) (v : Sight) :
    (∃ fuel, ((s.runAsConfigured fuel ends).map Execution.report).map sight = some v)
      ↔ ∃ fuel, ((source.run fuel s.config ends).map settle).map sight = some v := by
  cases hm : s.config.mode with
  | direct => simp only [report_runAsConfigured_direct hm hs hp]
  | ir =>
    rcases hl : source.lower with f | ⟨p, stats⟩
    · have hc := Source.checkBalance_of_lower_error hl
      have hrun := fun fuel => Source.run_of_not_balanced hc fuel s.config ends
      simp only [report_runAsConfigured_ir_error hm hs hl, hrun, Option.map_some,
        sight_settle_aborted]
    · simp only [report_runAsConfigured_ir hm hs hl]
      exact sight_lowered hsize hl s.config ends v

/-- Two sessions that were just given the same program, and have tapes of the same size. -/
theorem sight_congr {s' : Session} (hsize : source.size ≤ wordMax) (hs : s.source? = some source)
    (hp : s.program? = none) (hs' : s'.source? = some source) (hp' : s'.program? = none)
    (hheap : s'.config.heapSize = s.config.heapSize) {fuel : Nat} {ends : Endpoints} {e : Execution}
    (h : s.runAsConfigured fuel ends = some e) : ∃ fuel' e',
      s'.runAsConfigured fuel' ends = some e' ∧ sight e'.report = sight e.report := by
  have hv := (sight_runAsConfigured hsize hs hp ends (sight e.report)).1
    ⟨fuel, by rw [h, Option.map_some, Option.map_some]⟩
  simp only [← Source.run_congr hheap] at hv
  obtain ⟨fuel', hv'⟩ := (sight_runAsConfigured hsize hs' hp' ends (sight e.report)).2 hv
  rw [Option.map_map] at hv'
  obtain ⟨e', he', hsight⟩ := Option.map_eq_some_iff.1 hv'
  exact ⟨fuel', e', he', hsight⟩

end Session

end TapeMachine
