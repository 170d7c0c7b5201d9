import Mathlib
import TapeMachine.Proofs.Jobs

/-!
# Cycles

A cycle begins with a load and ends with a run. Of all that a session did before, only its
configuration comes into it (`cycle_independent`), so a row of entries gives what each of them gives
alone. Which engine runs is not always the configured one: a program that was lowered since the load
is run even if the session was told to use the direct engine after that (`runAsConfigured_engine`).
-/

namespace TapeMachine.Session

variable {s s' : Session} {fuel : Nat} {ends : Endpoints}

/-! ## What comes into a cycle -/

/-- What an execution comes to, remarks apart. -/
structure Upshot where
  result : Except Failure Outcome
  ends : Endpoints
  source? : Option Source
  program? : Option Program

def Execution.upshot (e : Execution) : Upshot where
  result := e.response.result
  ends := e.ends
  source? := e.response.session.source?
  program? := e.response.session.program?

theorem compile_setShowListing (s : Session) (on : Bool) : (s.setShowListing on).compile
    = { s.compile with session := s.compile.session.setShowListing on } := by
  unfold compile setShowListing
  rcases s.source? with _ | source
  · rfl
  · rcases hl : source.lower with f | ⟨p, stats⟩ <;> simp only [hl]

theorem obtainProgram_setShowListing (s : Session) (on : Bool) :
    (s.setShowListing on).obtainProgram
      = { s.obtainProgram with session := s.obtainProgram.session.setShowListing on } := by
  have hp : (s.setShowListing on).program? = s.program? := rfl
  unfold obtainProgram
  rw [hp]
  rcases s.program? with _ | p
  · exact s.compile_setShowListing on
  · rfl

theorem job_setShowListing (s : Session) (on : Bool) (mode : Mode) :
    (s.setShowListing on).job mode = s.job mode := by
  cases mode with
  | direct => rfl
  | ir => simp only [job, obtainProgram_setShowListing]

theorem session_execute {mode : Mode} {e : Execution} (h : s.execute fuel mode ends = some e) :
    e.response.session = match mode with
      | .direct => s
      | .ir => s.obtainProgram.session := by
  cases mode with
  | direct =>
    simp only [execute] at h
    rcases hs : s.source? with _ | source <;> simp only [hs] at h
    · cases h
      rfl
    · obtain ⟨_, -, rfl⟩ := Option.map_eq_some_iff.1 h
      exact session_conclude ..
  | ir =>
    simp only [execute] at h
    rcases hobtain : s.obtainProgram with ⟨f | p, s', remarks⟩ <;> simp only [hobtain] at h
    · cases h
      rfl
    · obtain ⟨_, -, rfl⟩ := Option.map_eq_some_iff.1 h
      exact session_conclude ..

/-- Whether the listing is shown has no bearing on a run. -/
theorem upshot_execute_setShowListing (s : Session) (on : Bool) (fuel : Nat) (mode : Mode)
    (ends : Endpoints) : ((s.setShowListing on).execute fuel mode ends).map Execution.upshot
      = (s.execute fuel mode ends).map Execution.upshot := by
  -- both run the same job, so what is left to compare is the sessions
  have hreport : ((s.setShowListing on).execute fuel mode ends).map Execution.report
      = (s.execute fuel mode ends).map Execution.report := by
    rw [report_execute, report_execute, job_setShowListing]
    rfl
  rcases he : (s.setShowListing on).execute fuel mode ends with _ | e <;>
    rcases he' : s.execute fuel mode ends with _ | e' <;>
    simp only [he, he', Option.map_none, Option.map_some, reduceCtorEq] at hreport
  · rfl
  · have hs := session_execute he
    rw [obtainProgram_setShowListing] at hs
    have hs' := session_execute he'
    obtain ⟨hresult, hends⟩ := Prod.mk.inj (Option.some.inj hreport)
    simp only [Option.map_some, Execution.upshot, hresult, hends, hs, hs']
    cases mode <;> rfl

theorem upshot_runAsConfigured_setShowListing (s : Session) (on : Bool) (fuel : Nat)
    (ends : Endpoints) :
    ((s.setShowListing on).runAsConfigured fuel ends).map Execution.upshot
      = (s.runAsConfigured fuel ends).map Execution.upshot := by
  have hconfig : (s.setShowListing on).config = s.config := rfl
  have hremarks : ∀ (remarks : List Remark) (r : Option Execution), (r.map fun e =>
      { e with response := { e.response with remarks := remarks ++ e.response.remarks } }).map
        Execution.upshot = r.map Execution.upshot := by
    intro remarks r
    rw [Option.map_map]
    rfl
  unfold runAsConfigured
  rw [hconfig, compile_setShowListing]
  cases s.config.mode with
  | direct => exact upshot_execute_setShowListing ..
  | ir =>
    rcases s.compile with ⟨f | p, s', remarks⟩
    · rfl
    · simp only [hremarks]
      exact upshot_execute_setShowListing ..

/-! ## Entries -/

theorem upshot_evaluate (s : Session) (fuel : Nat) (text : String) (ends : Endpoints) :
    (s.evaluate fuel text ends).map Execution.upshot
      = ((s.loadText text).session.runAsConfigured fuel ends).map Execution.upshot := by
  simp only [evaluate, Option.map_map]
  rfl

theorem evaluate_congr (hc : s'.config = s.config) (hl : s'.showListing = s.showListing)
    (fuel : Nat) (text : String) (ends : Endpoints) :
    s'.evaluate fuel text ends = s.evaluate fuel text ends := by
  have hload : s'.loadText text = s.loadText text := by
    simp only [loadText, accept, hc, hl]
  simp only [evaluate, hload]

/-- An entry leaves the configuration as it was, whether it fails or not. -/
theorem evaluate_after {e : Execution} {text : String} (h : s.evaluate fuel text ends = some e)
    (fuel' : Nat) (text' : String) (ends' : Endpoints) :
    e.response.session.evaluate fuel' text' ends' = s.evaluate fuel' text' ends' := by
  obtain ⟨e', he', rfl⟩ := Option.map_eq_some_iff.1 h
  have hkept := runAsConfigured_kept (coherent_of_none rfl) he'
  exact evaluate_congr hkept.config hkept.showListing ..

/-- A program to load and run, with its endpoints. -/
structure Entry where
  fuel : Nat
  text : String
  ends : Endpoints

def enterOne (s : Session) (x : Entry) : Option Execution := s.evaluate x.fuel x.text x.ends

/-- Evaluates entries one after the other, each in the session that the one before it leaves. -/
def enterAll (s : Session) : List Entry → Option (List Execution)
  | [] => some []
  | x :: xs => (s.enterOne x).bind fun e => (e.response.session.enterAll xs).map (e :: ·)

theorem enterAll_eq_mapM : ∀ (xs : List Entry) (s : Session),
    s.enterAll xs = xs.mapM s.enterOne
  | [], s => rfl
  | x :: xs, s => by
    rw [List.mapM_cons, enterAll]
    rcases he : s.enterOne x with _ | e
    · rfl
    have hafter : e.response.session.enterOne = s.enterOne :=
      funext fun y => evaluate_after he y.fuel y.text y.ends
    rw [Option.bind_some, enterAll_eq_mapM xs, hafter]
    cases xs.mapM s.enterOne <;> rfl

/-- Whatever a session did before, to load a program and run it as configured comes to the same as
in a new session of the same configuration: the same result, the same calls on the endpoints, the
same source and program afterwards. So an entry depends on those before it by the configuration
alone, and in a row of entries, of which some may fail, each gives what it gives as the first. -/
theorem cycle_independent (s : Session) (fuel : Nat) (ends : Endpoints) :
    (∀ text, ((s.loadText text).session.runAsConfigured fuel ends).map Execution.upshot
      = ((({ config := s.config } : Session).loadText text).session.runAsConfigured fuel ends).map
        Execution.upshot)
      ∧ (∀ data, ((s.loadBytes data).session.runAsConfigured fuel ends).map Execution.upshot
        = ((({ config := s.config } : Session).loadBytes data).session.runAsConfigured fuel
          ends).map Execution.upshot)
      ∧ (∀ (s' : Session) (text : String), s'.config = s.config →
        (s'.evaluate fuel text ends).map Execution.upshot
          = (s.evaluate fuel text ends).map Execution.upshot)
      ∧ ∀ xs : List Entry, s.enterAll xs = xs.mapM s.enterOne := by
  refine ⟨fun text => ?_, fun data => ?_, fun s' text hc => ?_, fun xs => enterAll_eq_mapM xs s⟩
  · exact upshot_runAsConfigured_setShowListing
      (({ config := s.config } : Session).loadText text).session s.showListing fuel ends
  · exact upshot_runAsConfigured_setShowListing
      (({ config := s.config } : Session).loadBytes data).session s.showListing fuel ends
  · have hload : (s'.loadText text).session
        = (s.loadText text).session.setShowListing s'.showListing := by
      simp only [loadText, accept, hc, setShowListing]
    rw [upshot_evaluate, upshot_evaluate, hload]
    exact upshot_runAsConfigured_setShowListing ..

/-! ## The engine of a cycle -/

theorem report_execute_direct {source : Source} (hs : s.source? = some source) (fuel : Nat)
    (ends : Endpoints) : (s.execute fuel .direct ends).map Execution.report
      = (source.run fuel s.config ends).map settle := by
  simp only [report_execute, job, hs]
  rfl

theorem report_execute_ir {p : Program} (hp : s.program? = some p) (fuel : Nat)
    (ends : Endpoints) : (s.execute fuel .ir ends).map Execution.report
      = (p.run fuel s.config ends).map settle := by
  simp only [report_execute, job, obtainProgram, hp]
  rfl

theorem report_run_of_some {p : Program} (hp : s.program? = some p) (fuel : Nat)
    (ends : Endpoints) :
    (s.run fuel ends).map Execution.report = (p.run fuel s.config ends).map settle := by
  have hready : s.readyMode = .ir := by rw [readyMode, hp]; rfl
  rw [run, hready]
  exact report_execute_ir hp fuel ends

theorem report_run_of_none {source : Source} (hs : s.source? = some source)
    (hp : s.program? = none) (fuel : Nat) (ends : Endpoints) :
    (s.run fuel ends).map Execution.report = (source.run fuel s.config ends).map settle := by
  have hready : s.readyMode = .direct := by rw [readyMode, hp]; rfl
  rw [run, hready]
  exact report_execute_direct hs fuel ends

/-- Which engine runs as configured. A session that is to lower its source does so, and runs what it
gets. A session that is not to runs the source as long as it was not lowered since the load, and
from then on what it was lowered to. -/
theorem runAsConfigured_engine {source : Source} {p : Program} {stats : LoweringStats}
    (h : Reachable s) (hs : s.source? = some source) (hl : source.lower = .ok (p, stats))
    (fuel : Nat) (ends : Endpoints) :
    (s.config.mode = .ir → (s.runAsConfigured fuel ends).map Execution.report
        = (p.run fuel s.config ends).map settle)
      ∧ (s.config.mode = .direct → s.program? = none →
        (s.runAsConfigured fuel ends).map Execution.report
          = (source.run fuel s.config ends).map settle)
      ∧ (s.config.mode = .direct → s.program? ≠ none →
        (s.runAsConfigured fuel ends).map Execution.report
          = (p.run fuel s.config ends).map settle) := by
  refine ⟨fun hm => ?_, fun hm hp => ?_, fun hm hp => ?_⟩
  · have hcompile : s.compile = ⟨.ok p, { s with program? := some p },
        [.note (.loweringComplete stats)]⟩ := by
      simp only [compile, hs, hl]
    simp only [runAsConfigured, hm, hcompile, Option.map_map]
    exact report_run_of_some (s := { s with program? := some p }) rfl fuel ends
  · simp only [runAsConfigured, hm]
    exact report_run_of_none hs hp fuel ends
  · obtain ⟨q, hq⟩ := Option.ne_none_iff_exists'.1 hp
    obtain ⟨source', stats', hs', hl'⟩ := h.coherent q hq
    cases hs.symm.trans hs'
    cases hl.symm.trans hl'
    simp only [runAsConfigured, hm]
    exact report_run_of_some hq fuel ends

/-- Two increments, lowered before the session was told to use the direct engine. -/
theorem reachable_lowered : Reachable
    ⟨⟨1, .direct, by decide⟩, false, some ⟨#[43, 43]⟩, some ⟨#[⟨.act (.add 2), 0⟩]⟩⟩ := by
  have hloaded : Reachable ⟨⟨1, .ir, by decide⟩, false, some ⟨#[43, 43]⟩, none⟩ :=
    .step (.loadBytes #[43, 43]) (.new ⟨1, .ir, by decide⟩) rfl
  have hcompiled : Reachable
      ⟨⟨1, .ir, by decide⟩, false, some ⟨#[43, 43]⟩, some ⟨#[⟨.act (.add 2), 0⟩]⟩⟩ :=
    .step .compile hloaded (by decide +kernel)
  exact .step (.setMode .direct) hcompiled rfl

theorem runAsConfigured_engine_lowered :
    (⟨#[43, 43]⟩ : Source).lower = .ok (⟨#[⟨.act (.add 2), 0⟩]⟩, ⟨2, 1, 1, 0, 0⟩)
      ∧ (runAsConfigured ⟨⟨1, .direct, by decide⟩, false, some ⟨#[43, 43]⟩,
          some ⟨#[⟨.act (.add 2), 0⟩]⟩⟩ 2 (.ofBytes [])).map Execution.report
        = (Program.run ⟨#[⟨.act (.add 2), 0⟩]⟩ 2 ⟨1, .direct, by decide⟩ (.ofBytes [])).map
          settle := by
  have hl : (⟨#[43, 43]⟩ : Source).lower
      = .ok (⟨#[⟨.act (.add 2), 0⟩]⟩, ⟨2, 1, 1, 0, 0⟩) := by cbv
  have h := (runAsConfigured_engine reachable_lowered rfl hl 2 (.ofBytes [])).2.2
  exact ⟨hl, h rfl (by decide)⟩

/-- The direct engine takes two steps for two increments. A session that is to use it takes one, if
it lowered them before. -/
theorem direct_mode_runs_program :
    ((⟨#[43, 43]⟩ : Source).run 3 ⟨1, .direct, by decide⟩ (.ofBytes [])).map settle
        = some (.ok ⟨⟨#[2], 0, by decide⟩, 2, 0, 0⟩,
          ⟨⟨[.bytes []]⟩, { accepted := #[10] }, #[.flushed, .wrote 1, .flushed]⟩)
      ∧ ∃ s : Session, Reachable s ∧ s.config = ⟨1, .direct, by decide⟩
        ∧ s.source? = some ⟨#[43, 43]⟩
        ∧ (s.runAsConfigured 3 (.ofBytes [])).map Execution.report
          = some (.ok ⟨⟨#[2], 0, by decide⟩, 1, 0, 0⟩,
            ⟨⟨[.bytes []]⟩, { accepted := #[10] }, #[.flushed, .wrote 1, .flushed]⟩) :=
  ⟨by cbv, _, reachable_lowered, rfl, rfl, by cbv⟩

end TapeMachine.Session
