import TapeMachine.Benchmark.Basic
import TapeMachine.Proofs.Cycles
import TapeMachine.Proofs.Fuel
import TapeMachine.Proofs.PlainRuns

/-!
# The verdicts of benchmarks

A benchmark has the verdict of its direct run (`Benchmark.map_run`): the engines agree, and the sink
that it is given takes everything, so the outputs do not differ. It leaves no more behind than its
program, which the next load drops. So it may be run as often as one likes
(`Benchmark.map_runRepeatedly`), and a suite gives what each benchmark gives alone
(`Benchmark.map_runAll`).
-/

namespace TapeMachine

open Machine

namespace Benchmark

/-! ## Verdicts -/

/-- A result without its times. -/
structure Verdict where
  name : String
  description : String
  outputBytes : Nat
  success : Bool
  error? : Option String
deriving DecidableEq

def Result.verdict (r : Result) : Verdict :=
  ⟨r.name, r.description, r.outputBytes, r.success, r.error?⟩

variable (b : Benchmark)

def source : Source := .ofString b.code

/-- A result without its times, and the configuration afterwards. -/
def upshot (r : Result × Session) : Verdict × Config := (r.1.verdict, r.2.config)

/-- What is to be reported of a benchmark whose direct run comes to `c`. -/
def verdict (c : Completion) : Verdict :=
  match c.result with
  | .ok o => ⟨b.name, b.description, o.bytesWritten, true, none⟩
  | .error f => ⟨b.name, b.description, 0, false, some f.message⟩

/-- The direct run of a benchmark comes to an end, of which `v` is to be reported. -/
def Earns (config : Config) (v : Verdict) : Prop :=
  ∃ fuel c e, b.source.run fuel config b.ends = some (c, e) ∧ b.verdict c = v

/-- The verdict on the direct run, once the lowered program has come to its end too. -/
def trial (config : Config) (fuel : Nat) : Option Verdict :=
  (b.source.run fuel config b.ends).bind fun (c, _) =>
    match b.source.lower with
    | .ok (p, _) => (p.run fuel config b.ends).map fun _ => b.verdict c
    | .error _ => some (b.verdict c)

variable {b} {config : Config} {v : Verdict} {watch : Stopwatch Id} {fuel : Nat} {s : Session}

theorem trial_of_lower {p : Program} {stats : LoweringStats}
    (hl : b.source.lower = .ok (p, stats)) : b.trial config fuel
      = (b.source.run fuel config b.ends).bind fun r =>
        (p.run fuel config b.ends).map fun _ => b.verdict r.1 := by
  simp only [trial, hl]

theorem trial_of_lower_error {f : Fault} (hl : b.source.lower = .error f) :
    b.trial config fuel = some ⟨b.name, b.description, 0, false, some f.message⟩ := by
  have hrun := Source.run_of_not_balanced (Source.checkBalance_of_lower_error hl) fuel config b.ends
  simp only [trial, hl, hrun, Option.bind_some]
  rfl

theorem verdict_judge_same (out : Array UInt8) (directMs irMs : Float) :
    (b.judge (.ok out) (.ok out) directMs irMs).verdict
      = ⟨b.name, b.description, out.size - 1, true, none⟩ := by
  simp [judge, Result.verdict]

theorem report_direct (b : Benchmark) (s : Session) (fuel : Nat) :
    ((s.loadText b.code).session.execute fuel .direct b.ends).map Session.Execution.report
      = (b.source.run fuel s.config b.ends).map Session.settle :=
  Session.report_execute_direct rfl fuel b.ends

/-- The program of the session before is not run: it was dropped when the code was loaded. -/
theorem report_ir (b : Benchmark) (s : Session) (fuel : Nat) :
    ((s.loadText b.code).session.execute fuel .ir b.ends).map Session.Execution.report
      = match b.source.lower with
        | .ok (p, _) => (p.run fuel s.config b.ends).map Session.settle
        | .error f => some (.error (.program f), b.ends) := by
  have hjob : (s.loadText b.code).session.job .ir
      = match b.source.lower with
        | .ok (p, _) => .ok (.program p)
        | .error f => .error (.program f) := by
    simp only [Session.job, Session.obtainProgram, Session.loadText, Session.accept,
      Session.compile, source]
    rcases (Source.ofString b.code).lower with f | ⟨p, stats⟩ <;> rfl
  rw [Session.report_execute, hjob]
  rcases b.source.lower with f | ⟨p, stats⟩ <;> rfl

theorem output_of_report {x : Session.Execution} {r : Except Session.Failure Outcome}
    {e : Endpoints} (h : x.report = (r, e)) : output x = r.map fun _ => e.sink.accepted := by
  obtain ⟨rfl, rfl⟩ := Prod.mk.inj h
  rfl

/-- A failure of the direct engine is the verdict, whatever the other engine does. -/
theorem verdict_judge_failed {c : Completion} {e : Endpoints} {f : Fault}
    (hc : c.result = .error f) {direct : Session.Execution}
    (hd : direct.report = Session.settle (c, e)) (ir : Except Session.Failure (Array UInt8))
    (directMs irMs : Float) :
    (b.judge (output direct) ir directMs irMs).verdict = b.verdict c := by
  simp only [Session.settle, hc] at hd
  simp only [output_of_report hd, verdict, hc]
  rfl

/-- The executions of a benchmark are judged by the direct run alone. -/
theorem verdict_judge {p : Program} {stats : LoweringStats} (hb : b.source.size ≤ wordMax)
    (hl : b.source.lower = .ok (p, stats)) {c c' : Completion} {e e' : Endpoints}
    (h : b.source.run fuel config b.ends = some (c, e))
    (h' : p.run fuel config b.ends = some (c', e')) {direct ir : Session.Execution}
    (hd : direct.report = Session.settle (c, e)) (hi : ir.report = Session.settle (c', e'))
    (directMs irMs : Float) :
    (b.judge (output direct) (output ir) directMs irMs).verdict = b.verdict c := by
  obtain ⟨hagrees, rfl⟩ := (Source.lowered_agrees hb hl config b.ends).2 _ _ _ _ _ _ h h'
  cases c with
  | finished o =>
    cases c' with
    | finished o' =>
      obtain ⟨d, hline, hsize⟩ := Job.endLine_of_finished (j := .source b.source) h
      simp only [Session.settle, Completion.result, hline] at hd hi
      rw [output_of_report hd, output_of_report hi]
      refine (verdict_judge_same _ _ _).trans ?_
      simp [verdict, Completion.result, hsize]
    | _ => cases hagrees
  | aborted f n => exact verdict_judge_failed rfl hd _ _ _
  | undelivered f => exact verdict_judge_failed rfl hd _ _ _

/-! ## One benchmark -/

section Watched

variable (hw : watch.Fair)
include hw

/-- Both engines run in the session that the load left. -/
theorem run_eq (b : Benchmark) (fuel : Nat) (s : Session) : ∃ directMs irMs,
    (b.run watch fuel s).run
      = ((s.loadText b.code).session.execute fuel .direct b.ends).bind fun direct =>
        ((s.loadText b.code).session.execute fuel .ir b.ends).map fun ir =>
          (b.judge (output direct) (output ir) directMs irMs, ir.response.session) := by
  have hdirect := hw _ fun _ => (s.loadText b.code).session.execute fuel .direct b.ends
  have hir := hw _ fun _ => (s.loadText b.code).session.execute fuel .ir b.ends
  refine ⟨(watch.time fun _ => (s.loadText b.code).session.execute fuel .direct b.ends).2,
    (watch.time fun _ => (s.loadText b.code).session.execute fuel .ir b.ends).2, ?_⟩
  simp only [run, bind, pure, Id.run]
  rcases htime : watch.time fun _ => (s.loadText b.code).session.execute fuel .direct b.ends
    with ⟨direct?, directMs⟩
  rw [htime] at hdirect
  rw [← hdirect]
  rcases direct? with _ | direct
  · rfl
  have hsession : direct.response.session = (s.loadText b.code).session :=
    Session.session_execute hdirect.symm
  simp only [hsession, Option.bind_some]
  rcases htime : watch.time fun _ => (s.loadText b.code).session.execute fuel .ir b.ends
    with ⟨ir?, irMs⟩
  rw [htime] at hir
  rw [← hir]
  rcases ir? with _ | ir
  · rfl
  · rfl

/-- A benchmark has the verdict of its trial, and leaves the configuration as it was. -/
theorem map_run (hb : b.source.size ≤ wordMax) (fuel : Nat) (s : Session) :
    (b.run watch fuel s).run.map upshot = (b.trial s.config fuel).map (·, s.config) := by
  obtain ⟨directMs, irMs, hrun⟩ := run_eq hw b fuel s
  have hdirect := b.report_direct s fuel
  have hir := b.report_ir s fuel
  rw [hrun]
  rcases hl : b.source.lower with f | ⟨p, stats⟩ <;> rw [hl] at hir
  · have hd := Source.run_of_not_balanced (Source.checkBalance_of_lower_error hl) fuel s.config
      b.ends
    rw [hd] at hdirect
    obtain ⟨direct, hexec, hreport⟩ := Option.map_eq_some_iff.1 hdirect
    obtain ⟨ir, hexec', -⟩ := Option.map_eq_some_iff.1 hir
    have hkept := (Session.execute_kept hexec').config
    have hfailed := verdict_judge_failed (b := b) rfl hreport (output ir) directMs irMs
    rw [trial_of_lower_error hl, hexec, hexec']
    simp only [Option.bind_some, Option.map_some, upshot, hfailed, hkept]
    rfl
  · rw [trial_of_lower hl]
    rcases hd : b.source.run fuel s.config b.ends with _ | ⟨c, e⟩ <;> rw [hd] at hdirect
    · rw [Option.map_eq_none_iff.1 hdirect]
      rfl
    rcases hi : p.run fuel s.config b.ends with _ | ⟨c', e'⟩ <;> simp only [hi] at hir
    · rw [Option.map_eq_none_iff.1 hir]
      simp
    obtain ⟨direct, hexec, hreport⟩ := Option.map_eq_some_iff.1 hdirect
    obtain ⟨ir, hexec', hreport'⟩ := Option.map_eq_some_iff.1 hir
    have hkept := (Session.execute_kept hexec').config
    have hjudge := verdict_judge hb hl hd hi hreport hreport' directMs irMs
    rw [hexec, hexec']
    simp only [Option.bind_some, Option.map_some, upshot, hjudge, hkept]
    rfl

theorem map_runMore (hb : b.source.size ≤ wordMax) (hv : b.trial config fuel = some v) :
    ∀ (more done : Nat) (directTotal irTotal : Float) (last : Result) (s : Session),
      last.verdict = v → s.config = config →
      (b.runMore watch fuel done directTotal irTotal last s more).run.map upshot
        = some (v, config)
  | 0, done, directTotal, irTotal, last, s, hlast, hs => by
    subst hlast hs
    unfold runMore
    split <;> rfl
  | more + 1, done, directTotal, irTotal, last, s, hlast, hs => by
    unfold runMore
    split
    · have hrun := map_run hw hb fuel s
      rw [hs, hv] at hrun
      obtain ⟨⟨next, s'⟩, hnext, hup⟩ := Option.map_eq_some_iff.1 hrun
      obtain ⟨hverdict, hconfig⟩ := Prod.mk.inj hup
      simp only [Id.run] at hnext
      simp only [bind, Id.run, hnext]
      exact map_runMore hb hv more _ _ _ next s' hverdict hconfig
    · subst hlast hs
      rfl

/-- To run a benchmark often is to run it once, times apart. -/
theorem map_runRepeatedly (hb : b.source.size ≤ wordMax) (n fuel : Nat) (s : Session) :
    (b.runRepeatedly watch fuel n s).run.map upshot
      = (b.trial s.config fuel).map (·, s.config) := by
  have hrun := map_run hw hb fuel s
  rcases hv : b.trial s.config fuel with _ | v <;> rw [hv] at hrun
  · have hnone := Option.map_eq_none_iff.1 hrun
    simp only [Id.run] at hnone
    simp only [runRepeatedly, bind, pure, Id.run, hnone]
    rfl
  · obtain ⟨⟨first, s'⟩, hfirst, hup⟩ := Option.map_eq_some_iff.1 hrun
    obtain ⟨hverdict, hconfig⟩ := Prod.mk.inj hup
    simp only [Id.run] at hfirst
    simp only [runRepeatedly, bind, Id.run, hfirst]
    exact map_runMore hw hb hv _ _ _ _ first s' hverdict hconfig

end Watched

/-! ## Suites -/

/-- What is so for one benchmark is so for a row of them, as each leaves the next one the
configuration with which it began. -/
theorem map_runAll {one : Benchmark → Session → Id (Option (Result × Session))} :
    ∀ {l : List Benchmark}, (∀ b ∈ l, ∀ s,
      (one b s).run.map upshot = (b.trial s.config fuel).map (·, s.config)) → ∀ s,
    (runAll one s l).run.map (fun r => (r.1.map Result.verdict, r.2.config))
      = (l.mapM fun b : Benchmark => b.trial s.config fuel).map (·, s.config)
  | [], _, s => rfl
  | b :: l, hone, s => by
    have hb := hone b List.mem_cons_self s
    rw [List.mapM_cons]
    rcases hv : b.trial s.config fuel with _ | v <;> rw [hv] at hb
    · have hnone := Option.map_eq_none_iff.1 hb
      simp only [Id.run] at hnone
      simp only [runAll, bind, Id.run, hnone]
      rfl
    obtain ⟨⟨r, s'⟩, hr, hup⟩ := Option.map_eq_some_iff.1 hb
    obtain ⟨hverdict, hconfig⟩ := Prod.mk.inj hup
    have ih := map_runAll (fun b hb => hone b (List.mem_cons_of_mem _ hb)) s'
    simp only [show s'.config = s.config from hconfig] at ih
    simp only [Id.run] at hr ih
    simp only [runAll, bind, Id.run, hr]
    rcases hrest : runAll one s' l with _ | ⟨results, s₁⟩ <;> rw [hrest] at ih
    · rw [Option.map_eq_none_iff.1 ih.symm]
      rfl
    · obtain ⟨vs, hvs, hup'⟩ := Option.map_eq_some_iff.1 ih.symm
      obtain ⟨rfl, hconfig'⟩ := Prod.mk.inj hup'
      rw [hvs]
      subst hverdict
      exact congrArg (fun config => some (_, config)) hconfig'.symm

/-! ## Verdicts and direct runs -/

theorem lasting_trial (b : Benchmark) (config : Config) : Lasting (b.trial config) := by
  rcases hl : b.source.lower with f | ⟨p, stats⟩
  · have htrial : b.trial config = fun _ => _ := funext fun _ => trial_of_lower_error hl
    rw [htrial]
    exact .const _
  · have htrial : b.trial config = fun fuel => _ := funext fun _ => trial_of_lower hl
    rw [htrial]
    exact ((Job.source b.source).lasting_run config b.ends).bind fun r =>
      ((Job.program p).lasting_run config b.ends).map fun _ => b.verdict r.1

/-- A trial comes to an end if the direct run does. -/
theorem exists_trial_iff (hb : b.source.size ≤ wordMax) (config : Config) (v : Verdict) :
    (∃ fuel, b.trial config fuel = some v) ↔ b.Earns config v := by
  rcases hl : b.source.lower with f | ⟨p, stats⟩
  · have hrun := fun fuel => Source.run_of_not_balanced (Source.checkBalance_of_lower_error hl) fuel
      config b.ends
    constructor
    · rintro ⟨fuel, hv⟩
      rw [trial_of_lower_error hl] at hv
      exact ⟨fuel, _, _, hrun fuel, Option.some.inj hv⟩
    · rintro ⟨fuel, c, e, hd, rfl⟩
      rw [hrun fuel] at hd
      cases hd
      exact ⟨fuel, trial_of_lower_error hl⟩
  · have hends := (Source.lowered_agrees hb hl config b.ends).1
    constructor
    · rintro ⟨fuel, hv⟩
      rw [trial_of_lower hl] at hv
      obtain ⟨⟨c, e⟩, hd, hv⟩ := Option.bind_eq_some_iff.1 hv
      obtain ⟨-, -, rfl⟩ := Option.map_eq_some_iff.1 hv
      exact ⟨fuel, c, e, hd, rfl⟩
    · rintro ⟨fuel, c, e, hd, rfl⟩
      obtain ⟨fuel', r, hi⟩ := hends.1 ⟨fuel, _, hd⟩
      have hd := (Job.source b.source).lasting_run config b.ends _ _ hd _ (Nat.le_max_left _ fuel')
      have hi := (Job.program p).lasting_run config b.ends _ _ hi _ (Nat.le_max_right fuel _)
      refine ⟨max fuel fuel', ?_⟩
      rw [trial_of_lower hl]
      exact Option.bind_eq_some_iff.2 ⟨_, hd, Option.map_eq_some_iff.2 ⟨_, hi, rfl⟩⟩

/-- Only the size of the tape comes into a trial. -/
theorem trial_congr {config config' : Config} (h : config'.heapSize = config.heapSize)
    (b : Benchmark) (fuel : Nat) : b.trial config' fuel = b.trial config fuel := by
  obtain ⟨size, mode, hsize⟩ := config
  obtain ⟨size', mode', hsize'⟩ := config'
  cases h
  rfl

theorem head?_append {text rest : String} {c : Char} (h : text.toList.head? = some c) :
    (text ++ rest).toList.head? = some c := by
  rw [String.toList_append, List.head?_append, h, Option.some_or]

theorem head?_differing (direct ir : Array UInt8) :
    (differing direct ir).toList.head? = some 'o' := by
  unfold differing
  repeat apply head?_append
  decide +kernel

theorem head?_message (f : Fault) : ∃ c, f.message.toList.head? = some c ∧ c ≠ 'o' := by
  cases f with
  | unmatchedOpen p => exact ⟨'u', head?_append (by decide +kernel), by decide⟩
  | unmatchedClose p => exact ⟨'u', head?_append (by decide +kernel), by decide⟩
  | outOfTape i size =>
    refine ⟨'h', ?_, by decide⟩
    unfold Fault.message
    repeat apply head?_append
    decide +kernel
  | io f => exact ⟨'I', head?_append (by decide +kernel), by decide⟩
  | emptyTape => exact ⟨'i', by decide +kernel, by decide⟩
  | noProgram => exact ⟨'n', by decide +kernel, by decide⟩

/-- No fault is told in the words in which a difference is. -/
theorem Earns.ne_differing (h : b.Earns config v) (direct ir : Array UInt8) :
    v.error? ≠ some (differing direct ir) := by
  obtain ⟨fuel, c, e, -, rfl⟩ := h
  unfold verdict
  rcases c.result with f | o
  · obtain ⟨c, hc, hne⟩ := head?_message f
    intro hf
    rw [Option.some.inj hf, head?_differing] at hc
    exact hne (Option.some.inj hc).symm
  · exact nofun

/-- With enough fuel the result has this verdict. -/
def Gives (run : Nat → Id (Option (Result × Session))) (v : Verdict) : Prop :=
  ∃ fuel r, (run fuel).run = some r ∧ r.1.verdict = v

theorem exists_iff_of_map {α β γ : Type} {run : Nat → Option α} {f : α → β × γ}
    {g : Nat → Option β} {k : γ} (h : ∀ n, (run n).map f = (g n).map (·, k)) (x : β) :
    (∃ n r, run n = some r ∧ (f r).1 = x) ↔ ∃ n, g n = some x := by
  constructor
  · rintro ⟨n, r, hr, rfl⟩
    have hn := h n
    rw [hr] at hn
    obtain ⟨y, hy, hf⟩ := Option.map_eq_some_iff.1 hn.symm
    exact ⟨n, by rw [hy, ← hf]⟩
  · rintro ⟨n, hx⟩
    have hn := h n
    rw [hx] at hn
    obtain ⟨r, hr, hf⟩ := Option.map_eq_some_iff.1 hn
    exact ⟨n, r, hr, congrArg Prod.fst hf⟩

theorem gives_iff {run : Nat → Id (Option (Result × Session))}
    (h : ∀ fuel, (run fuel).run.map upshot = (b.trial config fuel).map (·, config)) (v : Verdict) :
    Gives run v ↔ ∃ fuel, b.trial config fuel = some v :=
  exists_iff_of_map h v

theorem runAll_gives_iff {one : Nat → Benchmark → Session → Id (Option (Result × Session))}
    {l : List Benchmark} {s fresh : Session}
    (hone : ∀ fuel, ∀ b ∈ l, ∀ s, (one fuel b s).run.map upshot
      = (b.trial s.config fuel).map (·, s.config))
    (hfresh : fresh.config.heapSize = s.config.heapSize) (vs : List Verdict) :
    (∃ fuel r, (runAll (one fuel) s l).run = some r ∧ r.1.map Result.verdict = vs)
      ↔ List.Forall₂ (fun b v => Gives (one · b fresh) v) l vs := by
  rw [← Lasting.exists_mapM (f := fun b => b.trial s.config) (fun b _ => lasting_trial b s.config)]
  · exact exists_iff_of_map (fun fuel => map_runAll (hone fuel) s) vs
  · intro b hb v
    rw [gives_iff (fun fuel => hone fuel b hb fresh)]
    simp only [trial_congr hfresh]

end Benchmark

/-- A benchmark is judged by its direct run, however often it is run and whatever the session did
before, and its outputs never differ. A suite gives what each benchmark gives alone, in any session
with a tape of the same size. -/
theorem benchmark_verdicts {watch : Stopwatch Id} (hw : watch.Fair) (s : Session) :
    (∀ b : Benchmark, b.source.size ≤ wordMax →
      (∀ v, Benchmark.Gives (b.run watch · s) v ↔ b.Earns s.config v)
      ∧ (∀ n v, Benchmark.Gives (b.runRepeatedly watch · n s) v ↔ b.Earns s.config v)
      ∧ ∀ fuel r, (b.run watch fuel s).run = some r →
        ∀ direct ir, r.1.error? ≠ some (Benchmark.differing direct ir))
    ∧ ∀ suite : Suite, (∀ b ∈ suite.benchmarks, b.source.size ≤ wordMax) →
      ∀ fresh : Session, fresh.config.heapSize = s.config.heapSize → ∀ vs,
      ((∃ fuel r, (suite.run watch fuel s).run = some r ∧ r.1.map (·.verdict) = vs)
        ↔ List.Forall₂ (fun b v => Benchmark.Gives (b.run watch · fresh) v) suite.benchmarks vs)
      ∧ ∀ n, (∃ fuel r, (suite.runRepeatedly watch fuel n s).run = some r
          ∧ r.1.map (·.verdict) = vs)
        ↔ List.Forall₂ (fun b v => Benchmark.Gives (b.runRepeatedly watch · n fresh) v)
          suite.benchmarks vs := by
  refine ⟨fun b hb => ⟨fun v => ?_, fun n v => ?_, fun fuel r hr => ?_⟩,
    fun suite hsuite fresh hfresh vs => ⟨?_, fun n => ?_⟩⟩
  · rw [Benchmark.gives_iff fun fuel => Benchmark.map_run hw hb fuel s]
    exact Benchmark.exists_trial_iff hb s.config v
  · rw [Benchmark.gives_iff fun fuel => Benchmark.map_runRepeatedly hw hb n fuel s]
    exact Benchmark.exists_trial_iff hb s.config v
  · have hgives := (Benchmark.gives_iff (fun fuel => Benchmark.map_run hw hb fuel s) _).1
      ⟨fuel, r, hr, rfl⟩
    exact ((Benchmark.exists_trial_iff hb s.config _).1 hgives).ne_differing
  · exact Benchmark.runAll_gives_iff
      (fun fuel b hb s => Benchmark.map_run hw (hsuite b hb) fuel s) hfresh vs
  · exact Benchmark.runAll_gives_iff
      (fun fuel b hb s => Benchmark.map_runRepeatedly hw (hsuite b hb) n fuel s) hfresh vs

/-- A suite of a benchmark that goes well and one that leaves the tape, each repeated no time. -/
theorem benchmark_verdicts_two : (Stopwatch.stopped 0).Fair
    ∧ (∀ b ∈ [(⟨"one", "", "+.", []⟩ : Benchmark), ⟨"two", "", ">", []⟩],
      b.source.size ≤ wordMax)
    ∧ ∃ fuel r, (Suite.runRepeatedly ⟨"both", [⟨"one", "", "+.", []⟩, ⟨"two", "", ">", []⟩]⟩
        (.stopped 0) fuel 0 { config := ⟨1, .ir, by decide⟩ }).run = some r
      ∧ r.1.map (·.verdict) = [⟨"one", "", 1, true, none⟩,
        ⟨"two", "", 0, false, some (Fault.outOfTape 1 1).message⟩] := by
  have hfair := Stopwatch.fair_stopped 0
  have hsize : ∀ b ∈ [(⟨"one", "", "+.", []⟩ : Benchmark), ⟨"two", "", ">", []⟩],
      b.source.size ≤ wordMax := by
    decide +kernel
  have hone : (⟨"one", "", "+.", []⟩ : Benchmark).Earns ⟨1, .ir, by decide⟩
      ⟨"one", "", 1, true, none⟩ :=
    ⟨3, .finished ⟨⟨#[1], 0, by decide⟩, 2, 0, 1⟩, _, by cbv, rfl⟩
  have htwo : (⟨"two", "", ">", []⟩ : Benchmark).Earns ⟨1, .ir, by decide⟩
      ⟨"two", "", 0, false, some (Fault.outOfTape 1 1).message⟩ :=
    ⟨1, .aborted (.outOfTape 1 1) 1, _, by cbv, rfl⟩
  obtain ⟨heach, hsuite⟩ := benchmark_verdicts hfair { config := ⟨1, .ir, by decide⟩ }
  have hboth := hsuite ⟨"both", _⟩ hsize { config := ⟨1, .ir, by decide⟩ } rfl
  refine ⟨hfair, hsize, ((hboth _).2 0).2 ?_⟩
  exact .cons (((heach _ (hsize _ (by simp))).2.1 0 _).2 hone)
    (.cons (((heach _ (hsize _ (by simp))).2.1 0 _).2 htwo) .nil)

end TapeMachine
