import TapeMachine.Session.Command
import TapeMachine.Session.Execute

/-!
# The program of a session

A session may keep a program, and runs it without a look at the source. Whatever was asked of a
session before, and whether it went well or not, the program is the one that its source is lowered
to (`Session.cache_coherent`): a load drops it, and a compilation that fails leaves none.
-/

namespace TapeMachine.Session

/-- What a session is asked to do. A run may take as many steps as its `fuel`. -/
inductive Request where
  | loadText (text : String)
  | loadBytes (data : Array UInt8)
  | loadReader (reader : Reader)
  | loadFile (read : FileReader) (path : String)
  | compile
  | execute (fuel : Nat) (mode : Mode) (ends : Endpoints)
  | run (fuel : Nat) (ends : Endpoints)
  | runAsConfigured (fuel : Nat) (ends : Endpoints)
  | evaluate (fuel : Nat) (text : String) (ends : Endpoints)
  | setHeapSize (heapSize : Nat)
  | setMode (mode : Mode)
  | setShowListing (on : Bool)
  | obey (text : String)

def afterSetHeapSize (s : Session) (heapSize : Nat) : Session :=
  match s.setHeapSize heapSize with
  | .ok s' => s'
  | .error _ => s

/-- The session after a request, if that comes to an end. -/
def handle (s : Session) : Request → Option Session
  | .loadText text => some (s.loadText text).session
  | .loadBytes data => some (s.loadBytes data).session
  | .loadReader reader => some (s.loadReader reader).session
  | .loadFile read path => some (s.loadFile read path).session
  | .compile => some s.compile.session
  | .execute fuel mode ends => (s.execute fuel mode ends).map (·.response.session)
  | .run fuel ends => (s.run fuel ends).map (·.response.session)
  | .runAsConfigured fuel ends => (s.runAsConfigured fuel ends).map (·.response.session)
  | .evaluate fuel text ends => (s.evaluate fuel text ends).map (·.response.session)
  | .setHeapSize heapSize => some (s.afterSetHeapSize heapSize)
  | .setMode mode => some (s.setMode mode)
  | .setShowListing on => some (s.setShowListing on)
  | .obey text => some (s.obey text).session

inductive Reachable : Session → Prop where
  | new (config : Config) : Reachable { config }
  | step {s s' : Session} (r : Request) : Reachable s → s.handle r = some s' → Reachable s'

/-- `p` is what the source is lowered to. -/
def Lowers (s : Session) (p : Program) : Prop :=
  ∃ source stats, s.source? = some source ∧ source.lower = .ok (p, stats)

def Coherent (s : Session) : Prop := ∀ p, s.program? = some p → s.Lowers p

/-- A run leaves all as it was, but for the program, which it may have lowered. -/
structure Kept (s s' : Session) : Prop where
  config : s'.config = s.config
  showListing : s'.showListing = s.showListing
  source : s'.source? = s.source?
  program : s'.program? = s.program? ∨ ∃ p, s'.program? = some p ∧ s.Lowers p

variable {s s' s'' : Session}

theorem Lowers.congr {p : Program} (h : s.Lowers p) (hs : s'.source? = s.source?) :
    s'.Lowers p := by
  rwa [Lowers, hs]

theorem Coherent.congr (h : s.Coherent) (hs : s'.source? = s.source?)
    (hp : s'.program? = s.program?) : s'.Coherent :=
  fun p hp' => (h p (hp ▸ hp')).congr hs

theorem coherent_of_none (h : s.program? = none) : s.Coherent := by
  intro p hp
  rw [h] at hp
  cases hp

namespace Kept

theorem refl (s : Session) : Kept s s := ⟨rfl, rfl, rfl, .inl rfl⟩

theorem trans (h : Kept s s') (h' : Kept s' s'') : Kept s s'' where
  config := h'.config.trans h.config
  showListing := h'.showListing.trans h.showListing
  source := h'.source.trans h.source
  program := by
    rcases h'.program with hp | ⟨p, hp, hl⟩
    · rw [hp]
      exact h.program
    · exact .inr ⟨p, hp, hl.congr h.source.symm⟩

theorem coherent (h : Kept s s') (hs : s.Coherent) : s'.Coherent := by
  intro p hp
  rcases h.program with hp' | ⟨p', hp', hl⟩
  · exact (hs p (hp' ▸ hp)).congr h.source
  · cases hp.symm.trans hp'
    exact hl.congr h.source

end Kept

/-! ## Loads -/

theorem loadReader_error {reader : Reader} {e : Failure}
    (h : (s.loadReader reader).result = .error e) : (s.loadReader reader).session = s.forget := by
  unfold loadReader at h ⊢
  split at h
  · cases h
  · rfl

theorem loadFile_error {read : FileReader} {path : String} {e : Failure}
    (h : (s.loadFile read path).result = .error e) : (s.loadFile read path).session = s.forget := by
  unfold loadFile at h ⊢
  split at h
  · cases h
  · rfl

theorem program?_loadReader (s : Session) (reader : Reader) :
    (s.loadReader reader).session.program? = none := by
  unfold loadReader
  split <;> rfl

theorem program?_loadFile (s : Session) (read : FileReader) (path : String) :
    (s.loadFile read path).session.program? = none := by
  unfold loadFile
  split <;> rfl

/-! ## Runs -/

/-- Compiling puts in the place of the program what the source is lowered to, if it can be. -/
theorem compile_cases (s : Session) :
    (∃ p, s.compile.result = .ok p ∧ s.compile.session = { s with program? := some p }
      ∧ s.Lowers p)
    ∨ (∃ e, s.compile.result = .error e) ∧ s.compile.session = { s with program? := none }
      ∧ ∀ p, ¬ s.Lowers p := by
  unfold compile
  split
  · rename_i hs
    exact .inr ⟨⟨_, rfl⟩, rfl, by simp [Lowers, hs]⟩
  rename_i source hs
  split
  · rename_i p stats hl
    exact .inl ⟨p, rfl, rfl, source, stats, hs, hl⟩
  · rename_i f hl
    exact .inr ⟨⟨_, rfl⟩, rfl, by simp [Lowers, hs, hl]⟩

theorem compile_error {e : Failure} (h : s.compile.result = .error e) :
    s.compile.session = { s with program? := none } := by
  rcases s.compile_cases with ⟨p, hp, -⟩ | ⟨-, hs, -⟩
  · rw [h] at hp
    cases hp
  · exact hs

/-- Compiling loses no program that the source is lowered to. -/
theorem compile_kept (h : s.Coherent) : Kept s s.compile.session := by
  rcases s.compile_cases with ⟨p, -, hs, hl⟩ | ⟨-, hs, hnone⟩ <;> rw [hs]
  · exact ⟨rfl, rfl, rfl, .inr ⟨p, rfl, hl⟩⟩
  · refine ⟨rfl, rfl, rfl, .inl ?_⟩
    rcases hp : s.program? with _ | p
    · rfl
    · exact absurd (h p hp) (hnone p)

theorem obtainProgram_kept (s : Session) : Kept s s.obtainProgram.session := by
  unfold obtainProgram
  split
  · exact .refl s
  · rename_i hp
    exact compile_kept (coherent_of_none hp)

@[simp]
theorem session_conclude (s : Session) (mode : Mode) (remarks : List Remark)
    (completion : Completion) (ends : Endpoints) :
    (s.conclude mode remarks completion ends).response.session = s := by
  unfold conclude
  split
  · rfl
  · split <;> rfl

variable {fuel : Nat} {ends : Endpoints} {e : Execution}

theorem execute_kept {mode : Mode} (h : s.execute fuel mode ends = some e) :
    Kept s e.response.session := by
  unfold execute at h
  split at h
  · split at h
    · cases h
      exact .refl s
    · obtain ⟨_, -, rfl⟩ := Option.map_eq_some_iff.1 h
      rw [session_conclude]
      exact .refl s
  · have hkept := s.obtainProgram_kept
    split at h <;> rename_i hobtain <;> rw [hobtain] at hkept
    · cases h
      exact hkept
    · obtain ⟨_, -, rfl⟩ := Option.map_eq_some_iff.1 h
      rwa [session_conclude]

theorem run_kept (h : s.run fuel ends = some e) : Kept s e.response.session := execute_kept h

theorem runAsConfigured_kept (hs : s.Coherent) (h : s.runAsConfigured fuel ends = some e) :
    Kept s e.response.session := by
  unfold runAsConfigured at h
  split at h
  · exact run_kept h
  · have hkept := compile_kept hs
    split at h <;> rename_i hcompile <;> rw [hcompile] at hkept
    · cases h
      exact hkept
    · obtain ⟨e', he', rfl⟩ := Option.map_eq_some_iff.1 h
      have hrun := run_kept he'
      exact hkept.trans hrun

theorem evaluate_coherent {text : String} (h : s.evaluate fuel text ends = some e) :
    e.response.session.Coherent := by
  obtain ⟨e', he', rfl⟩ := Option.map_eq_some_iff.1 h
  have hloaded : (s.loadText text).session.Coherent := coherent_of_none rfl
  exact (runAsConfigured_kept hloaded he').coherent hloaded

/-! ## Commands -/

theorem setHeapSize_ok {heapSize : Nat} (h : s.setHeapSize heapSize = .ok s') :
    s'.source? = s.source? ∧ s'.program? = s.program? := by
  unfold setHeapSize at h
  rcases hc : Config.make heapSize s.config.mode with f | config <;> rw [hc] at h <;> cases h
  exact ⟨rfl, rfl⟩

/-- A command changes how programs are run, but not which. -/
theorem obey_same_program (s : Session) (text : String) :
    (s.obey text).session.source? = s.source? ∧ (s.obey text).session.program? = s.program? := by
  unfold obey
  split
  · exact ⟨rfl, rfl⟩
  · exact ⟨rfl, rfl⟩
  · exact ⟨rfl, rfl⟩
  · split <;> exact ⟨rfl, rfl⟩
  · exact ⟨rfl, rfl⟩
  · split
    · exact ⟨rfl, rfl⟩
    · split
      · rename_i h
        exact setHeapSize_ok h
      · exact ⟨rfl, rfl⟩
  · exact ⟨rfl, rfl⟩
  · exact ⟨rfl, rfl⟩

theorem afterSetHeapSize_of_error {heapSize : Nat} {f : Fault}
    (h : s.setHeapSize heapSize = .error f) : s.afterSetHeapSize heapSize = s := by
  rw [afterSetHeapSize, h]

theorem obey_of_setHeapSize_error {text value : String} {heapSize : Nat} {f : Fault}
    (hc : Command.parse text = .setHeap value)
    (hv : Text.Numeral.natural wordMax value = .ok heapSize)
    (h : s.setHeapSize heapSize = .error f) : (s.obey text).session = s := by
  simp only [obey, hc, hv, h]

theorem Coherent.afterSetHeapSize (h : s.Coherent) (heapSize : Nat) :
    (s.afterSetHeapSize heapSize).Coherent := by
  rcases hset : s.setHeapSize heapSize with f | s' <;> rw [Session.afterSetHeapSize, hset]
  · exact h
  · exact h.congr (setHeapSize_ok hset).1 (setHeapSize_ok hset).2

/-! ## Sessions -/

theorem coherent_handle {r : Request} (h : s.Coherent) (hr : s.handle r = some s') :
    s'.Coherent := by
  cases r with
  | loadText text =>
    cases hr
    exact coherent_of_none rfl
  | loadBytes data =>
    cases hr
    exact coherent_of_none rfl
  | loadReader reader =>
    cases hr
    exact coherent_of_none (s.program?_loadReader reader)
  | loadFile read path =>
    cases hr
    exact coherent_of_none (s.program?_loadFile read path)
  | compile =>
    cases hr
    exact (compile_kept h).coherent h
  | execute fuel mode ends =>
    obtain ⟨e, he, rfl⟩ := Option.map_eq_some_iff.1 hr
    exact (execute_kept he).coherent h
  | run fuel ends =>
    obtain ⟨e, he, rfl⟩ := Option.map_eq_some_iff.1 hr
    exact (run_kept he).coherent h
  | runAsConfigured fuel ends =>
    obtain ⟨e, he, rfl⟩ := Option.map_eq_some_iff.1 hr
    exact (runAsConfigured_kept h he).coherent h
  | evaluate fuel text ends =>
    obtain ⟨e, he, rfl⟩ := Option.map_eq_some_iff.1 hr
    exact evaluate_coherent he
  | setHeapSize heapSize =>
    cases hr
    exact h.afterSetHeapSize heapSize
  | setMode mode =>
    cases hr
    exact h.congr rfl rfl
  | setShowListing on =>
    cases hr
    exact h.congr rfl rfl
  | obey text =>
    cases hr
    exact h.congr (s.obey_same_program text).1 (s.obey_same_program text).2

theorem Reachable.coherent (h : Reachable s) : s.Coherent := by
  induction h with
  | new config => exact coherent_of_none rfl
  | step r _ hr ih => exact coherent_handle ih hr

/-- Whatever was asked of a session, its tape has a cell, and its program, if it keeps one, is what
its source is lowered to. A heap size that is refused changes nothing, nor does a command that asks
for it; a load that fails leaves neither source nor program, a compilation that fails leaves the
source only, and a run changes at most the program, which it may have lowered. -/
theorem cache_coherent (h : Reachable s) :
    0 < s.config.heapSize
      ∧ s.Coherent
      ∧ (∀ heapSize f, s.setHeapSize heapSize = .error f →
        s.handle (.setHeapSize heapSize) = some s
          ∧ ∀ text value, Command.parse text = .setHeap value →
            Text.Numeral.natural wordMax value = .ok heapSize → (s.obey text).session = s)
      ∧ (∀ read path e, (s.loadFile read path).result = .error e →
        (s.loadFile read path).session.source? = none
          ∧ (s.loadFile read path).session.program? = none)
      ∧ (∀ reader e, (s.loadReader reader).result = .error e →
        (s.loadReader reader).session.source? = none
          ∧ (s.loadReader reader).session.program? = none)
      ∧ (∀ e, s.compile.result = .error e →
        s.compile.session.source? = s.source? ∧ s.compile.session.program? = none)
      ∧ (∀ fuel mode ends e, s.execute fuel mode ends = some e → Kept s e.response.session)
      ∧ (∀ fuel ends e, s.run fuel ends = some e → Kept s e.response.session)
      ∧ ∀ fuel ends e, s.runAsConfigured fuel ends = some e → Kept s e.response.session := by
  refine ⟨s.config.heapSize_pos, h.coherent, fun n f hf => ?_, fun read path e he => ?_,
    fun reader e he => ?_, fun e he => ?_, fun fuel mode ends e he => execute_kept he,
    fun fuel ends e he => run_kept he, fun fuel ends e he => runAsConfigured_kept h.coherent he⟩
  · exact ⟨congrArg some (afterSetHeapSize_of_error hf),
      fun _ _ hc hv => obey_of_setHeapSize_error hc hv hf⟩
  · rw [loadFile_error he]
    exact ⟨rfl, rfl⟩
  · rw [loadReader_error he]
    exact ⟨rfl, rfl⟩
  · rw [compile_error he]
    exact ⟨rfl, rfl⟩

/-- A session that was given an increment and compiled it. -/
theorem cache_coherent_increment :
    Reachable ⟨⟨1, .ir, by decide⟩, false, some ⟨#[43]⟩, some ⟨#[⟨.act (.add 1), 0⟩]⟩⟩
      ∧ Lowers ⟨⟨1, .ir, by decide⟩, false, some ⟨#[43]⟩, some ⟨#[⟨.act (.add 1), 0⟩]⟩⟩
        ⟨#[⟨.act (.add 1), 0⟩]⟩ := by
  have hloaded : Reachable ⟨⟨1, .ir, by decide⟩, false, some ⟨#[43]⟩, none⟩ :=
    .step (.loadBytes #[43]) (.new ⟨1, .ir, by decide⟩) rfl
  have hcompiled : Reachable
      ⟨⟨1, .ir, by decide⟩, false, some ⟨#[43]⟩, some ⟨#[⟨.act (.add 1), 0⟩]⟩⟩ :=
    .step .compile hloaded (by decide +kernel)
  exact ⟨hcompiled, (cache_coherent hcompiled).2.1 _ rfl⟩

end TapeMachine.Session
