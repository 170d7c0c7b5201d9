import Mathlib.Data.List.Forall2
import TapeMachine.Proofs.Jobs

/-!
# Fuel

What comes to its end with some fuel comes to the same end with more (`Lasting`): the run of a job,
an execution of a session, the evaluation of an entry.
-/

namespace TapeMachine

/-- An answer that is given with some fuel is given with more. -/
def Lasting {α : Type} (f : Nat → Option α) : Prop :=
  ∀ n a, f n = some a → ∀ n', n ≤ n' → f n' = some a

namespace Lasting

variable {α β : Type} {f : Nat → Option α}

/-- What does not need fuel. -/
theorem const (a? : Option α) : Lasting fun _ => a? := fun _ _ h _ _ => h

theorem map (h : Lasting f) (g : α → β) : Lasting fun n => (f n).map g := by
  intro n b hb n' hle
  obtain ⟨a, ha, rfl⟩ := Option.map_eq_some_iff.1 hb
  exact Option.map_eq_some_iff.2 ⟨a, h n a ha n' hle, rfl⟩

theorem bind (h : Lasting f) {g : α → Nat → Option β} (hg : ∀ a, Lasting (g a)) :
    Lasting fun n => (f n).bind (g · n) := by
  intro n b hb n' hle
  obtain ⟨a, ha, hgb⟩ := Option.bind_eq_some_iff.1 hb
  exact Option.bind_eq_some_iff.2 ⟨a, h n a ha n' hle, hg a n b hgb n' hle⟩

/-- An answer does not depend on the fuel with which it was given. -/
theorem unique (h : Lasting f) {n n' : Nat} {a a' : α} (ha : f n = some a) (ha' : f n' = some a') :
    a = a' := by
  have h1 := h n a ha _ (Nat.le_max_left n n')
  have h2 := h n' a' ha' _ (Nat.le_max_right n n')
  exact Option.some.inj (h1.symm.trans h2)

theorem mapM {f : α → Nat → Option β} : ∀ {l : List α}, (∀ a ∈ l, Lasting (f a)) →
    Lasting fun n => l.mapM (f · n)
  | [], _ => const (some [])
  | a :: l, h => by
    have ih := mapM fun a ha => h a (List.mem_cons_of_mem _ ha)
    simp only [List.mapM_cons]
    exact (h a List.mem_cons_self).bind fun b => ih.bind fun bs => const (some (b :: bs))

/-- With enough fuel for each of them, there is enough for all. -/
theorem exists_mapM {f : α → Nat → Option β} {R : α → β → Prop} : ∀ {l : List α} {bs : List β},
    (∀ a ∈ l, Lasting (f a)) → (∀ a ∈ l, ∀ b, (∃ n, f a n = some b) ↔ R a b) →
    ((∃ n, l.mapM (f · n) = some bs) ↔ List.Forall₂ R l bs)
  | [], bs, _, _ => by simp [eq_comm]
  | a :: l, bs, hf, hR => by
    have hl := fun a ha => hf a (List.mem_cons_of_mem _ ha)
    have ih : ∀ bs, (∃ n, l.mapM (f · n) = some bs) ↔ List.Forall₂ R l bs := fun bs =>
      exists_mapM hl fun a ha => hR a (List.mem_cons_of_mem _ ha)
    simp only [List.mapM_cons]
    constructor
    · rintro ⟨n, h⟩
      obtain ⟨b, hb, h⟩ := Option.bind_eq_some_iff.1 h
      obtain ⟨rest, hrest, h⟩ := Option.bind_eq_some_iff.1 h
      cases h
      exact .cons ((hR a List.mem_cons_self b).1 ⟨n, hb⟩) ((ih rest).1 ⟨n, hrest⟩)
    · rintro (_ | ⟨hab, hrest⟩)
      obtain ⟨n, hn⟩ := (hR a List.mem_cons_self _).2 hab
      obtain ⟨n', hn'⟩ := (ih _).2 hrest
      refine ⟨max n n', Option.bind_eq_some_iff.2 ⟨_, ?_, Option.bind_eq_some_iff.2 ⟨_, ?_, rfl⟩⟩⟩
      · exact hf a List.mem_cons_self n _ hn _ (Nat.le_max_left ..)
      · exact mapM hl n' _ hn' _ (Nat.le_max_right ..)

end Lasting

theorem Machine.lasting_run (engine : Machine → Step) (m : Machine) :
    Lasting fun fuel => Machine.run engine fuel m := by
  intro n e he n' hle
  obtain ⟨more, rfl⟩ := Nat.exists_eq_add_of_le hle
  exact run_add_of_some he more

namespace Job

theorem lasting_execute (j : Job) (m : Machine) : Lasting fun fuel => j.execute fuel m := by
  rcases j.balanced_or_failed with hj | ⟨f, -, hf⟩
  · simp only [execute_of_balanced hj]
    exact Machine.lasting_run j.engine m
  · simp only [hf]
    exact .const _

theorem lasting_run (j : Job) (config : Config) (ends : Endpoints) :
    Lasting fun fuel => j.run fuel config ends := by
  simp only [run_eq]
  exact (j.lasting_execute _).map _

end Job

namespace Session

theorem lasting_execute (s : Session) (mode : Mode) (ends : Endpoints) :
    Lasting fun fuel => s.execute fuel mode ends := by
  cases mode with
  | direct =>
    simp only [execute]
    rcases s.source? with _ | source
    · exact .const _
    · exact ((Job.source source).lasting_run s.config ends).map _
  | ir =>
    simp only [execute]
    rcases s.obtainProgram with ⟨f | p, s', remarks⟩
    · exact .const _
    · exact ((Job.program p).lasting_run s'.config ends).map _

theorem lasting_run (s : Session) (ends : Endpoints) : Lasting fun fuel => s.run fuel ends :=
  s.lasting_execute s.readyMode ends

theorem lasting_runAsConfigured (s : Session) (ends : Endpoints) :
    Lasting fun fuel => s.runAsConfigured fuel ends := by
  unfold runAsConfigured
  cases s.config.mode with
  | direct => exact s.lasting_run ends
  | ir =>
    rcases s.compile with ⟨f | p, s', remarks⟩
    · exact .const _
    · exact (s'.lasting_run ends).map _

theorem lasting_evaluate (s : Session) (text : String) (ends : Endpoints) :
    Lasting fun fuel => s.evaluate fuel text ends :=
  ((s.loadText text).session.lasting_runAsConfigured ends).map _

end Session

end TapeMachine
