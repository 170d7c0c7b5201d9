/-!
# Stopwatches

A way to evaluate a computation and learn how long that took. What is computed does not depend on
it.
-/

namespace TapeMachine

structure Stopwatch (m : Type → Type) where
  /-- The value, and the time it took in milliseconds. -/
  time : {α : Type} → (Unit → α) → m (α × Float)

/-- Always shows the same time. -/
def Stopwatch.stopped (milliseconds : Float) : Stopwatch Id where
  time compute := (compute (), milliseconds)

/-- What is computed does not depend on the watch. -/
def Stopwatch.Fair (watch : Stopwatch Id) : Prop :=
  ∀ (α : Type) (compute : Unit → α), (watch.time compute).1 = compute ()

theorem Stopwatch.fair_stopped (milliseconds : Float) : (Stopwatch.stopped milliseconds).Fair :=
  fun _ _ => rfl

end TapeMachine
