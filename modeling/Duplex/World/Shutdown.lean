/-
Duplex/World/Shutdown.lean

Stopping a world.

To shut a world down is to mark it as stopping, which full-duplex connections
watch, and to close every registered session. It may be done again: each time
only the sessions entered since are left to close.

To stop is to shut down, wait a limited time for the task that serves
connections, and shut down once more, because that task may have opened a
session as its last act. A task that does not end in time is not interrupted,
and one that ended before is not waited for.

Main definitions: `World.shutdown`, `Serving`, `Serving.isOver`,
`Serving.drains`, `Serving.wait`.
-/
import Duplex.World.Clock

namespace Duplex

namespace World

variable {C : Type} [Carrier C]

/-- Marks the world as stopping and closes every registered session; counts those. -/
def shutdown (w : World C) : Nat × World C := { w with stopping := true }.closeAll

end World

/-- The task that serves connections. -/
structure Serving where
  /-- It only begins to end when the world is stopping. -/
  waits : Bool
  /-- How long it goes on then, or from the start if it does not wait. -/
  lasts : Nat
  /-- The name of a session that it opens as its last act. -/
  late : Option String
  /-- The longest wait that the clock keeps. -/
  farthest : Nat := Moment.thirtyYears
  deriving DecidableEq, Repr

namespace Serving

/-- How long a task is waited for when nothing else is said. -/
def defaultPatience : Nat := 30000

/-- How long the task goes on. -/
def duration (s : Serving) : Nat := Moment.waited s.farthest s.lasts

/-- The task has ended before anybody stops the world; `stopping` says that the world was stopping
already. -/
def isOver (s : Serving) (stopping : Bool) : Bool := s.duration == 0 && (stopping || !s.waits)

/-- The task has ended, or ends while it is waited for. -/
def drains (s : Serving) (stopping : Bool) (patience : Nat) : Bool :=
  s.isOver stopping || s.duration < Moment.waited s.farthest patience

/-- How long the task is waited for. -/
def wait (s : Serving) (patience : Nat) : Nat := min s.duration (Moment.waited s.farthest patience)

end Serving

end Duplex
