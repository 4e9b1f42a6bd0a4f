/-
Duplex/Moment.lean

Moments: when something happens.

A moment is a time in milliseconds and a turn. Turns are counted on and on as
things happen one after another, so of two moments with different turns it is
clear which one came first, even at the same time.

A clock keeps waits up to some length. Whoever asks it for a longer one waits
thirty years; which waits are too long is the clock's own affair.

Main definitions: `Moment`, `Moment.waited`.
-/

namespace Duplex

/-- When something happens. -/
structure Moment where
  /-- The time in milliseconds. -/
  time : Nat := 0
  /-- How many things happened before. -/
  turn : Nat := 0
  deriving DecidableEq, Repr, Inhabited

namespace Moment

/-- The next turn, at the same time. -/
def next (m : Moment) : Moment := { m with turn := m.turn + 1 }

/-- The same turn, but not before that time. -/
def reach (t : Nat) (m : Moment) : Moment := { m with time := max m.time t }

/-- Thirty years of 365 days, in milliseconds. -/
def thirtyYears : Nat := 946080000000

/-- How long somebody waits who asks for `ms` milliseconds, by a clock that keeps waits up to
`farthest`. -/
def waited (farthest ms : Nat) : Nat := if ms ≤ farthest then ms else thirtyYears

end Moment

end Duplex
