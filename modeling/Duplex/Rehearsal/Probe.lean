/-
Duplex/Rehearsal/Probe.lean

Probes: carriers that take a given number of frames.

A probe without a limit takes every frame; one with a limit is through with
the last frame of it, and one with the limit zero takes none at all. A probe
can be cut, which is how its connection goes away.

Main definition: `Probe`.
-/
import Duplex.Carrier.Basic

namespace Duplex.Rehearsal

/-- A carrier that takes a given number of frames. -/
structure Probe where
  name : String
  limit : Option Nat := none
  taken : Nat := 0
  closed : Bool := false
  isCut : Bool := false
  deriving DecidableEq, Repr

namespace Probe

/-- Hands a frame to the probe. -/
def take (p : Probe) : Probe × Delivery :=
  if p.closed || p.limit == some 0 then (p, .refused)
  else
    let p := { p with taken := p.taken + 1 }
    if p.limit == some p.taken then ({ p with closed := true }, .last) else (p, .more)

/-- Cuts the connection. -/
def cut (p : Probe) : Probe := { p with isCut := true }

instance : Carrier Probe where
  take p _ := p.take
  finish p := { p with closed := true }
  lost p := p.isCut

end Probe

end Duplex.Rehearsal
