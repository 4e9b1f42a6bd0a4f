/-
Duplex/Rehearsal/Listening.lean

Rehearsing a server that listens on an isolated host.

An isolated host has no way to any address, not even to itself. It may still
bind every version 4 address, also one that a version 6 address maps, and the
version 6 address that stands for every address, unless the port is taken. So
a rehearsal in which a client connects comes to nothing, and in any other no
session ever opens.

A host that is no literal address is the name of the host itself or a version
4 address in a loose spelling; nothing else can be looked up.

Main definitions: `Listening.Visit`, `Listening.run`.
-/
import Duplex.Net.Endpoint
import Duplex.Net.Loose

namespace Duplex.Rehearsal.Listening

open Net

/-- A step of the rehearsal. -/
inductive Visit where
  | request
  | peer
  deriving DecidableEq, Repr

/-- How a rehearsal ends. -/
inductive Ending where
  | notBound (host : String)
  | unreachable
  | addressless
  /-- The server listened on an address and stopped, and no step came to anything. -/
  | stopped (ip : String) (steps : Nat)
  deriving DecidableEq, Repr

/-- An address that the isolated host can bind. -/
inductive Place where
  | v4 (ip : Ipv4)
  /-- A version 4 address that a version 6 address maps. -/
  | mapped (ip : Ipv6)
  /-- The version 6 address that stands for every address. -/
  | everywhere
  deriving DecidableEq, Repr

namespace Place

/-- The name by which a host knows itself. -/
def ownName : String := "localhost"

/-- The place that the name of a host stands for. -/
def ofName? (name : String) : Option Place :=
  if name.toList.map Char.toLower = ownName.toList then some (.v4 ⟨127, 0, 0, 1⟩)
  else (Ipv4.loose? name.toList).map .v4

/-- The place that a host stands for. -/
def ofHost? (host : String) : Option Place :=
  match ({ host := host } : Binding).endpoint? with
  | some (.v4 ip _) => some (.v4 ip)
  | some (.v6 ip _ _) =>
    if ip.isUnspecified then some .everywhere
    else if (Ipv6.mapped? ip.groups.toList).isSome then some (.mapped ip)
    else none
  | none => ofName? host

/-- The text of the address. -/
def text : Place → String
  | v4 ip => String.ofList ip.chars
  | mapped ip => String.ofList ip.chars
  | everywhere => "::"

/-- What comes of connecting to the address. -/
def connecting : Place → Ending
  | everywhere => .addressless
  | _ => .unreachable

end Place

/-- A rehearsal. -/
def run (host : String) (taken : Bool) (steps : List Visit) : Ending :=
  match Place.ofHost? host, taken with
  | some place, false =>
    if steps.contains .request then place.connecting else .stopped place.text steps.length
  | _, _ => .notBound (String.ofList ({ host := host } : Binding).hostChars)

end Duplex.Rehearsal.Listening
