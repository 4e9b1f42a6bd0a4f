/-
Duplex/Server/Clock.lean

The clock of a server.

A server moves as its world does, but before time moves on the links are
looked after, each in turn, as long as there is something to do for it.

Main definitions: `Server.pump?`, `Server.tick?`, `Server.settle`.
-/
import Duplex.Server.Basic

namespace Duplex.Server

/-- Does what is next to do for the first of the links that has something. -/
def pumpFirst? (w : World Conduit) : List Link → Option (World Conduit × List Link)
  | [] => none
  | l :: ls =>
    match l.pump? w with
    | some (w, l) => some (w, l :: ls)
    | none => (pumpFirst? w ls).map fun (w, ls) => (w, l :: ls)

/-- The next step that is for the links. -/
def pump? (s : Server) : Option Server :=
  (pumpFirst? s.world s.links).map fun (w, ls) => { s with world := w, links := ls }

/-- The next step up to `limit`, at a turn of its own. -/
def tick? (s : Server) (limit : Nat) : Option Server :=
  let s := { s with world := s.world.next }
  match s.world.stir? with
  | some w => some { s with world := w }
  | none =>
    match s.pump? with
    | some s => some s
    | none => (s.world.fire? limit).map fun w => { s with world := w }

/-- Goes step by step until the server is at rest at `limit`, in at most `fuel` steps. -/
def settle (limit : Nat) : Nat → Server → Server
  | 0, s => s
  | fuel + 1, s =>
    match s.tick? limit with
    | some s => settle limit fuel s
    | none => { s with world := s.world.reach limit }

end Duplex.Server
