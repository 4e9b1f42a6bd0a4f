/-
Duplex/Rehearsal/Registry.lean

Rehearsing a registry of sessions with probes.

Sessions are numbered in the order in which the rehearsal first sees them.
A serving task that is waited for may open a session as its last act, whether
it ends in time or not; that session is seen only when it is asked for by
name.

Main definitions: `Registry.Stage`, `Registry.Step`, `Registry.step`.
-/
import Duplex.Rehearsal.Session
import Duplex.World.Shutdown

namespace Duplex.Rehearsal.Registry

/-- What a rehearsal of a registry keeps. -/
structure Stage where
  options : Options
  onOpen : Application
  world : World Probe := {}
  seen : List Nat := []
  /-- The sessions that serving tasks will open, with their times. -/
  errands : List (Nat × String) := []

/-- A step of the rehearsal of a registry. -/
inductive Step where
  | insert (id : String)
  /-- Makes a session without entering it. -/
  | stray (id : String)
  | get (id : String)
  | contains (id : String)
  | isEmpty
  | close (n : Nat)
  | register (n : Nat) (carrier : Probe)
  | closeAll
  | shutdown
  | isStopping
  | advance (ms : Nat)
  /-- Stops the world and waits for the serving task. -/
  | stop (serving : Serving) (patience : Nat)
  | act (socket : Nat) (action : Action)

namespace Stage

/-- A new session of that name. -/
def make (st : Stage) (id : String) (onOpen : Application) (held : Bool) : Session Probe :=
  { id := id, timing := .polling st.options, onOpen := onOpen, held := held }

/-- The stage with a session seen and held, and the session's number. -/
def see (st : Stage) (k : Nat) : Stage × Nat :=
  let st := { st with world := st.world.modify k fun s => { s with held := true } }
  if st.seen.contains k then (st, st.seen.idxOf k)
  else ({ st with seen := st.seen ++ [k] }, st.seen.length)

/-- Brings the world to rest after `ms` more milliseconds. -/
def settle (ms : Nat) (st : Stage) : Stage :=
  { st with world := st.world.settle (st.world.now.time + ms) fuel }

/-- Opens a session as a serving task does. -/
def runErrand (st : Stage) (errand : Nat × String) : Stage :=
  let st := st.settle (errand.1 - st.world.now.time)
  let (k, world) := st.world.next.ensure errand.2 (st.make errand.2 .idle false)
  { st with world := world.register k { name := "late" } }.settle 0

/-- Lets time pass up to `limit`, with the errands that are due before `before`. -/
def pass (limit before : Nat) (st : Stage) : Stage :=
  let isDue (errand : Nat × String) : Bool := errand.1 < before
  let due := (st.errands.filter isDue).mergeSort fun a b => a.1 ≤ b.1
  let st := { st with errands := st.errands.filter fun e => !isDue e }
  let st := due.foldl runErrand st
  st.settle (limit - st.world.now.time)

/-- Lets time pass. -/
def advance (ms : Nat) (st : Stage) : Stage :=
  st.pass (st.world.now.time + ms) (st.world.now.time + ms + 1)

/-- Shuts the world down and counts the sessions closed. -/
def shutdown (st : Stage) : Nat × Stage :=
  let (count, world) := st.world.shutdown
  (count, { st with world := world })

/-- Stops the world: shuts it down, waits for the serving task, and shuts it down once more. What
the task does as its last act it does before all this if it has ended by then. -/
def stop (serving : Serving) (patience : Nat) (st : Stage) : Stage × Outcome :=
  let now := st.world.now.time
  let drained := serving.drains st.world.stopping patience
  let took := serving.wait patience
  let late := serving.late.toList.map fun id => (now + serving.duration, id)
  let isOver := serving.isOver st.world.stopping
  let st := if isOver then late.foldl runErrand st else { st with errands := st.errands ++ late }
  let st := st.shutdown.2.settle 0
  let st := st.pass (now + took) (now + took + (if drained then 1 else 0))
  (st.shutdown.2.settle 0 |>.advance 0, .stopped drained took)

end Stage

/-- A step, after which the world is at rest. -/
def step (st : Stage) (s : Step) : Stage × Outcome :=
  let st := { st with world := st.world.next }
  let number (k : Option Nat) (st : Stage) : Stage × Outcome :=
    match k with
    | none => (st, .number none)
    | some k => let (st, n) := st.see k; (st, .number (some n))
  match s with
  | .insert id =>
    let (k, world) := st.world.ensure id (st.make id st.onOpen true)
    number (some k) { st with world := world }
  | .stray id =>
    number (some st.world.sessions.length)
      { st with world := st.world.add (st.make id st.onOpen true) }
  | .get id => number (st.world.find? id) st
  | .contains id => (st, .reply (.flag (st.world.find? id).isSome))
  | .isEmpty => (st, .reply (.flag st.world.registry.isEmpty))
  | .close n =>
    match st.seen[n]? with
    | none => (st, .nothing)
    | some k => ({ st with world := st.world.push (.close k) }.settle 0, .nothing)
  | .register n p =>
    match st.seen[n]? with
    | none => (st, .nothing)
    | some k => ({ st with world := st.world.register k p }.settle 0, .nothing)
  | .closeAll =>
    let (count, world) := st.world.closeAll
    ({ st with world := world }.settle 0, .number (some count))
  | .shutdown =>
    let (count, st) := st.shutdown
    (st.settle 0, .number (some count))
  | .isStopping => (st, .flags st.world.stopping st.world.stopping)
  | .advance ms => (st.advance ms, .nothing)
  | .stop serving patience => st.stop serving patience
  | .act socket a =>
    let (world, outcome) := actOn false socket a st.world
    ({ st with world := world }.settle 0, outcome)

/-- How far each session seen so far has come. -/
def phases (st : Stage) : List Phase :=
  st.seen.filterMap fun k => (st.world.sessions[k]?).map (·.phase)

end Duplex.Rehearsal.Registry
