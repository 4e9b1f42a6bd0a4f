/-
Duplex/World/Clock.lean

The clock of a world.

A world moves in single steps. What can be done at the present moment comes
first: application code that is still to run, then sessions that nothing keeps
any more, which are forgotten with their clocks and handlers, then carriers
whose connection went away, which are let go. Only when none of this is left
does time move on, to the earliest moment at which a session has something to
do by itself, and it never moves past the moment asked for. A world without a
next step is at rest.

Main definitions:

* `World.stir?`, the next step at the present moment;
* `World.fire?`, the next step in time;
* `World.tick?`, the next step of either kind;
* `World.settle`, step after step to the moment asked for.
-/
import Duplex.World.Basic

namespace Duplex

namespace Session

variable {C : Type}

/-- Forgets a session: it keeps neither clocks nor handlers. -/
def forget (s : Session C) : Session C :=
  { s with gone := true, nextBeat := none, deadline := none, handler := none, farewell := none }

end Session

namespace World

variable {C : Type} [Carrier C]

/-! ### At the present moment -/

/-- The session of that number is kept, from outside or by the registry. -/
def isKept (w : World C) (k : Nat) (s : Session C) : Bool :=
  s.held || w.registry.any (·.2 == k)

/-- The first session that nothing keeps and that is not forgotten yet. -/
def unkept? (w : World C) : Option Nat :=
  (w.sessions.zipIdx.find? fun (s, k) => !s.gone && !w.isKept k s).map (·.2)

/-- The first session whose attached carrier lost its connection. -/
def stranded? (w : World C) : Option Nat :=
  w.sessions.findIdx? fun s => !s.gone && s.isStranded

/-- The next step at the present moment. -/
def stir? (w : World C) : Option (World C) :=
  if !w.tasks.isEmpty then some w.step
  else
    match w.unkept? with
    | some k => some (w.modify k Session.forget)
    | none => w.stranded?.map fun k => w.modify k (·.detach w.now)

/-! ### In time -/

/-- The earlier of two moments, each with a session; the first if they are equal. -/
def earlier (one other : Option (Nat × Nat)) : Option (Nat × Nat) :=
  match one, other with
  | some (t, k), some (t', k') => if t' < t then some (t', k') else some (t, k)
  | some a, none => some a
  | none, b => b

/-- The moment at which a session is the first to do something by itself, and that session. -/
def nextDue? (w : World C) : Option (Nat × Nat) :=
  w.sessions.zipIdx.foldl (fun best (s, k) => earlier best (s.due?.map (·, k))) none

/-- What a session does by itself: it sends a heartbeat, or it closes. -/
def elapse (w : World C) (k : Nat) : World C :=
  match (w.sessions[k]?).bind (·.nextBeat) with
  | some _ => w.modify k (·.beat w.now)
  | none => w.push (.close k)

/-- The next step in time, if there is one up to `limit`. -/
def fire? (w : World C) (limit : Nat) : Option (World C) :=
  match w.nextDue? with
  | none => none
  | some (t, k) => if t ≤ limit then some ({ w with now := w.now.reach t }.elapse k) else none

/-! ### Rest -/

/-- The next step up to `limit`, at a turn of its own. -/
def tick? (w : World C) (limit : Nat) : Option (World C) :=
  match w.next.stir? with
  | some w => some w
  | none => w.next.fire? limit

/-- Moves the clock to `limit`, unless it is there. -/
def reach (w : World C) (limit : Nat) : World C := { w with now := w.now.reach limit }

/-- Goes step by step until the world is at rest at `limit`, in at most `fuel` steps. -/
def settle (limit : Nat) : Nat → World C → World C
  | 0, w => w
  | fuel + 1, w =>
    match w.tick? limit with
    | some w => settle limit fuel w
    | none => w.reach limit

end World

end Duplex
