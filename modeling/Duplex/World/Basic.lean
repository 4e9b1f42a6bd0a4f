/-
Duplex/World/Basic.lean

Worlds: sessions together, the registry that finds them by name, and the
application code that is still to run.

Application code runs one step at a time from a stack of tasks. Whatever an
action of a program sets off goes on the stack above the rest of that program,
so a handler that is set off from inside another one runs at once and the
first goes on when it is through. In the same way a session hands out its next
message only when the handler of the one before is through, unless that
handler itself asks for more.

The registry holds sessions by name. A session leaves it when it closes, and
only its own entry goes: a session of the same name that was never entered
takes nothing with it.

Main definitions: `World`, `World.step`, `World.run`, `World.attach`,
`World.feed`, `World.close`, `World.ensure`, `World.closeAll`.
-/
import Duplex.Frame.Payload
import Duplex.Session.Basic

namespace Duplex

/-- Something that is still to be done. -/
inductive Task where
  | act (program : Program)
  /-- A session gives the messages that wait to the application. -/
  | drain (session : Nat)
  /-- A handler is through with a message. -/
  | returned (session : Nat) (message : String)
  | close (session : Nat)

/-- Sessions together. -/
structure World (C : Type) where
  now : Moment := {}
  sessions : List (Session C) := []
  /-- The sessions that opened, in order. -/
  sockets : List Nat := []
  /-- The registered sessions by name. -/
  registry : List (String × Nat) := []
  /-- What is still to be done, the next first. -/
  tasks : List Task := []
  stopping : Bool := false

namespace World

variable {C : Type}

/-! ### Sessions -/

/-- The session of that number, while something keeps it. -/
def live? (w : World C) (k : Nat) : Option (Session C) :=
  (w.sessions[k]?).filter fun s => !s.gone

/-- Changes a session. -/
def modify (w : World C) (k : Nat) (f : Session C → Session C) : World C :=
  { w with sessions := w.sessions.modify k f }

/-- Adds a session; it gets the next number. -/
def add (w : World C) (s : Session C) : World C := { w with sessions := w.sessions ++ [s] }

/-- What a socket shows. A socket without a session is closed. -/
def view (w : World C) (k : Nat) : View :=
  match w.sessions[k]? with
  | some s => s.view
  | none => ⟨"", true, none⟩

/-- Puts a task on top of the others. -/
def push (w : World C) (t : Task) : World C := { w with tasks := t :: w.tasks }

/-- Puts a program on top of the tasks. -/
def act (w : World C) (p : Program) : World C := w.push (.act p)

/-- The same world at its next turn. -/
def next (w : World C) : World C := { w with now := w.now.next }

/-- Remembers an event of a session. -/
def record (w : World C) (k : Nat) (e : Event) : World C := w.modify k (·.record w.now e)

/-! ### The registry -/

/-- The registered session of that name. -/
def find? (w : World C) (id : String) : Option Nat := w.registry.lookup id

/-- The registered session of that name, which is made and entered if there is none. -/
def ensure (w : World C) (id : String) (make : Session C) : Nat × World C :=
  match w.find? id with
  | some k => (k, w)
  | none =>
    let k := w.sessions.length
    (k, { w.add make with registry := w.registry ++ [(id, k)] })

/-- Takes a session's own entry out of the registry. -/
def unregister (w : World C) (k : Nat) : World C :=
  { w with registry := w.registry.filter (·.2 != k) }

section Carriers

variable [Carrier C]

/-! ### Operations -/

/-- Attaches the carrier in place `n` of a session; the application is told when that opens it. -/
def attach (w : World C) (k n : Nat) : World C :=
  match w.live? k with
  | none => w
  | some s =>
    let w' := w.modify k (·.attach w.now n)
    if s.phase = .fresh then { w' with sockets := w'.sockets ++ [k] }.act (s.onOpen k) else w'

/-- Adds a carrier to a session and attaches it. -/
def register (w : World C) (k : Nat) (c : C) : World C :=
  match w.live? k with
  | none => w
  | some s => (w.modify k (·.addCarrier c)).attach k s.carriers.length

/-- Puts a program on top of the tasks, if there is one. -/
def actIf (w : World C) : Option Program → World C
  | none => w
  | some p => w.act p

/-- Closes a session, unless it is closed. It leaves the registry before its farewell runs. -/
def close (w : World C) (k : Nat) : World C :=
  match w.live? k with
  | none => w
  | some s =>
    if s.phase = .closed then w
    else
      let (s, farewell) := s.depart w.now
      ((w.modify k fun _ => s).unregister k).actIf farewell

/-- Gives a session the messages of a payload. One without messages to read closes the session. -/
def receive (w : World C) (k : Nat) : Option (List String) → World C
  | none => w.push (.close k)
  | some messages => (w.modify k (·.receive w.now messages)).push (.drain k)

/-- Why a payload with these messages is refused, if it is. -/
def verdict : Option (List String) → Option Refusal
  | none => some .malformedFrame
  | some _ => none

/-- Gives a session a payload from its client. -/
def feed (w : World C) (k : Nat) (payload : String) : World C × Option Refusal :=
  let messages := Payload.messages? payload
  (w.receive k messages, verdict messages)

/-- Does the first action of a program. -/
def perform (w : World C) : Program → World C
  | .done => w
  | .note k entry rest => (w.record k (.noted entry)).act rest
  | .write k message next =>
    match w.live? k with
    | none => w.act (next (some .closed))
    | some s =>
      let (s, refused) := s.write w.now message
      (w.modify k fun _ => s).act (next refused)
  | .onMessage k handler rest =>
    match w.live? k with
    | none => w.act rest
    | some _ => ((w.modify k (·.setHandler w.now handler)).act rest).push (.drain k)
  | .onClose k handler rest =>
    match w.live? k with
    | none => ((w.modify k (·.passFarewell w.now)).act rest).act handler
    | some s =>
      let (s, now?) := s.setFarewell w.now handler
      ((w.modify k fun _ => s).act rest).actIf now?
  | .pause k rest =>
    match w.live? k with
    | none => w.act rest
    | some _ => (w.modify k fun s => { s with paused := true }).act rest
  | .resume k rest =>
    match w.live? k with
    | none => w.act rest
    | some _ => ((w.modify k fun s => { s with paused := false }).act rest).push (.drain k)
  | .close k rest => (w.act rest).push (.close k)
  | .look k next => w.act (next (w.view k))
  | .feed k payload next =>
    match w.live? k with
    | none => w.act (next none)
    | some _ =>
      let messages := Payload.messages? payload
      (w.act (next (verdict messages))).receive k messages

/-- Gives the application the next message of a session, if it may have one. -/
def drain (w : World C) (k : Nat) : World C :=
  match (w.live? k).bind (·.deliver? w.now) with
  | none => w
  | some (message, p, s) =>
    (((w.modify k fun _ => s).push (.drain k)).push (.returned k message)).act p

/-- Does the next task. -/
def step (w : World C) : World C :=
  match w.tasks with
  | [] => w
  | .act p :: rest => { w with tasks := rest }.perform p
  | .drain k :: rest => { w with tasks := rest }.drain k
  | .returned k message :: rest => { w with tasks := rest }.record k (.returned message)
  | .close k :: rest => { w with tasks := rest }.close k

/-- Does task after task until none is left, at most `fuel` of them. -/
def run : Nat → World C → World C
  | 0, w => w
  | fuel + 1, w => if w.tasks.isEmpty then w else run fuel w.step

/-- Sees to it that every registered session closes, and counts them. -/
def closeAll (w : World C) : Nat × World C :=
  (w.registry.length, { w with tasks := w.registry.map (fun e => .close e.2) ++ w.tasks })

end Carriers

end World

end Duplex
