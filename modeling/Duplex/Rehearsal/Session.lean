/-
Duplex/Rehearsal/Session.lean

Rehearsing one session with probes.

The session has number zero in a world of its own, and is entered in the
registry or not. After every step the world is brought to rest at the time of
the step. Once the session has been let go, the steps that need it do nothing,
while its socket can still be used.

Main definitions: `Outcome`, `actOn`, `Solo.Step`, `Solo.start`, `Solo.step`.
-/
import Duplex.Rehearsal.Log
import Duplex.Rehearsal.Script
import Duplex.World.Clock

namespace Duplex.Rehearsal

/-- How many steps a world may take to come to rest. -/
def fuel : Nat := 1000000000000

/-- What comes of a step. -/
inductive Outcome where
  | reply (value : Reply)
  | noSocket
  | fed (refused : Option Refusal)
  | number (value : Option Nat)
  | flags (one other : Bool)
  | stopped (drained : Bool) (took : Nat)
  deriving DecidableEq, Repr

/-- Nothing came of a step. -/
def Outcome.nothing : Outcome := .reply .nothing

/-- The name of a phase. -/
def phaseName : Phase → String
  | .fresh => "New"
  | .live => "Open"
  | .closed => "Closed"

/-- A session as it is shown in a log. -/
def shownSession (id : String) (phase : Phase) : String :=
  String.ofList ("Session \x7b id: SessionId(".toList ++ Text.Shown.chars id.toList ++
    "), phase: ".toList ++ (phaseName phase).toList ++ ", .. \x7d".toList)

/-- Does an action on a socket and says what came of it. -/
def actOn {C : Type} [Carrier C] (feeds : Bool) (socket : Nat) (a : Action) (w : World C) :
    World C × Outcome :=
  match w.sockets[socket]? with
  | none => (w, .noSocket)
  | some k => (w.act (a.effect feeds k .done), .reply (a.reply (w.view k)))

/-- The place of the first carrier of that name. -/
def placeOf? (name : String) (s : Session Probe) : Option Nat :=
  s.carriers.findIdx? (·.name == name)

namespace Solo

/-- A step of the rehearsal of one session. -/
inductive Step where
  | register (carrier : Probe)
  | reregister (carrier : String)
  | cut (carrier : String)
  | feed (payload : String)
  | close
  | advance (ms : Nat)
  | introduce (peer : Peer)
  | peer
  | shown
  | release
  | act (socket : Nat) (action : Action)

/-- The world before the first step. -/
def start (s : Session Probe) (registered : Bool) : World Probe :=
  let w : World Probe := {}
  if registered then (w.ensure s.id s).2 else w.add s

/-- The session, while it is held. -/
def held? (w : World Probe) : Option (Session Probe) := (w.sessions[0]?).filter (·.held)

/-- What comes of a step that needs the session when it was let go. -/
def missing (w : World Probe) : Outcome := if w.sockets.isEmpty then .noSocket else .nothing

/-- A step that needs the session. -/
def withSession (w : World Probe) (f : Session Probe → World Probe × Outcome) :
    World Probe × Outcome :=
  match held? w with
  | none => (w, missing w)
  | some s => f s

/-- What a step does before the world comes to rest. -/
def act (w : World Probe) : Step → World Probe × Outcome
  | .register p => withSession w fun _ => (w.register 0 p, .nothing)
  | .reregister name =>
    withSession w fun s =>
      match placeOf? name s with
      | none => (w, .nothing)
      | some n => (w.attach 0 n, .nothing)
  | .cut name =>
    (w.modify 0 fun s =>
      match placeOf? name s with
      | none => s
      | some n => { s with carriers := s.carriers.modify n Probe.cut }, .nothing)
  | .feed payload =>
    withSession w fun _ =>
      let (w, refused) := w.feed 0 payload
      (w, .fed refused)
  | .close => withSession w fun _ => (w.push (.close 0), .nothing)
  | .advance _ => (w, .nothing)
  | .introduce p => withSession w fun _ => (w.modify 0 (·.introduce p), .nothing)
  | .peer => withSession w fun s => (w, .reply (.peer s.peer))
  | .shown => withSession w fun s => (w, .reply (.text (shownSession s.id s.phase)))
  | .release => (w.modify 0 fun s => { s with held := false }, .nothing)
  | .act socket a => actOn true socket a w

/-- How much time passes in a step. -/
def Step.duration : Step → Nat
  | .advance ms => ms
  | _ => 0

/-- A step, after which the world is at rest. -/
def step (w : World Probe) (s : Step) : World Probe × Outcome :=
  let (w, outcome) := act w.next s
  (w.settle (w.now.time + s.duration) fuel, outcome)

end Solo

end Duplex.Rehearsal
