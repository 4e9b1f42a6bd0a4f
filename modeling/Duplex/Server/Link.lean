/-
Duplex/Server/Link.lean

Links: message sockets and the sessions behind them.

A link moves what waits in its session's queue to the wire, and gives its
session what the client says. Messages of a client are payloads; the empty one
says nothing, one that does not have the shape of a payload closes the
session, and so does one that cannot be read. After that the client is not
listened to any more, and neither is one that still says something to a session
that is closed. Other kinds of client messages never reach the session, but
pings are answered.

When the session is over, what waits still goes out, then the connection is
closed from this side. When the client ends the connection, nothing more is
put on the wire but its end. Either way the session is closed in the end and
its carrier is lost.

Main definitions: `Link`, `ClientMessage`, `WireMessage`, `Link.hear`, `Link.pump?`.
-/
import Duplex.Carrier.ResponseStream
import Duplex.World.Clock

namespace Duplex

/-- What a client says on a message socket. -/
inductive ClientMessage where
  | text (value : String)
  | binary
  | ping (data : Text.Bytes)
  | pong (data : Text.Bytes)
  | close
  deriving DecidableEq, Repr

/-- What is put on the wire to a client. -/
inductive WireMessage where
  | text (frame : List Char)
  | pong (data : Text.Bytes)
  | close
  | over
  deriving DecidableEq, Repr

/-- A message socket. -/
structure Link where
  session : Nat
  /-- The place of its carrier in the session. -/
  place : Nat := 0
  isOpen : Bool := true
  /-- What the client says is still taken in. -/
  listens : Bool := true
  /-- What was put on the wire and not yet read, newest first. -/
  wire : List WireMessage := []
  deriving DecidableEq, Repr

namespace Link

/-- Puts a message on the wire. -/
def put (m : WireMessage) (l : Link) : Link := { l with wire := m :: l.wire }

/-- What can be read from the wire, in order; reading takes it. -/
def read (l : Link) : List WireMessage × Link := (l.wire.reverse, { l with wire := [] })

/-- The queue behind a link. -/
def queue? (w : World Conduit) (l : Link) : Option MessageQueue :=
  match (w.sessions[l.session]?).bind (·.carriers[l.place]?) with
  | some (.queue q) => some q
  | _ => none

/-- Changes the queue behind a link. -/
def setQueue (w : World Conduit) (l : Link) (q : MessageQueue) : World Conduit :=
  w.modify l.session fun s => { s with carriers := s.carriers.set l.place (.queue q) }

/-- Lets go of the connection: its queue is lost, its session closes and is no longer kept. -/
def leave (w : World Conduit) (l : Link) : World Conduit × Link :=
  let w := match l.queue? w with
    | none => w
    | some q => l.setQueue w { q.drop with ended := true }
  let w := w.modify l.session fun s => { s with held := false }
  (w.push (.close l.session), { l with isOpen := false })

/-- The most bytes that a ping or an answer to one may hold. -/
def maxControl : Nat := 125

/-- Takes in nothing more of what the client says. -/
def deafen (l : Link) : Link := { l with listens := false }

/-- Takes in a text of the client. -/
def hearText (w : World Conduit) (l : Link) (value : String) : World Conduit × Link :=
  if (w.view l.session).closed then (w, l.deafen)
  else if value.isEmpty then (w, l)
  else if Payload.hasShape value then
    match w.feed l.session value with
    | (w, none) => (w, l)
    | (w, some _) => (w, l.deafen)
  else (w.push (.close l.session), l.deafen)

/-- Takes in what the client says. A ping or an answer that holds too much breaks the rules of the
connection and ends it. -/
def hear (w : World Conduit) (l : Link) (m : ClientMessage) : World Conduit × Link :=
  if !l.listens then (w, l)
  else
    match m with
    | .text value => hearText w l value
    | .ping data =>
      if data.length ≤ maxControl then (w, l.put (.pong data)) else leave w (l.put .over)
    | .pong data => if data.length ≤ maxControl then (w, l) else leave w (l.put .over)
    | .close => leave w (l.put .over)
    | .binary => (w, l)

/-- Does what is next to do for a link: closes the session of a world that is stopping, moves what
waits to the wire, or takes leave of a session that is over. -/
def pump? (w : World Conduit) (l : Link) : Option (World Conduit × Link) :=
  if !l.isOpen then none
  else
    match w.live? l.session, l.queue? w with
    | some s, some q =>
      if w.stopping && s.phase != .closed then some (w.push (.close l.session), l)
      else if !q.waiting.isEmpty then
        some (l.setQueue w { q with waiting := [] },
          { l with wire := q.waiting.foldl (fun wire frame => .text frame :: wire) l.wire })
      else if !q.writable then some (leave w ((l.put .close).put .over))
      else none
    | _, _ => none

end Link

end Duplex
