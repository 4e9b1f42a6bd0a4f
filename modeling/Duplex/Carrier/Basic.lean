/-
Duplex/Carrier/Basic.lean

Carriers: the connections that carry a session to its client.

A session knows three things about a carrier and nothing else. It can hand it
a frame, and is told whether the carrier can take more; it can finish it; and
the carrier shows whether its connection went away by itself. Taking a frame
and refusing one are told apart here, though a session lets go of a carrier
in both cases.

The simplest carrier is a message queue, one side of a full-duplex connection.
Frames wait in the queue until they are moved to the connection. The session
gives up its end when it finishes the queue; frames that wait are still moved.
The connection gives up the other end when it is done, and only then does the
queue show that it is lost.

Main definitions: `Delivery`, `Carrier`, `MessageQueue`, `MessageQueue.send`,
`MessageQueue.read`.
-/
import Duplex.Frame.Basic

namespace Duplex

/-- What became of a frame handed to a carrier. -/
inductive Delivery where
  | more
  /-- Taken as the last one. -/
  | last
  /-- Not taken: the carrier has ended. -/
  | refused
  deriving DecidableEq, Repr

/-- A connection that can carry frames. -/
class Carrier (C : Type) where
  take : C → Frame → C × Delivery
  finish : C → C
  lost : C → Bool

/-! ### Message queues -/

/-- The outgoing side of a full-duplex connection. -/
structure MessageQueue where
  /-- The session may still write. -/
  writable : Bool := true
  /-- The connection still reads. -/
  readable : Bool := true
  ended : Bool := false
  /-- The frames that wait, in order. -/
  waiting : List (List Char) := []
  deriving DecidableEq, Repr

namespace MessageQueue

/-- The word for the transport in a log. -/
def label : String := "websocket"

/-- Queues the text of a frame. -/
def send (frame : List Char) (q : MessageQueue) : MessageQueue × Delivery :=
  if !q.writable then (q, .refused)
  else if !q.readable then ({ q with writable := false }, .refused)
  else ({ q with waiting := q.waiting ++ [frame] }, .more)

/-- Gives up the session's end. -/
def close (q : MessageQueue) : MessageQueue := { q with writable := false }

/-- Gives up the connection's end, with what was not moved. -/
def drop (q : MessageQueue) : MessageQueue := { q with readable := false, waiting := [] }

/-- What the connection finds when it reads. -/
inductive Reading where
  | frame (text : List Char)
  | empty
  | over
  deriving DecidableEq, Repr

/-- Reads the next frame; nothing when the connection's end is given up. -/
def read (q : MessageQueue) : Option Reading × MessageQueue :=
  if !q.readable then (none, q)
  else
    match q.waiting with
    | frame :: rest => (some (.frame frame), { q with waiting := rest })
    | [] => (some (if q.writable then .empty else .over), q)

instance : Carrier MessageQueue where
  take q frame := q.send frame.chars
  finish q := q.close
  lost q := q.ended

end MessageQueue

end Duplex
