/-
Duplex/Carrier/ResponseStream.lean

Response streams: the body of one response as a carrier.

The framing says how frames are laid out on the body. A polled response holds
one frame and ends; a streamed one goes on until the frames on it, as they are
laid out, come to a number of bytes. A streamed body begins with a preamble
that does not count: padding that makes clients show what has arrived, or an
empty line.

A stream has two ends. The session's end is given up after the last frame or
when the session finishes the stream; what was written before can still be
read. The client's end is given up when the client goes away, or, if that is
not noticed, when something is written that does not get through.

Main definitions: `Framing`, `Framing.wrap`, `ResponseStream`,
`ResponseStream.send`, `ResponseStream.read`, `ResponseStream.isLost`, and
`Conduit`, a carrier of either kind.
-/
import Duplex.Carrier.Basic
import Duplex.Text.Utf8

namespace Duplex

/-- How frames are laid out on a response body. -/
inductive Framing where
  | poll
  /-- Frames on lines after padding, up to a number of bytes. -/
  | stream (most : Nat)
  | callback (name : String)
  /-- Frames as events, up to a number of bytes. -/
  | events (most : Nat)
  deriving DecidableEq, Repr

namespace Framing

/-- The word for the framing in a log. -/
def label : Framing → String
  | .poll => "xhr"
  | .stream _ => "xhr_streaming"
  | .callback _ => "jsonp"
  | .events _ => "eventsource"

/-- The media type of the body. -/
def contentType : Framing → String
  | .events _ => "text/event-stream; charset=UTF-8"
  | _ => "application/javascript; charset=UTF-8"

/-- How many characters of padding come before streamed frames. -/
def paddingLength : Nat := 2048

/-- What stands in front of the first frame. -/
def preamble : Framing → List Char
  | .stream _ => List.replicate paddingLength 'h' ++ ['\n']
  | .events _ => ['\r', '\n']
  | _ => []

/-- A frame as it stands on the body. -/
def wrap (f : Framing) (frame : List Char) : List Char :=
  match f with
  | .poll | .stream _ => frame ++ ['\n']
  | .callback name =>
    name.toList ++ ['(', '"'] ++ Script.escapeChars frame ++ ['"', ')', ';', '\r', '\n']
  | .events _ => ['d', 'a', 't', 'a', ':', ' '] ++ frame ++ ['\r', '\n', '\r', '\n']

/-- A body that holds frames of `sent` bytes has room for another one. -/
def hasRoom (f : Framing) (sent : Nat) : Bool :=
  match f with
  | .poll | .callback _ => false
  | .stream most | .events most => sent < most

end Framing

/-- The body of one response. -/
structure ResponseStream where
  framing : Framing
  /-- The session may still write. -/
  writable : Bool := true
  /-- The client still reads. -/
  readable : Bool := true
  /-- The client went away unnoticed. -/
  deserted : Bool := false
  /-- The first frame, and with it the preamble, is written. -/
  started : Bool := false
  /-- The bytes of the frames written, as they are laid out. -/
  sent : Nat := 0
  /-- The pieces that wait to be read, newest first. -/
  pieces : List (List Char) := []
  deriving DecidableEq, Repr

namespace ResponseStream

/-- Puts a piece on the body. -/
def put (piece : List Char) (b : ResponseStream) : ResponseStream :=
  { b with pieces := piece :: b.pieces }

/-- The stream with its preamble written. -/
def start (b : ResponseStream) : ResponseStream :=
  if b.started then b
  else
    let b := { b with started := true }
    if b.framing.preamble.isEmpty || !b.readable then b else b.put b.framing.preamble

/-- Writes the text of a frame. -/
def send (frame : List Char) (b : ResponseStream) : ResponseStream × Delivery :=
  if !b.writable then (b, .refused)
  else
    let b := b.start
    if !b.readable then ({ b with writable := false }, .refused)
    else
      let piece := b.framing.wrap frame
      let b := { b.put piece with sent := b.sent + Text.utf8Size piece }
      if b.framing.hasRoom b.sent then (b, .more) else ({ b with writable := false }, .last)

/-- Gives up the session's end. -/
def close (b : ResponseStream) : ResponseStream := { b with writable := false }

/-- Gives up the client's end, with what was not read. -/
def drop (b : ResponseStream) : ResponseStream := { b with readable := false, pieces := [] }

/-- The client goes away unnoticed, with what was written before. -/
def desert (b : ResponseStream) : ResponseStream := { b with deserted := true, pieces := [] }

/-- The client is known to have gone away. -/
def isLost (b : ResponseStream) : Bool := !b.readable || (b.deserted && !b.pieces.isEmpty)

/-- Reads the pieces that wait, in order, and whether the body has ended; nothing when the client's
end is given up. -/
def read (b : ResponseStream) : Option (List (List Char) × Bool) × ResponseStream :=
  if b.readable then (some (b.pieces.reverse, !b.writable), { b with pieces := [] })
  else (none, b)

instance : Carrier ResponseStream where
  take b frame := b.send frame.chars
  finish b := b.close
  lost b := b.isLost

end ResponseStream

/-! ### Either kind -/

/-- A carrier that a server makes. -/
inductive Conduit where
  | stream (body : ResponseStream)
  /-- The outgoing side of a full-duplex connection. -/
  | queue (outgoing : MessageQueue)
  deriving DecidableEq, Repr

namespace Conduit

instance : Carrier Conduit where
  take
    | .stream b, frame => let (b, d) := Carrier.take b frame; (.stream b, d)
    | .queue q, frame => let (q, d) := Carrier.take q frame; (.queue q, d)
  finish
    | .stream b => .stream b.close
    | .queue q => .queue q.close
  lost
    | .stream b => Carrier.lost b
    | .queue q => Carrier.lost q

end Conduit

end Duplex
