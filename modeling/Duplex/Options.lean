/-
Duplex/Options.lean

What an application asks of its sessions.

Durations are whole milliseconds. Written as JSON, the options are an object;
they are read from an object or from an array, with defaults for what is not
given.

Main definitions: `Options`, `Options.fields`, `Options.read?`, `Options.json`.
-/
import Duplex.Json.Record

namespace Duplex

/-- What an application asks of its sessions. -/
structure Options where
  /-- How long a session without a connection waits for the next one, in milliseconds. -/
  sessionTimeout : UInt64 := 5000
  /-- The time between two heartbeats on a quiet connection, in milliseconds. -/
  heartbeatPeriod : UInt64 := 25000
  /-- How many bytes a streaming response carries before it ends. -/
  maxBytesStreaming : UInt64 := 131072
  insertCookie : Bool := true
  websocketEnabled : Bool := true
  deriving DecidableEq, Repr, Inhabited

namespace Options

/-- The parts of the options, in order. -/
def fields : List (Field Options) :=
  [.of "session_timeout_ms" Tree.word64? fun n o => { o with sessionTimeout := n },
   .of "heartbeat_period_ms" Tree.word64? fun n o => { o with heartbeatPeriod := n },
   .of "max_bytes_streaming" Tree.word64? fun n o => { o with maxBytesStreaming := n },
   .of "insert_jsessionid" Tree.flag? fun b o => { o with insertCookie := b },
   .of "websocket_enabled" Tree.flag? fun b o => { o with websocketEnabled := b }]

/-- The options that a tree holds. -/
def ofTree? (t : Tree) : Option Options := Record.ofTree? fields {} t

/-- The options that a text holds. -/
def read? (s : String) : Option Options := Record.read? fields {} s

/-- The options as a value. -/
def json (o : Options) : Json :=
  .object
    [("session_timeout_ms", .nat o.sessionTimeout.toNat),
     ("heartbeat_period_ms", .nat o.heartbeatPeriod.toNat),
     ("max_bytes_streaming", .nat o.maxBytesStreaming.toNat),
     ("insert_jsessionid", .bool o.insertCookie),
     ("websocket_enabled", .bool o.websocketEnabled)]

end Options

end Duplex
