/-
Duplex/Rehearsal/Server.lean

Rehearsing a server with clients.

Every request and every message socket is a connection with a name. After
each step the server is brought to rest, and then the clients read what has
arrived: the text on the body of a response, or the messages on a wire, and
the end of either. A connection that has ended or was cut receives nothing
more.

Main definitions: `Connection`, `Servers.Stage`, `Servers.Step`,
`Servers.step`, `Servers.readAll`, `Servers.logSince`.
-/
import Duplex.Http.Head
import Duplex.Rehearsal.Session
import Duplex.Server.Clock

namespace Duplex.Rehearsal

/-- Something that a client receives. -/
inductive Arrival where
  | text (value : List Char)
  | pong (data : Text.Bytes)
  | close
  | over
  deriving DecidableEq, Repr

/-- What a client reads from. -/
inductive Source where
  | whole (body : String)
  | carried (session place : Nat)
  | link (n : Nat)
  | over
  deriving DecidableEq, Repr

/-- A connection of a client. -/
structure Connection where
  name : String
  source : Source
  deriving DecidableEq, Repr

namespace Servers

/-- What a rehearsal of a server keeps. -/
structure Stage where
  server : Server
  connections : List Connection := []
  /-- Sockets are watched as they open; those of an application that is not watched can neither be
  seen in the log nor be acted on. -/
  watched : Bool := true

/-- A step of the rehearsal of a server. -/
inductive Step where
  | request (name : String) (r : Request)
  | connect (name uri : String) (headers : Headers)
  | send (name : String) (m : ClientMessage)
  | cut (name : String)
  | advance (ms : Nat)
  | shutdown
  | lookup (id : String)
  | act (socket : Nat) (action : Action)

/-- What comes of a step. -/
inductive Result where
  | response (status : Nat) (headers : Headers)
  /-- A message socket, or the status of the response to which it was refused. -/
  | connected (status : Nat)
  | sent (done : Bool)
  | session (value : Option (Phase × Bool × Nat))
  | other (value : Outcome)
  deriving DecidableEq, Repr

/-! ### Clients -/

/-- The header lines with which a client asks for a message socket. -/
def handshake : Headers :=
  [.ofText "host" "h", .ofText "connection" "Upgrade", .ofText "upgrade" "websocket",
   .ofText "sec-websocket-version" "13", .ofText "sec-websocket-key" "dGhlIHNhbXBsZSBub25jZQ=="]

/-- What a client sends of a text that it is to ask for: all behind its authority, without the
fragment, and the root if that is nothing. -/
def targetOf (uri : String) : String :=
  match (uri.toList.takeWhile (· != '#')).dropWhile (!Target.endsAuthority ·) with
  | [] => "/"
  | cs => String.ofList cs

/-- The lines of each name together, in the order in which the names were first used. -/
def gathered (hs : Headers) : Headers := (hs.map (·.name)).eraseDups.flatMap hs.all

/-- The head of a request for a message socket. A client may give lines of the handshake itself, of
which the first of each name is sent. -/
def asking (uri : String) (headers : Headers) : Head :=
  { method := "GET"
    target := targetOf uri
    headers := handshake.map (fun h => (headers.get? h.name).getD h) ++
      gathered (headers.filter fun h => (handshake.get? h.name).isNone) }

/-- The first connection of that name, with its place. -/
def find? (st : Stage) (name : String) : Option (Nat × Connection) :=
  (st.connections.zipIdx.find? fun (c, _) => c.name == name).map fun (c, n) => (n, c)

/-- The stream in a place of a session. -/
def stream? (w : World Conduit) (k n : Nat) : Option ResponseStream :=
  match (w.sessions[k]?).bind (·.carriers[n]?) with
  | some (.stream b) => some b
  | _ => none

/-- Changes the stream in a place of a session. -/
def setStream (w : World Conduit) (k n : Nat) (b : ResponseStream) : World Conduit :=
  w.modify k fun s => { s with carriers := s.carriers.set n (.stream b) }

/-- The client goes away from what it reads from. -/
def abandon (s : Server) : Source → Server
  | .carried k n =>
    match stream? s.world k n with
    | none => s
    | some b => { s with world := setStream s.world k n b.drop }
  | .link i =>
    match s.links[i]? with
    | none => s
    | some l =>
      let (w, l) := l.leave s.world
      { s with world := w, links := s.links.set i l }
  | .whole _ | .over => s

/-- The client goes away from a response to a request whose body it never sent. -/
def desert (s : Server) : Source → Server
  | .carried k n =>
    match stream? s.world k n with
    | none => s
    | some b => { s with world := setStream s.world k n b.desert }
  | _ => s

/-- What a client says on a message socket that is there. -/
def say (s : Server) (i : Nat) (m : ClientMessage) : Option Server :=
  match s.links[i]? with
  | none => none
  | some l =>
    if l.isOpen then
      let (w, l) := l.hear s.world m
      some { s with world := w, links := s.links.set i l }
    else none

/-- The end of a connection that has ended. -/
def ending (ended : Bool) : List Arrival := if ended then [.over] else []

/-- A text, unless it is empty. -/
def textOf (cs : List Char) : List Arrival := if cs.isEmpty then [] else [.text cs]

/-- What a client sees of a message on the wire. -/
def seen : WireMessage → Arrival
  | .text frame => .text frame
  | .pong data => .pong data
  | .close => .close
  | .over => .over

/-- What a client reads, and what it reads from after that. -/
def readFrom (s : Server) : Source → List Arrival × Server × Source
  | .whole body => (textOf body.toList ++ ending true, s, .over)
  | .carried k n =>
    match stream? s.world k n with
    | none => ([], s, .over)
    | some b =>
      let (found, b) := b.read
      let s := { s with world := setStream s.world k n b }
      match found with
      | none => ([], s, .over)
      | some (pieces, ended) =>
        (textOf pieces.flatten ++ ending ended, s, if ended then .over else .carried k n)
  | .link i =>
    match s.links[i]? with
    | none => ([], s, .over)
    | some l =>
      let (found, l) := l.read
      let items := found.map seen
      (items, { s with links := s.links.set i l },
        if items.contains .over then .over else .link i)
  | .over => ([], s, .over)

/-- What all clients read, by connection. -/
def readAll (st : Stage) : List (String × List Arrival) × Stage :=
  st.connections.foldl
    (fun (arrived, st) c =>
      let (items, server, source) := readFrom st.server c.source
      (if items.isEmpty then arrived else arrived ++ [(c.name, items)],
       { st with
         server := server
         connections := st.connections ++ [{ c with source := source }] }))
    ([], { st with connections := [] })

/-! ### Steps -/

/-- Brings the server to rest after `ms` more milliseconds. -/
def settle (ms : Nat) (st : Stage) : Stage :=
  { st with server := st.server.settle (st.server.world.now.time + ms) fuel }

/-- Adds a connection. -/
def join (name : String) (source : Source) (st : Stage) : Stage :=
  { st with connections := st.connections ++ [⟨name, source⟩] }

/-- What the client of a response reads from. -/
def sourceOf (body : Body) : Source :=
  match body with
  | .text value => .whole value
  | .carried k n => .carried k n

/-- Sends a request. The response to a request for the head alone is read no further. -/
def request (c : Server.Circumstance) (name : String) (r : Request) (st : Stage) :
    Stage × Result :=
  let (response, server) := st.server.respond c r
  let st := settle 0 { st with server := server }
  let result := .response response.status response.headers
  let source := sourceOf response.body
  if r.method = "HEAD" then
    (settle 0 (join name (.whole "") { st with server := abandon st.server source }), result)
  else (join name source st, result)

/-- Asks for a message socket. A response that refuses it is not read. -/
def connect (c : Server.Circumstance) (name : String) (r : Request) (st : Stage) :
    Stage × Result :=
  let n := st.server.links.length
  let (response, server) := st.server.respond c r
  let st := settle 0 { st with server := server }
  let result := .connected response.status
  if response.status = 101 then (join name (.link n) st, result)
  else
    let leave := if r.awaitsBody then desert else abandon
    (settle 0 { st with server := leave st.server (sourceOf response.body) }, result)

/-- A step, after which the server is at rest. -/
def step (c : Server.Circumstance) (st : Stage) : Step → Stage × Result
  | .request name r => request c name r st
  | .connect name uri headers =>
    match (asking uri headers).read? with
    | .ok r => connect c name r st
    | .error flaw => (settle 0 st, .connected flaw.status)
  | .send name m =>
    match find? st name with
    | some (_, ⟨_, .link i⟩) =>
      match say st.server i m with
      | some server => (settle 0 { st with server := server }, .sent true)
      | none => (st, .sent false)
    | _ => (st, .sent false)
  | .cut name =>
    match find? st name with
    | none => (st, .other .nothing)
    | some (n, connection) =>
      (settle 0
        { st with
          server := abandon st.server connection.source
          connections := st.connections.set n { connection with source := .over } },
       .other .nothing)
  | .advance ms => (settle ms st, .other .nothing)
  | .shutdown =>
    let (count, server) := st.server.shutdown
    (settle 0 { st with server := server }, .other (.number (some count)))
  | .lookup id =>
    let found := (st.server.world.find? id).bind (st.server.world.live? ·)
    (st, .session (found.map fun s => (s.phase, s.attached.isSome, s.outbound.length)))
  | .act socket a =>
    if st.watched then
      let (world, outcome) := actOn false socket a st.server.world
      (settle 0 { st with server := { st.server with world := world } }, .other outcome)
    else (st, .other .noSocket)

/-- What the log shows of what happened in `st` since it was `before`. -/
def logSince (st before : Stage) : List Entry :=
  if st.watched then inOrderOfSockets (st.server.world.logSince before.server.world) else []

end Servers

end Duplex.Rehearsal
