/-
Duplex/Server/Basic.lean

Servers: applications behind routes, and how a request is answered.

A request is first routed by its path; then its method must be one that the
resource answers to. Then come, in this order, the escapes in the names of
server and session, the size of a body that is wanted, the names themselves,
the session that a message is for, the media type, and the payload. The first
of these that fails gives the answer, and nothing else happens. A payload that
cannot be read is the one failure that has an effect: it closes the session.

The names of server and session are segments of the path; apart from that a
session's name is the client's business.

Main definitions: `Segment.parse`, `Server`, `Server.respond`,
`Server.attach`, `Server.deliver`.
-/
import Duplex.Carrier.ResponseStream
import Duplex.Http.Message
import Duplex.Http.Policy
import Duplex.Server.Link
import Duplex.Server.Route
import Duplex.Text.Percent
import Duplex.World.Shutdown

namespace Duplex

open Text

namespace Segment

/-- The text can stand as a segment: it is not empty and holds neither a slash nor a dot. -/
def isValid (s : String) : Bool :=
  !s.isEmpty && s.toList.all fun c => c != '/' && c != '.'

/-- The text as the name of a session. -/
def parse (s : String) : Except Refusal String :=
  if isValid s then .ok s else .error .unknownSession

end Segment

/-- Applications behind routes. -/
structure Server where
  mounts : Mounts := []
  world : World Conduit := {}
  /-- The message sockets, in the order in which they were made. -/
  links : List Link := []

namespace Server

/-! ### Answers -/

/-- The media type of the server's own texts. -/
def plainText : String := "text/plain; charset=UTF-8"

/-- The media type of the texts that say what is wrong with a request as such. -/
def plainTextLower : String := "text/plain; charset=utf-8"

/-- A text of some media type. -/
def answer (status : Nat) (contentType body : String) : Response :=
  { status := status, headers := [.ofText "content-type" contentType], body := .text body }

/-- The answer to a refused request. -/
def refuse (r : Refusal) : Response := answer r.status plainText r.body

/-- The answer when nothing is found. -/
def notFound : Response := { status := 404 }

/-- The answer when no resource at a path has the method. -/
def notOffered (rs : List Resource) : Response :=
  { status := 405
    headers := [.ofText "allow" (String.intercalate "," (rs.flatMap Resource.methods))] }

/-- The answer when a name in the path is no text. -/
def unreadableName (name : String) : Response :=
  answer 400 plainTextLower ("Invalid URL: Invalid UTF-8 in \x60" ++ name ++ "\x60")

/-- The answer when a path has other names in it than those of a server and a session. -/
def miscounted (count : Nat) : Response :=
  answer 500 plainTextLower
    ("Wrong number of path arguments for \x60Path\x60. Expected 2 but got " ++ toString count)

/-- The most bytes that a body may have. -/
def maxBody : Nat := 2097152

/-- The answer when the body has more. -/
def bodyTooLong : Response :=
  answer 413 plainTextLower "Failed to buffer the request body: length limit exceeded"

/-- The answer when a message socket is asked for in the wrong way. -/
def cannotUpgrade : Response :=
  answer 400 plainTextLower "Can \"Upgrade\" only to \"WebSocket\"."

/-- The answer that switches to a message socket. -/
def switching : Response := { status := 101 }

/-! ### What is asked for -/

/-- A segment with its escapes undone, if it is a text. -/
def name? (segment : List Char) : Option String :=
  Utf8.text? (Percent.decode (Utf8.encode segment))

/-- How the names of parameters begin that are kept to the server. -/
def keptNames : List String := ["__private__axum_nest_tail_param", "__private__axum_fallback"]

/-- The parameter may stand for anything, and is not read. -/
def isKept (parameter : String) : Bool :=
  keptNames.any fun name => name.toList.isPrefixOf parameter.toList

/-- The names of server and session, of all names that stand in a path and are not kept. -/
def names (parameters : List (String × List Char)) : Except Response (String × String) :=
  let parameters := parameters.filter fun (parameter, _) => !isKept parameter
  match parameters.find? fun (_, segment) => (name? segment).isNone with
  | some (parameter, _) => .error (unreadableName parameter)
  | none =>
    match parameters.filterMap fun (_, segment) => name? segment with
    | [server, session] => .ok (server, session)
    | values => .error (miscounted values.length)

/-- The name of the session, when both names may stand in a path. -/
def sessionName (names : String × String) : Except Refusal String :=
  if Segment.isValid names.1 then Segment.parse names.2 else .error .unknownSession

/-- Who asks. A peer is remembered without its cookies. -/
def peerOf (r : Request) : Peer :=
  { target := r.target, headers := r.headers.without "cookie" }

/-- The media type of the body, in lower case and without parameters. -/
def mediaType? (r : Request) : Option String :=
  (r.header? "content-type").map fun value =>
    lowerCase (String.ofList (trim (value.toList.takeWhile (· != ';'))))

/-- The payload in a body: all of it, or the first field of the form that is named d. -/
def payload (body : Bytes) (isForm : Bool) : Except Refusal Bytes :=
  if body.isEmpty then .error .payloadExpected
  else if !isForm then .ok body
  else if body.take 2 != [0x64, 0x3D] || body.length ≤ 2 then .error .payloadExpected
  else
    match Percent.first? "d" body with
    | some value => .ok (Utf8.encode value.toList)
    | none => .error .payloadExpected

/-! ### Handlers -/

/-- A new session of an application. -/
def newSession (m : Mount) (id : String) : Session Conduit :=
  { id := id, timing := .polling m.options, onOpen := m.onOpen, held := false }

/-- Attaches a new response to a session, which is made if there is none. -/
def attach (s : Server) (m : Mount) (id : String) (framing : Framing) (sharing : Bool)
    (r : Request) : Response × Server :=
  let hs := Headers.noCache [.ofText "content-type" framing.contentType]
  let hs := Headers.sessionCookie m.options r.headers hs
  let hs := if sharing then Headers.allowOrigin r.headers hs else hs
  let (k, w) := s.world.ensure id (newSession m id)
  let place := ((w.sessions[k]?).map (·.carriers.length)).getD 0
  let w := (w.modify k (·.introduce (peerOf r))).register k (.stream { framing := framing })
  ({ status := 200, headers := hs, body := .carried k place }, { s with world := w })

/-- The session that messages under that name are for. -/
def receiver (s : Server) (id : String) : Except Refusal Nat :=
  match s.world.find? id with
  | none => .error .unknownSession
  | some k =>
    match s.world.live? k with
    | none => .error .unknownSession
    | some session => if session.phase = .closed then .error .unknownSession else .ok k

/-- Gives a payload to a session; one that is no text closes it. -/
def deliver (s : Server) (k : Nat) (payload : Bytes) : Server × Option Refusal :=
  if payload.isEmpty then (s, some .payloadExpected)
  else
    match Utf8.text? payload with
    | none => ({ s with world := s.world.push (.close k) }, some .malformedFrame)
    | some text =>
      let (w, refused) := s.world.feed k text
      ({ s with world := w }, refused)

/-- Takes messages for a session. -/
def send (s : Server) (m : Mount) (id : String) (r : Request) : Response × Server :=
  match s.receiver id with
  | .error e => (refuse e, s)
  | .ok k =>
    match s.deliver k r.body with
    | (s, some e) => (refuse e, s)
    | (s, none) =>
      let hs := Headers.noCache [.ofText "content-type" plainText]
      let hs := Headers.sessionCookie m.options r.headers hs
      ({ status := 204, headers := Headers.allowOrigin r.headers hs }, s)

/-- Takes messages for a session from a form, or from a body as plain as that of `send`. -/
def callbackSend (s : Server) (m : Mount) (id : String) (r : Request) : Response × Server :=
  match s.receiver id with
  | .error e => (refuse e, s)
  | .ok k =>
    let isForm? : Option Bool :=
      match mediaType? r with
      | some "application/x-www-form-urlencoded" => some true
      | some "text/plain" => some false
      | _ => none
    match isForm? with
    | none => (refuse .invalidContentType, s)
    | some isForm =>
      match payload r.body isForm with
      | .error e => (refuse e, s)
      | .ok bytes =>
        match s.deliver k bytes with
        | (s, some e) => (refuse e, s)
        | (s, none) =>
          let hs := Headers.noCache [.ofText "content-type" plainText]
          ({ status := 200
             headers := Headers.sessionCookie m.options r.headers hs
             body := .text "ok" }, s)

/-- The callback that a request names. -/
def callback? (r : Request) : Option String :=
  (Percent.last? "callback" r.query).or (Percent.last? "c" r.query)

/-- Makes a message socket of the connection. Its session is its own and stands in no registry. -/
def upgrade (s : Server) (m : Mount) (id : String) (r : Request) : Response × Server :=
  let k := s.world.sessions.length
  let session : Session Conduit :=
    { id := id, timing := .fullDuplex m.options, onOpen := m.onOpen, peer := some (peerOf r) }
  let w := (s.world.add session).register k (.queue {})
  (switching, { s with world := w, links := s.links ++ [{ session := k }] })

/-- What an application offers; `entropy` is a number that clients may draw on. -/
def offer (m : Mount) (entropy : UInt32) : Json :=
  .object
    [("websocket", .bool m.options.websocketEnabled),
     ("cookie_needed", .bool m.options.insertCookie),
     ("origins", .array [.text "*:*"]), ("entropy", .nat entropy.toNat)]

/-- What a client sees at the path of an application. -/
def greeting : String := "Welcome to SockJS!\n"

/-- Answers a request for a resource of a session. -/
def respondFor (s : Server) (m : Mount) (resource : Resource) (id : String) (r : Request) :
    Response × Server :=
  let most := m.options.maxBytesStreaming.toNat
  match resource with
  | .poll => s.attach m id .poll true r
  | .stream => s.attach m id (.stream most) true r
  | .events => s.attach m id (.events most) false r
  | .callbackPoll =>
    match callback? r with
    | none => (refuse .missingCallback, s)
    | some callback => s.attach m id (.callback callback) false r
  | .send => s.send m id r
  | .callbackSend => s.callbackSend m id r
  | .socket => if r.wantsSocket then s.upgrade m id r else (cannotUpgrade, s)
  | .greeting | .info => (notFound, s)

/-- Resources whose requests have a body. -/
def takesBody : Resource → Bool
  | .send | .callbackSend => true
  | _ => false

/-- The methods named in the answer to a preflight. -/
def preflightMethods : Resource → String
  | .info => "OPTIONS, GET"
  | _ => "OPTIONS, POST"

/-- The time and the chance that an answer draws on. -/
structure Circumstance where
  /-- Seconds since the beginning of 1970. -/
  now : Nat := 0
  entropy : UInt32 := 0
  deriving DecidableEq, Repr

/-- Answers a request that found its resource, by a method that the resource has. -/
def respondTo (s : Server) (c : Circumstance) (m : Mount) (resource : Resource)
    (parameters : List (String × List Char)) (r : Request) : Response × Server :=
  if r.method = "OPTIONS" then
    ({ status := 204
       headers := Headers.preflight m.options c.now r.headers (preflightMethods resource) }, s)
  else
    match resource with
    | .greeting => (answer 200 plainText greeting, s)
    | .info =>
      let hs := Headers.noCache [.ofText "content-type" "application/json; charset=UTF-8"]
      ({ status := 200
         headers := Headers.allowOrigin r.headers hs
         body := .text (offer m c.entropy).write }, s)
    | resource =>
      match names parameters with
      | .error response => (response, s)
      | .ok names =>
        if takesBody resource && maxBody < r.body.length then (bodyTooLong, s)
        else
          match sessionName names with
          | .error e => (refuse e, s)
          | .ok id => s.respondFor m resource id r

/-- Answers a request. -/
def respond (s : Server) (c : Circumstance) (r : Request) : Response × Server :=
  match Route.find? r.target.path s.mounts.routes with
  | none => (notFound, s)
  | some (routes, values) =>
    match routes.find? (·.resource.methods.contains r.method) with
    | some route =>
      s.respondTo c route.mount route.resource (route.parameters.zip values) r
    | none => (notOffered (routes.map (·.resource)), s)

/-- Shuts the server down and counts the sessions closed. -/
def shutdown (s : Server) : Nat × Server :=
  let (count, w) := s.world.shutdown
  (count, { s with world := w })

end Server

end Duplex
