/-
Duplex/Server/Route.lean

Routes: what can be asked for under a mount, and how a path finds it.

The path of a mount is a template, and a route is a longer one; its last
parameters name a server and a session. A path finds the template that its
segments fit. Where both a given segment and a parameter would fit, the given
one is tried first, and the other if nothing is found behind it.

Two templates that fit the same paths cannot be served together, unless they
are the same and the methods that they answer differ. Nor can a mount whose
path is no template.

Main definitions: `Resource`, `Resource.methods`, `Route`, `Mounts.routes`,
`Mounts.fault?`, `Route.find?`.
-/
import Duplex.Server.Mount
import Duplex.Server.Template
import Duplex.Text.Shown

namespace Duplex

/-- What can be asked for. -/
inductive Resource where
  | greeting
  | info
  | poll
  | stream
  | send
  | callbackPoll
  | callbackSend
  | events
  | socket
  deriving DecidableEq, Repr

namespace Resource

/-- The methods that a resource answers to. -/
def methods : Resource → List String
  | .info => ["GET", "HEAD", "OPTIONS"]
  | .poll | .stream | .send => ["POST", "OPTIONS"]
  | .callbackSend => ["POST"]
  | .greeting | .callbackPoll | .events | .socket => ["GET", "HEAD"]

/-- The last segment of the path to each resource of a session. -/
def ofSession (o : Options) : List (String × Resource) :=
  [("xhr", .poll), ("xhr_streaming", .stream), ("xhr_send", .send), ("jsonp", .callbackPoll),
   ("jsonp_send", .callbackSend), ("eventsource", .events)] ++
    if o.websocketEnabled then [("websocket", .socket)] else []

end Resource

/-- The way to a resource of a mount. -/
structure Route where
  /-- The template as it is written. -/
  path : List Char
  parts : List Part
  mount : Mount
  resource : Resource

/-- What keeps mounts from being served. -/
inductive Fault where
  | reserved (sign : Char)
  | malformed (path : List Char) (flaw : Template.Flaw)
  /-- A template fits the same paths as another one, whose text is given without escapes. -/
  | taken (path other : List Char)
  | twice (method : String) (path : List Char)
  deriving DecidableEq, Repr

namespace Mount

/-- The signs that no segment of a path may begin with. -/
def reserved : List Char := [':', '*']

/-- The segments in front of every route of a mount. A parameter that stands for all that is left
of a path leaves nothing for the routes. -/
def base (m : Mount) : Except Fault (List Part) :=
  let path := m.path.toList
  match (Text.pieces (· == '/') path).findSome? fun s => reserved.find? (s.head? = some ·) with
  | some sign => .error (.reserved sign)
  | none =>
    if path.isEmpty then .ok []
    else
      match Template.read? (path.drop 1) with
      | .error flaw => .error (.malformed path flaw)
      | .ok parts =>
        if parts.any Part.isGreedy then .error (.taken (path ++ ['/']) (Template.text parts))
        else .ok parts

/-- The segments that stand for a server and a session. -/
def names : List Part := [.named [] "server".toList, .named [] "session".toList]

/-- The routes of a mount, of which there are none if its path is no template. -/
def routes (m : Mount) : List Route :=
  match m.base with
  | .error _ => []
  | .ok base =>
    let route (resource : Resource) (text : String) (parts : List Part) : Route :=
      ⟨m.path.toList ++ text.toList, base ++ parts, m, resource⟩
    let blank := [Part.given []]
    let greetings := if base.isEmpty then [route .greeting "/" blank]
      else [route .greeting "" [], route .greeting "/" blank]
    greetings ++
      route .info "/info" [.given "info".toList] ::
        (Resource.ofSession m.options).map fun (name, resource) =>
          route resource ("/\x7bserver\x7d/\x7bsession\x7d/" ++ name)
            (names ++ [.given name.toList])

end Mount

/-- The routes of all mounts. -/
def Mounts.routes (ms : Mounts) : List Route := ms.flatMap Mount.routes

/-! ### Faults -/

namespace Template.Flaw

/-- What is wrong, in words. -/
def message : Flaw → String
  | nameless => "Parameters must be registered with a valid name"
  | crowded => "Only one parameter is allowed per path segment"
  | greedy => "Catch-all parameters are only allowed at the end of a route"
  | abundant => "Too many route parameters."

end Template.Flaw

namespace Fault

/-- A path that cannot be a route, and why not. -/
def invalid (path : List Char) (why : String) : String :=
  "Invalid route " ++ String.ofList (Text.Shown.chars path) ++ ": " ++ why

/-- What is wrong, in words. -/
def message : Fault → String
  | reserved ':' =>
    "Path segments must not start with \x60:\x60. For capture groups, use " ++
    "\x60\x7bcapture\x7d\x60. If you meant to literally match a segment starting with a colon, " ++
    "call \x60without_v07_checks\x60 on the router."
  | reserved _ =>
    "Path segments must not start with \x60*\x60. For wildcard capture, use " ++
    "\x60\x7b*wildcard\x7d\x60. If you meant to literally match a segment starting with an " ++
    "asterisk, call \x60without_v07_checks\x60 on the router."
  | malformed _ .abundant => Template.Flaw.abundant.message
  | malformed path flaw => invalid path flaw.message
  | taken path other =>
    invalid path ("Insertion failed due to conflict with previously registered route: " ++
      String.ofList other)
  | twice method path =>
    "Overlapping method route. Handler for \x60" ++ method ++ " " ++ String.ofList path ++
      "\x60 already exists"

end Fault

namespace Route

/-- The names of the parameters of a route. -/
def parameters (r : Route) : List String := (r.parts.filterMap Part.name?).map String.ofList

/-- What keeps two routes from being served together, `r` being there first. Routes of one
template share its paths if they share no method; otherwise no path may fit both. -/
def fault? (r r' : Route) : Option Fault :=
  if r.path = r'.path then
    (r'.resource.methods.find? r.resource.methods.contains).map (.twice · r'.path)
  else if r.parts.map Part.shape = r'.parts.map Part.shape then
    some (.taken r'.path (Template.text r.parts))
  else none

/-- The parameters of a route are too many, be it only together with those of a session. -/
def isAbundant (r : Route) : Bool :=
  Template.maxParameters < (r.parts.filter (·.name?.isSome)).length

/-- What keeps the first of the routes that cannot be served from being served, `before` being
there first. -/
def firstFault? (before : List Route) : List Route → Option Fault
  | [] => none
  | r :: rs =>
    if r.isAbundant then some (.malformed r.path .abundant)
    else (before.findSome? (·.fault? r)).or (firstFault? (before ++ [r]) rs)

end Route

namespace Mounts

/-- What keeps the first of the mounts that cannot be served from being served, `before` being
there first. -/
def firstFault? (before : Mounts) : Mounts → Option Fault
  | [] => none
  | m :: ms =>
    match m.base with
    | .error fault => some fault
    | .ok _ =>
      (Route.firstFault? (routes before) m.routes).or (firstFault? (before ++ [m]) ms)

/-- What keeps the mounts from being served, if anything does. -/
def fault? (ms : Mounts) : Option Fault := firstFault? [] ms

end Mounts

/-! ### Finding -/

/-- The segments of a path. -/
def segments (path : List Char) : Option (List (List Char)) :=
  match path with
  | '/' :: cs => some (Text.pieces (· == '/') cs)
  | _ => none

namespace Route

/-- A route with what is left of its segments. -/
abbrev Trail := List Part × Route

/-- The trails whose next segment is the given one, without it. -/
def given (segment : List Char) (trails : List Trail) : List Trail :=
  trails.filterMap fun
    | (.given s :: rest, r) => if s = segment then some (rest, r) else none
    | _ => none

/-- The trails whose next segment is a parameter behind the given lead, without it. -/
def named (lead : List Char) (trails : List Trail) : List Trail :=
  trails.filterMap fun
    | (.named l _ :: rest, r) => if l = lead then some (rest, r) else none
    | _ => none

/-- The lengths of the leads of the trails with which a segment begins, longest first. -/
def leads (segment : List Char) (trails : List Trail) : List Nat :=
  let fitting := trails.filterMap fun
    | (.named lead _ :: _, _) => if lead.isPrefixOf segment then some lead.length else none
    | _ => none
  fitting.eraseDups.mergeSort fun m n => n ≤ m

/-- The trails that fit what is left of a path, and what their parameters stand for. A given
segment is tried before a parameter and a longer lead before a shorter one; at the end of a path a
parameter stands for something. -/
def search : List (List Char) → List Trail → Option (List Route × List (List Char))
  | _, [] => none
  | [], trails =>
    match trails.filter (·.1.isEmpty) with
    | [] => none
    | trails => some (trails.map (·.2), [])
  | segment :: path, trails =>
    (search path (given segment trails)).or
      ((leads segment trails).findSome? fun n =>
        let value := segment.drop n
        if path.isEmpty && value.isEmpty then none
        else
          (search path (named (segment.take n) trails)).map fun (rs, values) =>
            (rs, value :: values))

/-- The routes of the template that a path finds, and what its parameters stand for. -/
def find? (path : List Char) (rs : List Route) : Option (List Route × List (List Char)) :=
  (segments path).bind fun path => search path (rs.map fun r => (r.parts, r))

end Route

end Duplex
