/-
Duplex/Http/Message.lean

Requests and responses.

The body of a response is a text, or it is carried: then it is a carrier of a
session, and what stands on it is written there.

Main definitions: `Request`, `Request.query`, `Request.wantsSocket`, `Response`.
-/
import Duplex.Http.Header
import Duplex.Http.Target

namespace Duplex

open Text

/-- A request. -/
structure Request where
  method : String
  target : Target
  headers : Headers := []
  body : Bytes := []
  /-- The connection may be switched to another protocol. -/
  switchable : Bool := false
  /-- A body was announced that has not come. While it is waited for, nobody notices that the
  client goes away. -/
  awaitsBody : Bool := false
  deriving DecidableEq, Repr

namespace Request

/-- The query, empty if there is none. -/
def query (r : Request) : Bytes := Utf8.encode (r.target.query.getD [])

/-- The value of the first line of that name as a text, if it is readable. -/
def header? (r : Request) (name : String) : Option String := (r.headers.get? name).bind (·.text?)

/-- The first line of that name as a text in lower case, empty if there is none or it is none. -/
def lowerHeader (r : Request) (name : String) : List Char :=
  (((r.headers.get? name).bind fun h => Utf8.text? h.value).getD "").toList.map Char.toLower

/-- The request asks, in the way that is agreed on, to make a message socket of the connection.
Only the first line of each name counts. That of the connection need only mention the upgrade. -/
def wantsSocket (r : Request) : Bool :=
  r.switchable && r.method == "GET" && mentions "upgrade".toList (r.lowerHeader "connection") &&
    r.lowerHeader "upgrade" == "websocket".toList &&
    r.lowerHeader "sec-websocket-version" == "13".toList &&
    (r.headers.get? "sec-websocket-key").isSome

end Request

/-- The body of a response. -/
inductive Body where
  | text (value : String)
  | carried (session place : Nat)
  deriving DecidableEq, Repr

/-- A response. -/
structure Response where
  status : Nat
  headers : Headers := []
  body : Body := .text ""
  deriving DecidableEq, Repr

end Duplex
