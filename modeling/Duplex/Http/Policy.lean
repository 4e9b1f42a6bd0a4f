/-
Duplex/Http/Policy.lean

Policies: the header lines that every response of some kind carries.

* A response that carries a session is not to be kept.
* The requesting origin may read a response, credentials included; the origin
  named null is no origin.
* The answer to a preflight may be kept for a year.
* Where the application asks for it, the client's session cookie is sent back
  to it, or a dummy one. Only readable cookie lines are looked at, and the
  cookie is the first pair of that name.

Main definitions: `Headers.noCache`, `Headers.allowOrigin`,
`Headers.cacheForAYear`, `Headers.sessionCookie`, `Headers.preflight`.
-/
import Duplex.Http.Date
import Duplex.Http.Header
import Duplex.Options

namespace Duplex.Headers

open Text

/-- Forbids keeping the response. -/
def noCache (hs : Headers) : Headers :=
  hs.put (.ofText "cache-control" "no-store, no-cache, must-revalidate, max-age=0")

/-! ### Origins -/

/-- The origin that may read the response. -/
def allowedOrigin (request : Headers) : Bytes :=
  match (request.get? "origin").filter fun h => h.value != Utf8.encode "null".toList with
  | some h => h.value
  | none => Utf8.encode ['*']

/-- Lets the requesting origin read the response, with credentials and the headers it asked for. -/
def allowOrigin (request hs : Headers) : Headers :=
  let hs := hs.put ⟨"access-control-allow-origin", allowedOrigin request⟩
  let hs := hs.put (.ofText "access-control-allow-credentials" "true")
  match request.get? "access-control-request-headers" with
  | some h => hs.put ⟨"access-control-allow-headers", h.value⟩
  | none => hs

/-! ### A year -/

/-- The seconds of a year. -/
def oneYear : Nat := 31536000

/-- Lets the client keep the response for a year from `now` on. -/
def cacheForAYear (now : Nat) (hs : Headers) : Headers :=
  let hs := hs.put (.ofText "cache-control" "public, max-age=31536000")
  let hs := hs.put (.ofText "expires" (Date.text (now + oneYear)))
  hs.put (.ofText "access-control-max-age" (Decimal.text oneYear))

/-! ### The session cookie -/

/-- The name of the session cookie. -/
def cookieName : String := "JSESSIONID"

/-- The value sent to a client that has no session cookie. -/
def dummyCookie : String := "dummy"

/-- Names and values in the text of a cookie line. -/
def cookiePairs (line : String) : List (List Char × List Char) :=
  (pieces (· == ';') line.toList).filterMap fun pair => cut (· == '=') (trim pair)

/-- The client's session cookie. -/
def clientCookie? (request : Headers) : Option String :=
  let pairs := (request.all "cookie").filterMap Header.text? |>.flatMap cookiePairs
  (pairs.find? (·.1 == cookieName.toList)).map fun pair => String.ofList pair.2

/-- Sends the session cookie back where the options ask for it. -/
def sessionCookie (o : Options) (request hs : Headers) : Headers :=
  if o.insertCookie then
    let value := (clientCookie? request).getD dummyCookie
    hs.put (.ofText "set-cookie" (cookieName ++ "=" ++ value ++ "; path=/"))
  else hs

/-- The header lines of the answer to a preflight. -/
def preflight (o : Options) (now : Nat) (request : Headers) (methods : String) : Headers :=
  let hs := cacheForAYear now []
  let hs := hs.put (.ofText "access-control-allow-methods" methods)
  sessionCookie o request (allowOrigin request hs)

end Duplex.Headers
