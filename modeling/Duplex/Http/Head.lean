/-
Duplex/Http/Head.lean

Heads of requests as they come over a connection.

A head is read if it is not too long, its target can be read, and its lines
say in one way where the body ends; otherwise it is answered at once. A body
is counted or chunked. What is said of a count after its encoding was said is
not looked at, and all lines of a count say the same number. Of the lines of
an encoding the last one counts, and in it the last coding, by which the body
must be chunked.

Spaces and tabs around the value of a line are no part of it.

Main definitions: `Head.read?`, `Head.Flaw`, `Extent.read?`.
-/
import Duplex.Http.Message
import Duplex.Text.Decimal

namespace Duplex

open Text

/-- The head of a request as it is written. -/
structure Head where
  method : String
  target : String
  headers : Headers := []
  deriving DecidableEq, Repr

/-- What keeps a head from being read. -/
inductive Head.Flaw where
  /-- There is too much of it, or of the body. -/
  | excess
  | malformed
  deriving DecidableEq, Repr

/-- The status of the answer to a head that is not read. -/
def Head.Flaw.status : Head.Flaw → Nat
  | excess => 431
  | malformed => 400

/-! ### Where a body ends -/

/-- What is said of the end of a body. -/
inductive Extent where
  /-- Nothing: there is no body. -/
  | unsaid
  | counted (length : Nat)
  /-- The body comes in chunks, of which the last one is known. -/
  | chunked
  /-- The body is encoded in a way that does not tell its end. -/
  | endless
  deriving DecidableEq, Repr

namespace Extent

/-- The most bytes that may be counted. -/
def maxLength : Nat := Decimal.maxWord64 - 2

/-- The number in the value of a line, written in digits alone. -/
def count? (value : Bytes) : Option Nat :=
  Decimal.natural? Decimal.maxWord64 (value.map fun b => Char.ofNat b.toNat)

/-- The last of the codings in the value of a line is that in chunks. -/
def endsChunked (h : Header) : Bool :=
  match h.text? with
  | none => false
  | some text =>
    ((pieces (· == ',') text.toList).getLast?.map fun coding => (trim coding).map Char.toLower) ==
      some "chunked".toList

/-- What is said of the end of a body after one more line. -/
def next (e : Extent) (h : Header) : Except Head.Flaw Extent :=
  if h.name = "transfer-encoding" then .ok (if endsChunked h then chunked else endless)
  else if h.name = "content-length" && e != chunked && e != endless then
    match count? h.value with
    | none => .error .malformed
    | some n =>
      if e = unsaid then if maxLength < n then .error .excess else .ok (counted n)
      else if e = counted n then .ok e
      else .error .malformed
  else .ok e

/-- There is a body. -/
def hasBody : Extent → Bool
  | unsaid | counted 0 => false
  | _ => true

/-- What the lines of a head say of the end of the body. -/
def read? (hs : Headers) : Except Head.Flaw Extent :=
  match hs.foldlM next unsaid with
  | .error flaw => .error flaw
  | .ok e => if e = endless then .error .malformed else .ok e

end Extent

/-! ### Heads -/

namespace Head

/-- The most header lines. -/
def maxLines : Nat := 100

/-- A byte that is no part of a value when it stands at one of its ends. -/
def isPadding (b : UInt8) : Bool := b == 0x20 || b == 0x09

/-- A line without what surrounds its value. -/
def unpadded (h : Header) : Header :=
  { h with value := dropEndWhile isPadding (h.value.dropWhile isPadding) }

/-- The request with that head, or what is wrong with the head. -/
def read? (h : Head) : Except Flaw Request :=
  if maxLines < h.headers.length then .error .excess
  else
    match Target.read? h.target.toList with
    | none => .error .malformed
    | some target =>
      let headers := h.headers.map unpadded
      match Extent.read? headers with
      | .error flaw => .error flaw
      | .ok e =>
        .ok { method := h.method, target := target, headers := headers, switchable := true,
              awaitsBody := e.hasBody }

end Head

end Duplex
