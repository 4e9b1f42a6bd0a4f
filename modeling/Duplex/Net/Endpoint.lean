/-
Duplex/Net/Endpoint.lean

Endpoints, and the host and port a server binds.

An endpoint is an address with a port. A version 6 address stands in brackets
before its port and may carry a numbered scope.

A binding is a host text, of any kind, with a port. Its address text puts
brackets around a host that holds a colon and has none yet; it names an
endpoint when all of it reads as one.

Main definitions: `Endpoint`, `Endpoint.parse?`, `Endpoint.text`, `Binding`,
`Binding.address`, `Binding.endpoint?`.
-/
import Duplex.Net.Ipv6
import Duplex.Json.Record

namespace Duplex

open Net

/-- An address with a port. -/
inductive Endpoint where
  | v4 (ip : Ipv4) (port : UInt16)
  /-- A version 6 address; scope zero is no scope. -/
  | v6 (ip : Ipv6) (scope : UInt32) (port : UInt16)
  deriving DecidableEq, Repr

namespace Endpoint

/-- The digits of a port. -/
def portDigits : Digits := ⟨10, 65535, none, true⟩

/-- The digits of a scope. -/
def scopeDigits : Digits := ⟨10, 4294967295, none, true⟩

/-- The port at the end of a text. -/
def port? : List Char → Option UInt16
  | ':' :: cs =>
    match number? portDigits cs with
    | some (n, []) => some (.ofNat n)
    | _ => none
  | _ => none

/-- The scope of an address, zero if it has none, and the rest. -/
def scope? : List Char → Option (UInt32 × List Char)
  | '%' :: cs => (number? scopeDigits cs).map fun (n, cs) => (.ofNat n, cs)
  | cs => some (0, cs)

/-- A version 6 endpoint whose opening bracket was just passed. -/
def bracketed? (cs : List Char) : Option Endpoint :=
  match Ipv6.read? cs with
  | none => none
  | some (ip, cs) =>
    match scope? cs with
    | some (scope, ']' :: cs) => (port? cs).map (.v6 ip scope)
    | _ => none

/-- The endpoint that a whole text names. -/
def parseChars? : List Char → Option Endpoint
  | '[' :: cs => bracketed? cs
  | cs =>
    match Ipv4.read? cs with
    | none => none
    | some (ip, cs) => (port? cs).map (.v4 ip)

/-- The endpoint that a whole text names. -/
def parse? (s : String) : Option Endpoint := parseChars? s.toList

/-- The text of an endpoint. -/
def chars : Endpoint → List Char
  | .v4 ip port => ip.chars ++ ':' :: Text.Decimal.chars port.toNat
  | .v6 ip scope port =>
    '[' :: (ip.chars ++ (if scope = 0 then [] else '%' :: Text.Decimal.chars scope.toNat) ++
      ']' :: ':' :: Text.Decimal.chars port.toNat)

/-- The text of an endpoint. -/
def text (e : Endpoint) : String := String.ofList e.chars

end Endpoint

/-! ### Bindings -/

/-- Where a server listens. -/
structure Binding where
  host : String := "127.0.0.1"
  /-- The port to bind; zero leaves the choice to the system. -/
  port : UInt16 := 0
  deriving DecidableEq, Repr, Inhabited

namespace Binding

/-- The parts of a binding, in order. -/
def fields : List (Field Binding) :=
  [.of "host" Tree.str? fun h b => { b with host := h },
   .of "port" Tree.word16? fun p b => { b with port := p }]

/-- The binding that a text holds. -/
def read? (s : String) : Option Binding := Record.read? fields {} s

/-- The binding as a value. -/
def json (b : Binding) : Json :=
  .object [("host", .text b.host), ("port", .nat b.port.toNat)]

/-- The host wants brackets around it. -/
def needsBrackets (host : List Char) : Bool :=
  host.contains ':' && host.head? != some '['

/-- The host as it stands in front of a port. -/
def hostChars (b : Binding) : List Char :=
  let host := b.host.toList
  if needsBrackets host then '[' :: (host ++ [']']) else host

/-- The characters of host and port. -/
def addressChars (b : Binding) : List Char :=
  b.hostChars ++ ':' :: Text.Decimal.chars b.port.toNat

/-- Host and port as one text. -/
def address (b : Binding) : String := String.ofList b.addressChars

/-- The endpoint, when the host is a literal address. -/
def endpoint? (b : Binding) : Option Endpoint := Endpoint.parseChars? b.addressChars

end Binding

end Duplex
