/-
Duplex/Net/Ipv4.lean

Version 4 addresses and the digits that addresses are made of.

Readers take what they can off the front of a text and give back the rest;
one that fails takes nothing. A group of digits is always taken whole: too
many of them, a leading zero where none is allowed, or a value past the bound
make the group unreadable, they never cut it short.

Main definitions: `number?`, `Ipv4`, `Ipv4.read?`, `Ipv4.chars`.
-/
import Duplex.Text.Decimal

namespace Duplex.Net

/-! ### Digits -/

/-- The value of a digit in a radix up to sixteen, in either case. -/
def digit? (radix : Nat) (c : Char) : Option Nat :=
  let n :=
    if '0' ≤ c && c ≤ '9' then c.toNat - 48
    else if 'a' ≤ c && c ≤ 'z' then c.toNat - 87
    else if 'A' ≤ c && c ≤ 'Z' then c.toNat - 55
    else radix
  if n < radix then some n else none

/-- What the digits of a number may be. -/
structure Digits where
  radix : Nat
  most : Nat
  /-- How many digits there may be, if that is limited. -/
  limit : Option Nat
  /-- More than one digit may begin with a zero. -/
  zeroFirst : Bool

/-- The value of a row of digits after `seen`, while it is at most `most`. -/
def value? (radix most : Nat) : Nat → List Char → Option Nat
  | seen, [] => some seen
  | seen, c :: cs =>
    match digit? radix c with
    | none => none
    | some d => if seen * radix + d ≤ most then value? radix most (seen * radix + d) cs else none

/-- A number off the front of a text, and the rest. -/
def number? (form : Digits) (cs : List Char) : Option (Nat × List Char) :=
  let ds := cs.takeWhile fun c => (digit? form.radix c).isSome
  let fits := match form.limit with
    | some n => ds.length ≤ n
    | none => true
  if ds.isEmpty || !fits || (!form.zeroFirst && ds.head? == some '0' && 1 < ds.length) then none
  else (value? form.radix form.most 0 ds).map fun n => (n, cs.drop ds.length)

/-! ### Addresses -/

/-- A version 4 address. -/
structure Ipv4 where
  a : UInt8
  b : UInt8
  c : UInt8
  d : UInt8
  deriving DecidableEq, Repr

namespace Ipv4

/-- The digits of an octet. -/
def octet : Digits := ⟨10, 255, some 3, false⟩

/-- An octet after a dot. -/
def dotted? : List Char → Option (Nat × List Char)
  | '.' :: cs => number? octet cs
  | _ => none

/-- An address off the front of a text, and the rest. -/
def read? (cs : List Char) : Option (Ipv4 × List Char) :=
  match number? octet cs with
  | none => none
  | some (a, cs) =>
    match dotted? cs with
    | none => none
    | some (b, cs) =>
      match dotted? cs with
      | none => none
      | some (c, cs) =>
        (dotted? cs).map fun (d, cs) => (⟨.ofNat a, .ofNat b, .ofNat c, .ofNat d⟩, cs)

/-- The text of an address. -/
def chars (ip : Ipv4) : List Char :=
  let octet (x : UInt8) := Text.Decimal.chars x.toNat
  octet ip.a ++ '.' :: (octet ip.b ++ '.' :: (octet ip.c ++ '.' :: octet ip.d))

end Ipv4

end Duplex.Net
