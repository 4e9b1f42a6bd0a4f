/-
Duplex/Net/Ipv6.lean

Version 6 addresses.

An address is eight groups of sixteen bits. Read, they are hexadecimal digits
between colons; the last two may be written as a version 4 address, and one
double colon may stand for a run of zero groups, at least one of them.

Written, the first of the longest runs of two or more zero groups becomes a
double colon, digits are lower-case without leading zeros, and an address that
maps a version 4 address shows that address.

Main definitions: `Ipv6`, `Ipv6.read?`, `Ipv6.chars`.
-/
import Duplex.Net.Ipv4

namespace Duplex.Net

/-- A version 6 address. -/
structure Ipv6 where
  groups : Vector UInt16 8
  deriving DecidableEq, Repr

namespace Ipv6

/-! ### Reading -/

/-- The digits of a group. -/
def group : Digits := ⟨16, 65535, some 4, true⟩

/-- Reads behind a colon, or without one in first place. -/
def separated? {α : Type} (first : Bool) (read? : List Char → Option (α × List Char)) :
    List Char → Option (α × List Char)
  | cs =>
    if first then read? cs
    else match cs with
      | ':' :: cs => read? cs
      | _ => none

/-- The groups that a version 4 address fills. -/
def ofIpv4 (ip : Ipv4) : List Nat :=
  [ip.a.toNat * 256 + ip.b.toNat, ip.c.toNat * 256 + ip.d.toNat]

/-- As many groups as can be read, at most `room`; whether they end in a version 4 address; and
the rest. A version 4 address needs room for two groups. -/
def readGroups (first : Bool) : Nat → List Char → List Nat × Bool × List Char
  | 0, cs => ([], false, cs)
  | room + 1, cs =>
    match if room = 0 then none else separated? first Ipv4.read? cs with
    | some (ip, rest) => (ofIpv4 ip, true, rest)
    | none =>
      match separated? first (number? group) cs with
      | some (g, rest) =>
        let (gs, mapped, rest) := readGroups false room rest
        (g :: gs, mapped, rest)
      | none => ([], false, cs)

/-- The address with these groups in front, zeros after them. -/
def ofGroups (gs : List Nat) : Ipv6 :=
  ⟨Vector.ofFn fun i => .ofNat (gs.getD i 0)⟩

/-- An address off the front of a text, and the rest. -/
def read? (cs : List Char) : Option (Ipv6 × List Char) :=
  let (front, mapped, rest) := readGroups true 8 cs
  if front.length = 8 then some (ofGroups front, rest)
  else if mapped then none
  else match rest with
    | ':' :: ':' :: rest =>
      let (back, _, rest) := readGroups true (7 - front.length) rest
      let zeros := List.replicate (8 - front.length - back.length) 0
      some (ofGroups (front ++ zeros ++ back), rest)
    | _ => none

/-! ### Writing -/

/-- The digits of a group. -/
def groupChars (g : UInt16) : List Char := Nat.toDigits 16 g.toNat

/-- Groups with colons between them. -/
def groupsChars : List UInt16 → List Char
  | [] => []
  | [g] => groupChars g
  | g :: gs => groupChars g ++ ':' :: groupsChars gs

/-- How many zero groups stand from place `i` on. -/
def zerosAt (gs : List UInt16) (i : Nat) : Nat :=
  ((gs.drop i).takeWhile (· == 0)).length

/-- Where the first of the longest runs of zero groups stands, and how long it is. -/
def longestZeros (gs : List UInt16) : Nat × Nat :=
  (List.range gs.length).foldl
    (fun best i => if best.2 < zerosAt gs i then (i, zerosAt gs i) else best) (0, 0)

/-- The version 4 address that a mapped address holds. -/
def mapped? (gs : List UInt16) : Option Ipv4 :=
  match gs with
  | [0, 0, 0, 0, 0, 0xffff, x, y] =>
    some ⟨.ofNat (x.toNat / 256), .ofNat x.toNat, .ofNat (y.toNat / 256), .ofNat y.toNat⟩
  | _ => none

/-- The address is the one that stands for every address. -/
def isUnspecified (ip : Ipv6) : Bool := ip.groups.toList.all (· == 0)

/-- The text of an address. -/
def chars (ip : Ipv6) : List Char :=
  let gs := ip.groups.toList
  match mapped? gs with
  | some v4 => "::ffff:".toList ++ v4.chars
  | none =>
    let (start, length) := longestZeros gs
    if 1 < length then
      groupsChars (gs.take start) ++ ':' :: ':' :: groupsChars (gs.drop (start + length))
    else groupsChars gs

end Ipv6

end Duplex.Net
