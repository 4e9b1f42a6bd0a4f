/-
Duplex/Net/Loose.lean

Loose spellings of version 4 addresses.

A loose spelling is one to four numbers with dots between them. The last
number fills all octets that the others leave, so the fewer there are, the
greater it may be. A number is hexadecimal behind 0x, octal behind another
zero, and decimal otherwise.

Every strict spelling without zeros in front of an octet is a loose one of the
same address, but a zero in front makes an octet octal.

Main definition: `Ipv4.loose?`.
-/
import Duplex.Net.Ipv4

namespace Duplex.Net.Ipv4

/-- The greatest number, which fills four octets. -/
def greatest : Nat := Nat.pow 256 4 - 1

/-- One or more digits and nothing else. -/
def digits? (radix : Nat) (cs : List Char) : Option Nat :=
  if cs.isEmpty then none else value? radix greatest 0 cs

/-- A number in the radix that its beginning says. -/
def looseNumber? : List Char → Option Nat
  | '0' :: c :: cs => if c = 'x' ∨ c = 'X' then digits? 16 cs else digits? 8 (c :: cs)
  | cs => digits? 10 cs

/-- The last octets of a number, as many as asked for, the greatest first. -/
def octets : Nat → Nat → List Nat
  | 0, _ => []
  | count + 1, n => octets count (n / 256) ++ [n % 256]

/-- The octets of an address whose spelling has these numbers. -/
def looseOctets? (numbers : List Nat) : Option (List Nat) :=
  let front := numbers.dropLast
  let room := 4 - front.length
  match numbers.getLast? with
  | none => none
  | some last =>
    if front.length < 4 ∧ (∀ n ∈ front, n < 256) ∧ last < Nat.pow 256 room then
      some (front ++ octets room last)
    else none

/-- The address with that loose spelling. -/
def loose? (cs : List Char) : Option Ipv4 :=
  match ((Text.pieces (· == '.') cs).mapM looseNumber?).bind looseOctets? with
  | some [a, b, c, d] => some ⟨.ofNat a, .ofNat b, .ofNat c, .ofNat d⟩
  | _ => none

example : loose? "0x7f.1".toList = some ⟨127, 0, 0, 1⟩ := by decide

example : loose? "0177.0.0.08".toList = none := by decide

end Duplex.Net.Ipv4
