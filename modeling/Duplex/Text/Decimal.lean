/-
Duplex/Text/Decimal.lean

Whole numbers in decimal.

Reading is bounded: digits are taken one at a time and the reading fails at
the first digit that carries the value past the bound, so a text of any
length is read in bounded space and never as a wrapped number.

* `natural?` wants one or more digits and nothing else;
* `unsigned?` allows one plus sign before them;
* `inRange?` also trims blanks and asks for a least value.

Writing is `Nat.toDigits 10`, which the core library states laws for.
-/
import Duplex.Text.Blank

namespace Duplex.Text.Decimal

/-- The greatest number of 64 bits. -/
def maxWord64 : Nat := 18446744073709551615

/-- The greatest number of 16 bits. -/
def maxWord16 : Nat := 65535

/-! ### Reading -/

/-- The value of an ASCII digit. -/
def digit? (c : Char) : Option Nat :=
  if '0' ≤ c && c ≤ '9' then some (c.toNat - 48) else none

/-- The number that `seen` followed by the digits `cs` stands for, while it is at most `limit`. -/
def accumulate (limit : Nat) : Nat → List Char → Option Nat
  | seen, [] => some seen
  | seen, c :: cs =>
    match digit? c with
    | none => none
    | some d =>
      if seen * 10 + d ≤ limit then accumulate limit (seen * 10 + d) cs else none

/-- One or more digits, with a value of at most `limit`. -/
def natural? (limit : Nat) (cs : List Char) : Option Nat :=
  if cs.isEmpty then none else accumulate limit 0 cs

/-- Digits after at most one plus sign. -/
def unsigned? (limit : Nat) : List Char → Option Nat
  | '+' :: cs => natural? limit cs
  | cs => natural? limit cs

/-- A 64-bit number between blanks, from `least` to `most`. -/
def inRange? (text : String) (least most : Nat) : Option Nat :=
  (unsigned? maxWord64 (trim text.toList)).filter fun n => least ≤ n && n ≤ most

/-! ### Writing -/

/-- The decimal digits of a number. -/
def chars (n : Nat) : List Char := Nat.toDigits 10 n

/-- The decimal text of a number. -/
def text (n : Nat) : String := String.ofList (chars n)

example : unsigned? maxWord64 "+007".toList = some 7 := by decide

example : unsigned? maxWord64 "18446744073709551616".toList = none := by decide

end Duplex.Text.Decimal
