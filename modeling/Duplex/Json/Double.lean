/-
Duplex/Json/Double.lean

Numbers of the 64-bit binary format, computed exactly.

A magnitude is a mantissa of at most 53 bits times a power of two. Products
and quotients are taken exactly and then rounded to the nearest magnitude, a
tie to the even mantissa; what is too large for the format is no magnitude,
what is too small becomes zero.

Scaling by a power of ten takes one such step when the power itself is within
the format. A smaller power takes several, so the last bit of the outcome may
be off: scaling is not the same as rounding once.

Main definitions: `Magnitude.nearest?`, `Magnitude.scale?`,
`Magnitude.shortest`, `Double`.
-/
import Duplex.Text.Decimal

namespace Duplex

/-- A mantissa times a power of two. -/
structure Magnitude where
  mantissa : Nat
  /-- The power of two. -/
  exponent : Int
  deriving DecidableEq, Repr

namespace Magnitude

/-- Nothing at all. -/
def zero : Magnitude := ⟨0, 0⟩

/-! ### Rounding -/

/-- The whole number nearest to a quotient, the even one of two. -/
def quotient (num den : Nat) : Nat :=
  let q := num / den
  let r := 2 * (num % den)
  if r < den ∨ (r = den ∧ q % 2 = 0) then q else q + 1

/-- A number times a power of two that is not below zero. -/
def shifted (n : Nat) (k : Int) : Nat := n * Nat.pow 2 k.toNat

/-- The least power of two. -/
def minExponent : Int := -1074

/-- The greatest power of two. -/
def maxExponent : Int := 971

/-- The power of two just at or below `num / den` times two to the power `scale`. -/
def order (num den : Nat) (scale : Int) : Int :=
  let guess : Int := (num.log2 : Int) - den.log2 + scale
  if shifted den (guess - scale) ≤ shifted num (scale - guess) then guess else guess - 1

/-- The magnitude nearest to `num / den` times two to the power `scale`, if that is in reach. -/
def nearest? (num den : Nat) (scale : Int) : Option Magnitude :=
  if num = 0 then some zero
  else
    let e := max (order num den scale - 52) minExponent
    let m := quotient (shifted num (scale - e)) (shifted den (e - scale))
    if m = 0 then some zero
    else
      let v : Magnitude := if m = Nat.pow 2 53 then ⟨Nat.pow 2 52, e + 1⟩ else ⟨m, e⟩
      if v.exponent ≤ maxExponent then some v else none

/-- The product, rounded. -/
def times? (a b : Magnitude) : Option Magnitude :=
  nearest? (a.mantissa * b.mantissa) 1 (a.exponent + b.exponent)

/-- The quotient, rounded. -/
def over? (a b : Magnitude) : Option Magnitude :=
  nearest? a.mantissa b.mantissa (a.exponent - b.exponent)

/-! ### Powers of ten -/

/-- The greatest power of ten within the format. -/
def maxPower : Nat := 308

/-- A power of ten, rounded. -/
def tenTo (k : Nat) : Magnitude := (nearest? (Nat.pow 10 k) 1 0).getD zero

/-- A magnitude times a power of ten, rounded at every step. -/
def scale? (v : Magnitude) (e : Int) : Option Magnitude :=
  if e.natAbs ≤ maxPower then
    if 0 ≤ e then v.times? (tenTo e.natAbs) else v.over? (tenTo e.natAbs)
  else if v.mantissa = 0 then some v
  else if 0 ≤ e then none
  else
    match v.over? (tenTo maxPower) with
    | none => none
    | some v => v.scale? (e + maxPower)
termination_by e.natAbs
decreasing_by
  simp only [maxPower] at *
  omega

/-! ### Decimals -/

/-- The decimal `digits` times a power of ten rounds to `v`. -/
def readsBack (v : Magnitude) (digits : Nat) (power : Int) : Bool :=
  nearest? (digits * Nat.pow 10 power.toNat) (Nat.pow 10 (-power).toNat) 0 == some v

/-- The numerator and the denominator of `v` over a power of ten. -/
def ratio (v : Magnitude) (power : Int) : Nat × Nat :=
  (shifted v.mantissa v.exponent * Nat.pow 10 (-power).toNat,
   shifted 1 (-v.exponent) * Nat.pow 10 power.toNat)

/-- The nearer of the two multiples of a power of ten around `v`, or else the other one, provided
that it rounds to `v`. -/
def decimal? (v : Magnitude) (power : Int) : Option (Nat × Int) :=
  let (num, den) := v.ratio power
  let below := num / den
  let around := if 2 * (num % den) ≤ den then [below, below + 1] else [below + 1, below]
  (around.find? (v.readsBack · power)).map (·, power)

/-- All digits of `v`, with a power of ten. -/
def exact (v : Magnitude) : Nat × Int :=
  (shifted v.mantissa v.exponent * Nat.pow 5 (-v.exponent).toNat, min v.exponent 0)

/-- A power of ten that `v` stays below. -/
def bound (v : Magnitude) : Int :=
  let (num, den) := v.ratio 0
  ((Text.Decimal.chars num).length : Int) - (Text.Decimal.chars den).length + 1

/-- The fewest digits that round to `v`, with a power of ten. -/
def shortest (v : Magnitude) : Nat × Int :=
  ((List.range 18).findSome? fun (n : Nat) => v.decimal? (v.bound - 1 - n)).getD v.exact

example : (nearest? 1 10 0).map shortest = some (1, -1) := by decide +kernel

example : nearest? (2 ^ 1024 - 2 ^ 970) 1 0 = none := by decide +kernel

end Magnitude

/-- A number of the 64-bit binary format. Zero has a sign. -/
structure Double where
  /-- It is below zero, or the zero with a minus sign. -/
  negative : Bool
  magnitude : Magnitude
  deriving DecidableEq, Repr

end Duplex
