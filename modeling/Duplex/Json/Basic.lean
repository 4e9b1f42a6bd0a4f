/-
Duplex/Json/Basic.lean

JSON values.

A numeral holds as many of its leading digits as a 64-bit word has room for;
what comes after those only counts by its place. A numeral without fraction
and exponent whose digits are all held is a whole number in the range that
64-bit words cover, signed or unsigned. Every other numeral is a double: its
digits, scaled by a power of ten.

An object is a row of members. Objects that come from a text have no key
twice: `insert` replaces the value of a key in place, or puts a new member at
the end.

Main definitions: `Numeral`, `Number`, `Json`, `Json.insert`, `Json.get?`.
-/
import Duplex.Json.Double

namespace Duplex

/-! ### Numbers -/

/-- A decimal numeral: plus or minus `digits` times ten to the power `exponent`. -/
structure Numeral where
  negative : Bool
  /-- The leading digits, as many as a 64-bit word has room for. -/
  digits : Nat
  /-- The power of ten. -/
  exponent : Int
  /-- Neither a decimal point nor an exponent is written, and all digits are held. -/
  plain : Bool
  deriving DecidableEq, Repr

/-- A number as a value. -/
inductive Number where
  /-- A whole number from -2^63 to 2^64 - 1. -/
  | whole (value : Int)
  | real (value : Double)
  deriving DecidableEq, Repr

namespace Numeral

/-- The value as a number without sign, fraction or exponent, if it is written as one. -/
def natural? (n : Numeral) : Option Nat :=
  if n.plain && !n.negative then some n.digits else none

/-- The double that a numeral denotes, if it is in reach. -/
def double? (n : Numeral) : Option Double :=
  ((Magnitude.nearest? n.digits 1 0).bind (·.scale? n.exponent)).map (⟨n.negative, ·⟩)

/-- The number that a numeral denotes. Minus zero is no whole number. -/
def number? (n : Numeral) : Option Number :=
  if n.plain && !n.negative then some (.whole n.digits)
  else if n.plain && n.digits != 0 && n.digits ≤ Nat.pow 2 63 then some (.whole (-n.digits))
  else n.double?.map .real

end Numeral

/-- A numeral that is written for a number. -/
def Number.numeral : Number → Numeral
  | .whole value => ⟨decide (value < 0), value.natAbs, 0, true⟩
  | .real d => let (digits, power) := d.magnitude.shortest; ⟨d.negative, digits, power, false⟩

/-! ### Values -/

/-- A JSON value. -/
inductive Json where
  | null
  | bool (value : Bool)
  | number (value : Number)
  | text (value : String)
  | array (items : List Json)
  | object (members : List (String × Json))

namespace Json

/-- A whole number as a value. -/
def nat (n : Nat) : Json := .number (.whole n)

/-- The value is null. -/
def isNull : Json → Bool
  | .null => true
  | _ => false

/-- Members with `value` under `key`: in place if the key is there, at the end if it is not. -/
def insert (key : String) (value : Json) : List (String × Json) → List (String × Json)
  | [] => [(key, value)]
  | (k, v) :: rest =>
    if k = key then (key, value) :: rest else (k, v) :: insert key value rest

/-- The value of a member of an object. -/
def get? (key : String) : Json → Option Json
  | .object members => members.lookup key
  | _ => none

/-- A member just inserted is found. -/
theorem lookup_insert_self (key : String) (value : Json) (members : List (String × Json)) :
    (insert key value members).lookup key = some value := by
  induction members with
  | nil => simp [insert]
  | cons m rest ih =>
    obtain ⟨k, v⟩ := m
    by_cases h : k = key
    · simp [insert, h]
    · have h' : (key == k) = false := by simp [Ne.symm h]
      simp [insert, h, List.lookup_cons, h', ih]

/-- Inserting under one key leaves the others as they are. -/
theorem lookup_insert_of_ne {key other : String} (h : other ≠ key) (value : Json)
    (members : List (String × Json)) :
    (insert key value members).lookup other = members.lookup other := by
  have h' : (other == key) = false := by simp [h]
  induction members with
  | nil => simp [insert, List.lookup_cons, h']
  | cons m rest ih =>
    obtain ⟨k, v⟩ := m
    by_cases hk : k = key
    · subst hk
      simp [insert, List.lookup_cons, h']
    · simp [insert, hk, List.lookup_cons, ih]

end Json

end Duplex
