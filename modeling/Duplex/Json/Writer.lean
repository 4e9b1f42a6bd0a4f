/-
Duplex/Json/Writer.lean

Values as texts, without a space that is not part of a text.

A whole number is written in decimal. A double is written with the fewest
digits that round to it and with an exponent, so that reading it never gives a
whole number.

Main definitions: `Numeral.chars`, `Json.chars`, `Json.write`.
-/
import Duplex.Json.Basic
import Duplex.Json.Quoted

namespace Duplex

/-- An integer in decimal. -/
def integerChars (i : Int) : List Char :=
  if i < 0 then '-' :: Text.Decimal.chars i.natAbs else Text.Decimal.chars i.natAbs

/-- A numeral with its exponent. -/
def Numeral.chars (n : Numeral) : List Char :=
  (if n.negative then ['-'] else []) ++ Text.Decimal.chars n.digits ++
    'e' :: integerChars n.exponent

/-- The digits of a number. -/
def Number.chars : Number → List Char
  | .whole value => integerChars value
  | n => n.numeral.chars

namespace Json

mutual

/-- The characters of a value. -/
def chars : Json → List Char
  | .null => ['n', 'u', 'l', 'l']
  | .bool true => ['t', 'r', 'u', 'e']
  | .bool false => ['f', 'a', 'l', 's', 'e']
  | .number n => n.chars
  | .text s => Quoted.write s.toList
  | .array items => '[' :: (itemsChars items ++ [']'])
  | .object members => '\x7b' :: (membersChars members ++ ['\x7d'])

/-- Items with commas between them. -/
def itemsChars : List Json → List Char
  | [] => []
  | [v] => chars v
  | v :: vs => chars v ++ ',' :: itemsChars vs

/-- Members with commas between them. -/
def membersChars : List (String × Json) → List Char
  | [] => []
  | [(key, v)] => Quoted.write key.toList ++ ':' :: chars v
  | (key, v) :: ms => Quoted.write key.toList ++ ':' :: (chars v ++ ',' :: membersChars ms)

end

/-- The text of a value. -/
def write (v : Json) : String := String.ofList v.chars

end Json

end Duplex
