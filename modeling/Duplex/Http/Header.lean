/-
Duplex/Http/Header.lean

Header lines of requests and responses.

Lines stand in the order in which they were added, and a name may stand on
several of them. Names are compared in lower case and kept that way; values
are bytes, of which only those with visible characters, spaces and tabs can
be read as a text.

Main definitions: `Header`, `Headers.ofPairs`, `Headers.get?`, `Headers.put`,
`Headers.without`, `Header.text?`.
-/
import Duplex.Text.Utf8

namespace Duplex

open Text

/-- A header line. -/
structure Header where
  /-- The name, in lower case. -/
  name : String
  value : Bytes
  deriving DecidableEq, Repr

/-- Header lines in order. -/
abbrev Headers := List Header

/-- A text in lower case, ASCII letters only. -/
def lowerCase (s : String) : String := String.ofList (s.toList.map Char.toLower)

namespace Header

/-- A line with a value of plain text. -/
def ofText (name value : String) : Header := ⟨name, Utf8.encode value.toList⟩

/-- A byte that a readable value may hold. -/
def isVisible (b : UInt8) : Bool := (0x20 ≤ b && b < 0x7F) || b == 0x09

/-- The value as a text, if all of it is readable. -/
def text? (h : Header) : Option String :=
  if h.value.all isVisible then
    some (String.ofList (h.value.map fun b => Char.ofNat b.toNat))
  else none

end Header

namespace Headers

/-- The lines with these names and values. -/
def ofPairs (pairs : List (String × Bytes)) : Headers :=
  pairs.map fun (name, value) => ⟨lowerCase name, value⟩

/-- The lines of that name. -/
def all (hs : Headers) (name : String) : Headers := hs.filter (·.name == name)

/-- The first line of that name. -/
def get? (hs : Headers) (name : String) : Option Header := hs.find? (·.name == name)

/-- The lines of every other name. -/
def without (hs : Headers) (name : String) : Headers := hs.filter (·.name != name)

/-- The lines with `h` in place of every line of its name. -/
def put (hs : Headers) (h : Header) : Headers := hs.without h.name ++ [h]

/-- The lines in order of their names. -/
def sorted (hs : Headers) : Headers := hs.mergeSort fun a b => a.name ≤ b.name

end Headers

end Duplex
