/-
Duplex/Json/Reader.lean

Trees as values.

Read as a value, a tree is held to everything: every text must join up, every
number must be in reach, and containers may be nested at most 127 deep. Of
repeated keys the last one counts.

`Tree.ofJson` goes the other way, so that a value can be read wherever a tree
can.

Main definitions: `Tree.json?`, `Json.read?`, `Tree.ofJson`.
-/
import Duplex.Json.Tree

namespace Duplex

namespace Tree

/-- The characters of a quoted text as a string. -/
def string? (gs : List Quoted.Glyph) : Option String :=
  (Quoted.join? gs).map String.ofList

mutual

/-- The value of a tree, with room for `room` more containers inside each other. -/
def jsonWithin? (room : Nat) : Tree → Option Json
  | .null => some .null
  | .bool b => some (.bool b)
  | .number n => n.number?.map .number
  | .text gs => (string? gs).map .text
  | .array items =>
    match room with
    | 0 => none
    | room + 1 => (itemsWithin? room items).map .array
  | .object members =>
    match room with
    | 0 => none
    | room + 1 => (membersWithin? room [] members).map .object

/-- The values of a row of trees. -/
def itemsWithin? (room : Nat) : List Tree → Option (List Json)
  | [] => some []
  | t :: ts =>
    match jsonWithin? room t with
    | none => none
    | some v => (itemsWithin? room ts).map (v :: ·)

/-- The members of an object after those in `acc`. -/
def membersWithin? (room : Nat) (acc : List (String × Json)) :
    List (List Quoted.Glyph × Tree) → Option (List (String × Json))
  | [] => some acc
  | (gs, t) :: ms =>
    match string? gs, jsonWithin? room t with
    | some key, some v => membersWithin? room (Json.insert key v acc) ms
    | _, _ => none

end

/-- The greatest number of containers inside each other. -/
def maxDepth : Nat := 127

/-- The value of a tree. -/
def json? (t : Tree) : Option Json := jsonWithin? maxDepth t

/-- A string as glyphs. -/
def glyphs (s : String) : List Quoted.Glyph := s.toList.map .char

mutual

/-- The tree of a value. -/
def ofJson : Json → Tree
  | .null => .null
  | .bool b => .bool b
  | .number n => .number n.numeral
  | .text s => .text (glyphs s)
  | .array items => .array (ofItems items)
  | .object members => .object (ofMembers members)

/-- The trees of a row of values. -/
def ofItems : List Json → List Tree
  | [] => []
  | v :: vs => ofJson v :: ofItems vs

/-- The trees of a row of members. -/
def ofMembers : List (String × Json) → List (List Quoted.Glyph × Tree)
  | [] => []
  | (key, v) :: ms => (glyphs key, ofJson v) :: ofMembers ms

end

end Tree

/-- The value that a text is written for. -/
def Json.read? (s : String) : Option Json := (Tree.read? s.toList).bind Tree.json?

end Duplex
