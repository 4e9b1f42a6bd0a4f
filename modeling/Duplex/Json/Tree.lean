/-
Duplex/Json/Tree.lean

The tree of a JSON text, before anything is asked of its parts.

A tree keeps every member of an object, in order and with repeated keys, and
keeps quoted texts as glyphs and numbers as numerals. Whether a text joins up,
a number is in range or a key is repeated is decided by whoever reads that
part of the tree; a part that nobody reads only has to be a tree.

Trees are built from tokens by a machine with a stack of open containers, one
token a step, so the depth of a text costs no recursion.

Main definitions: `Tree`, `Tree.Machine.step`, `Tree.ofTokens?`, `Tree.read?`.
-/
import Duplex.Json.Token

namespace Duplex

/-- A JSON text as it is written. -/
inductive Tree where
  | null
  | bool (value : Bool)
  | number (value : Numeral)
  | text (glyphs : List Quoted.Glyph)
  | array (items : List Tree)
  | object (members : List (List Quoted.Glyph × Tree))

namespace Tree

/-- A container that is not closed yet, its parts last one first. -/
inductive Level where
  | items (done : List Tree)
  /-- An object between two members. -/
  | members (done : List (List Quoted.Glyph × Tree))
  /-- An object whose next value belongs to `key`. -/
  | pending (done : List (List Quoted.Glyph × Tree)) (key : List Quoted.Glyph)

/-- Which tokens the machine takes next. -/
inductive Want where
  | value
  /-- A value or the end of the array just opened. -/
  | firstItem
  /-- A key or the end of the object just opened. -/
  | firstKey
  | key
  | colon (key : List Quoted.Glyph)
  /-- A comma or the end of the container. -/
  | more
  | done (tree : Tree)

/-- The machine that builds a tree. -/
structure Machine where
  /-- The containers around the current place, innermost first. -/
  levels : List Level
  want : Want

namespace Machine

/-- Puts a finished value where it belongs. -/
def place (tree : Tree) : List Level → Option Machine
  | [] => some ⟨[], .done tree⟩
  | .items done :: rest => some ⟨.items (tree :: done) :: rest, .more⟩
  | .pending done key :: rest => some ⟨.members ((key, tree) :: done) :: rest, .more⟩
  | .members _ :: _ => none

/-- A token where a value is wanted. -/
def value (levels : List Level) : Token → Option Machine
  | .null => place .null levels
  | .bool b => place (.bool b) levels
  | .number n => place (.number n) levels
  | .text gs => place (.text gs) levels
  | .openArray => some ⟨.items [] :: levels, .firstItem⟩
  | .openObject => some ⟨.members [] :: levels, .firstKey⟩
  | _ => none

/-- A token after an item or a member. -/
def more : List Level → Token → Option Machine
  | .items done :: rest, .comma => some ⟨.items done :: rest, .value⟩
  | .items done :: rest, .closeArray => place (.array done.reverse) rest
  | .members done :: rest, .comma => some ⟨.members done :: rest, .key⟩
  | .members done :: rest, .closeObject => place (.object done.reverse) rest
  | _, _ => none

/-- One token. -/
def step (m : Machine) (t : Token) : Option Machine :=
  match m.want with
  | .value => value m.levels t
  | .firstItem =>
    match t with
    | .closeArray => more m.levels t
    | _ => value m.levels t
  | .firstKey =>
    match t with
    | .closeObject => more m.levels t
    | .text key => some ⟨m.levels, .colon key⟩
    | _ => none
  | .key =>
    match t with
    | .text key => some ⟨m.levels, .colon key⟩
    | _ => none
  | .colon key =>
    match t, m.levels with
    | .colon, .members done :: rest => some ⟨.pending done key :: rest, .value⟩
    | _, _ => none
  | .more => more m.levels t
  | .done _ => none

/-- The machine before the first token. -/
def start : Machine := ⟨[], .value⟩

/-- The tree that is complete. -/
def result? (m : Machine) : Option Tree :=
  match m.want with
  | .done tree => some tree
  | _ => none

end Machine

/-- The tree of a row of tokens. -/
def ofTokens? (ts : List Token) : Option Tree :=
  (ts.foldlM Machine.step Machine.start).bind Machine.result?

/-- The tree of a text. -/
def read? (cs : List Char) : Option Tree :=
  (Token.row? cs).bind ofTokens?

end Tree

end Duplex
