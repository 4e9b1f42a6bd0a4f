/-
Duplex/Json/Record.lean

Records in JSON.

A record is a structure whose parts are read by name from an object, or by
place from an array. It starts from a default, so a part that is not given
keeps its default.

* From an object, members of other names are passed over whatever they hold,
  and a member may be given once only.
* From an array, the items are the fields in order; there may be fewer of
  them than fields but not more.

Everything else is refused.

Main definitions: `Field`, `Record.ofTree?`, and the readers of single parts
`Tree.natural?`, `Tree.word64?`, `Tree.word16?`, `Tree.flag?`, `Tree.str?`.
-/
import Duplex.Json.Reader

namespace Duplex

/-! ### Single parts -/

namespace Tree

/-- A whole number from 0 to `most`. -/
def natural? (most : Nat) : Tree → Option Nat
  | .number n => n.natural?.filter (· ≤ most)
  | _ => none

/-- A number of 64 bits. -/
def word64? (t : Tree) : Option UInt64 :=
  (t.natural? Text.Decimal.maxWord64).map UInt64.ofNat

/-- A number of 16 bits. -/
def word16? (t : Tree) : Option UInt16 :=
  (t.natural? Text.Decimal.maxWord16).map UInt16.ofNat

/-- A truth value. -/
def flag? : Tree → Option Bool
  | .bool b => some b
  | _ => none

/-- A text. -/
def str? : Tree → Option String
  | .text gs => string? gs
  | _ => none

end Tree

/-! ### Records -/

/-- A part of a record of type `α`. -/
structure Field (α : Type) where
  name : String
  /-- The record with that part read from a tree. -/
  set? : Tree → α → Option α

namespace Field

variable {α β : Type}

/-- The field that reads a part with `read?` and stores it with `put`. -/
def of (name : String) (read? : Tree → Option β) (put : β → α → α) : Field α :=
  ⟨name, fun t a => (read? t).map fun b => put b a⟩

end Field

namespace Record

variable {α : Type}

/-- Reads members into `a`; the names in `seen` were given before. -/
def ofMembers? (fields : List (Field α)) (seen : List String) (a : α) :
    List (List Quoted.Glyph × Tree) → Option α
  | [] => some a
  | (gs, t) :: ms =>
    match Tree.string? gs with
    | none => none
    | some key =>
      match fields.find? (·.name == key) with
      | none => ofMembers? fields seen a ms
      | some field =>
        if seen.contains key then none
        else
          match field.set? t a with
          | none => none
          | some a => ofMembers? fields (key :: seen) a ms

/-- Reads items into `a`, one field each. -/
def ofItems? (a : α) : List (Field α) → List Tree → Option α
  | _, [] => some a
  | [], _ :: _ => none
  | field :: fields, t :: ts =>
    match field.set? t a with
    | none => none
    | some a => ofItems? a fields ts

/-- The record that a tree holds, starting from `start`. -/
def ofTree? (fields : List (Field α)) (start : α) : Tree → Option α
  | .object members => ofMembers? fields [] start members
  | .array items => ofItems? start fields items
  | _ => none

/-- The record that a text holds. -/
def read? (fields : List (Field α)) (start : α) (s : String) : Option α :=
  (Tree.read? s.toList).bind (ofTree? fields start)

end Record

end Duplex
