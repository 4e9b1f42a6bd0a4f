/-
Duplex/Json/Merge.lean

Laying one value over another.

Where both sides hold an object, the members of the upper one are laid over
the members of the lower one, except that a null member of the upper one
leaves the lower one as it is. In every other case the upper value replaces
the lower one whole, nulls included.

Main definition: `Json.merge`.
-/
import Duplex.Json.Basic

namespace Duplex.Json

mutual

/-- The value `upper` laid over the value `lower`. -/
def merge (lower upper : Json) : Json :=
  match upper, lower with
  | .object above, .object below => .object (mergeMembers below above)
  | upper, _ => upper

/-- The members `above` laid over the members `below`, one after another. -/
def mergeMembers (below : List (String × Json)) : List (String × Json) → List (String × Json)
  | [] => below
  | (key, v) :: rest =>
    if v.isNull then mergeMembers below rest
    else
      match below.lookup key with
      | some old => mergeMembers (insert key (merge old v) below) rest
      | none => mergeMembers (insert key v below) rest

end

end Duplex.Json
