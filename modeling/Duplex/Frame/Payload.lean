/-
Duplex/Frame/Payload.lean

Payloads: what a client says to its session.

A payload is a JSON array of texts, or one text that stands for an array of
one. Spaces may stand between its tokens and around it; anything else, at any
place, makes the whole payload malformed.

`hasShape` is the cheaper look at the two ends that a full-duplex connection
takes before it reads a payload.

Main definitions: `Payload.messages?`, `Payload.hasShape`.
-/
import Duplex.Json.Token

namespace Duplex.Payload

/-- A text without the spaces in front of it. -/
def skip (cs : List Char) : List Char := cs.dropWhile Token.isSpace

/-- Nothing but spaces. -/
def isOver (cs : List Char) : Bool := (skip cs).isEmpty

/-- The text whose opening quotation mark was just passed, and what follows it. -/
def quoted? (cs : List Char) : Option (String × List Char) :=
  match Quoted.scan [] cs with
  | none => none
  | some (gs, rest) => (Quoted.join? gs).map fun m => (String.ofList m, rest)

/-- What follows a quoted text is shorter than what it began. -/
theorem length_lt_of_quoted? {cs rest : List Char} {m : String}
    (h : quoted? cs = some (m, rest)) : rest.length < cs.length := by
  unfold quoted? at h
  split at h
  · simp at h
  · rename_i hs
    simp only [Option.map_eq_some_iff, Prod.mk.injEq] at h
    obtain ⟨_, _, _, rfl⟩ := h
    exact Quoted.length_lt_of_scan hs

theorem length_skip_le (cs : List Char) : (skip cs).length ≤ cs.length :=
  (List.dropWhile_sublist _).length_le

/-- The texts of an array whose next item comes first in `cs`, after those in `acc`, last one
first. -/
def items? (acc : List String) (cs : List Char) : Option (List String) :=
  match cs with
  | '"' :: rest =>
    match _h : quoted? rest with
    | none => none
    | some (m, rest') =>
      match _h' : skip rest' with
      | ',' :: more => items? (m :: acc) (skip more)
      | ']' :: more => if isOver more then some (m :: acc).reverse else none
      | _ => none
  | _ => none
termination_by cs.length
decreasing_by
  have h1 := length_lt_of_quoted? _h
  have h2 := length_skip_le rest'
  have h3 := length_skip_le more
  rw [_h'] at h2
  simp only [List.length_cons] at *
  omega

/-- The messages of a payload in order, unless it is malformed. -/
def read? (cs : List Char) : Option (List String) :=
  match skip cs with
  | '"' :: rest =>
    match quoted? rest with
    | some (m, rest) => if isOver rest then some [m] else none
    | none => none
  | '[' :: rest =>
    match skip rest with
    | ']' :: more => if isOver more then some [] else none
    | rest => items? [] rest
  | _ => none

/-- The messages of a payload in order, unless it is malformed. -/
def messages? (payload : String) : Option (List String) := read? payload.toList

/-- The payload begins and ends like a text or like an array of texts. -/
def hasShape (payload : String) : Bool :=
  let cs := payload.toList
  (4 ≤ cs.length && ['[', '"'].isPrefixOf cs && ['"', ']'].isSuffixOf cs) ||
    (2 ≤ cs.length && ['"'].isPrefixOf cs && ['"'].isSuffixOf cs)

end Duplex.Payload
