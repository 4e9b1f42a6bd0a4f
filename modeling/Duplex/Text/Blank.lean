/-
Duplex/Text/Blank.lean

Blank characters and the cutting of texts into pieces.

A character is blank when it has the Unicode property White_Space; the table
below is that property in full, so a text is trimmed the same way whatever
script it is written in.

Main definitions:

* `isBlank`, the property; `trim`, a text without the blanks at its two ends;
* `pieces`, the parts of a list between its separators (always at least one);
* `cut`, a list before and after its first separator;
* `mentions`, whether a list stands somewhere in another.
-/

namespace Duplex.Text

/-! ### Blanks -/

/-- The characters with the Unicode property White_Space. -/
def isBlank (c : Char) : Bool :=
  ('\x09' ≤ c && c ≤ '\x0d') || c == ' ' || c == '\u0085' || c == '\u00a0' || c == '\u1680' ||
    ('\u2000' ≤ c && c ≤ '\u200a') || c == '\u2028' || c == '\u2029' || c == '\u202f' ||
    c == '\u205f' || c == '\u3000'

/-- A list without its last elements that satisfy `p`. -/
def dropEndWhile {α : Type} (p : α → Bool) (l : List α) : List α :=
  (l.reverse.dropWhile p).reverse

/-- A text without the blanks at its two ends. -/
def trim (cs : List Char) : List Char :=
  dropEndWhile isBlank (cs.dropWhile isBlank)

example : trim " \u00a0a b\u2003\n".toList = "a b".toList := by decide

/-! ### Pieces -/

section Pieces

variable {α : Type}

/-- The parts of `l` between the elements that satisfy `sep`, in order. -/
def pieces (sep : α → Bool) (l : List α) : List (List α) :=
  l.foldr
    (fun a parts =>
      if sep a then [] :: parts
      else match parts with
        | [] => [[a]]
        | part :: rest => (a :: part) :: rest)
    [[]]

@[simp] theorem pieces_nil (sep : α → Bool) : pieces sep [] = [[]] := rfl

/-- A separator starts a new piece. -/
theorem pieces_cons_of_sep {sep : α → Bool} {a : α} (h : sep a = true) (l : List α) :
    pieces sep (a :: l) = [] :: pieces sep l := by
  simp [pieces, h]

/-- A list always has a first piece. -/
theorem pieces_ne_nil (sep : α → Bool) (l : List α) : pieces sep l ≠ [] := by
  cases l with
  | nil => simp
  | cons a l =>
    cases h : sep a with
    | true => simp [pieces_cons_of_sep h]
    | false =>
      simp only [pieces, List.foldr_cons, h]
      grind

/-- What stands before and after the first element that satisfies `sep`. -/
def cut (sep : α → Bool) (l : List α) : Option (List α × List α) :=
  match l.dropWhile (fun a => !sep a) with
  | [] => none
  | _ :: rest => some (l.takeWhile (fun a => !sep a), rest)

/-- Somewhere in `l` stands `part`. -/
def mentions [BEq α] (part : List α) : List α → Bool
  | [] => part.isEmpty
  | a :: l => part.isPrefixOf (a :: l) || mentions part l

end Pieces

example : pieces (· == ';') "a;;b".toList = ["a".toList, [], "b".toList] := by decide

example : cut (· == '=') "k=v=w".toList = some ("k".toList, "v=w".toList) := by decide

end Duplex.Text
