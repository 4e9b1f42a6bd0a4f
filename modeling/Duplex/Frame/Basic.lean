/-
Duplex/Frame/Basic.lean

Frames: what a session says to its client.

A frame is one of four things, and its text begins with a letter of its own,
so two different frames never have the same text. What follows the letter of
a batch or of a closing frame is a JSON array, and no text of a frame holds a
character below the space: frames may be separated by line breaks.

A frame that is handed to a callback stands between double quotation marks in
a script. Four characters could end such a literal early: the quotation mark,
the backslash that escapes one, and the two line separators that a script may
not hold raw. They are escaped and nothing else is, so the literal reads back
as the frame.

Main definitions: `Frame`, `Frame.text`, `Frame.goAway`, `Script.escape`.
-/
import Duplex.Json.Writer

namespace Duplex

/-- What a session says to its client. -/
inductive Frame where
  | opening
  | heartbeat
  | batch (messages : List String)
  | closing (code : UInt16) (reason : String)
  deriving DecidableEq, Repr

namespace Frame

/-- The array after the letter of a batch. -/
def batchJson (messages : List String) : Json := .array (messages.map .text)

/-- The array after the letter of a closing frame. -/
def closingJson (code : UInt16) (reason : String) : Json :=
  .array [.nat code.toNat, .text reason]

/-- The characters of a frame. -/
def chars : Frame → List Char
  | .opening => ['o']
  | .heartbeat => ['h']
  | .batch messages => 'a' :: (batchJson messages).chars
  | .closing code reason => 'c' :: (closingJson code reason).chars

/-- The text of a frame. -/
def text (f : Frame) : String := String.ofList f.chars

/-! ### Going away -/

/-- The code of a session that the server ends. -/
def goAwayCode : UInt16 := 3000

/-- The reason of a session that the server ends. -/
def goAwayReason : String := "Go away!"

/-- The frame that ends every session. -/
def goAway : Frame := .closing goAwayCode goAwayReason

end Frame

/-! ### Frames inside a script -/

namespace Script

/-- How one character is written inside a script literal. -/
def escapeChar (c : Char) : List Char :=
  if c = '\\' then ['\\', '\\']
  else if c = '"' then ['\\', '"']
  else if c = '\u2028' then ['\\', 'u', '2', '0', '2', '8']
  else if c = '\u2029' then ['\\', 'u', '2', '0', '2', '9']
  else [c]

/-- A text as it is written inside a script literal. -/
def escapeChars (cs : List Char) : List Char := cs.flatMap escapeChar

/-- A text as it is written inside a script literal. -/
def escape (s : String) : String := String.ofList (escapeChars s.toList)

end Script

end Duplex
