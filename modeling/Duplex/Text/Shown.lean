/-
Duplex/Text/Shown.lean

Texts as they are shown in a log: between quotation marks, on one line, with
nothing that could be taken for something else or not be seen at all.

The quotation mark and the backslash are escaped by a backslash, four control
characters by a letter or a digit, and every other character that has no
shape of its own by its number in hexadecimal: those that extend the character
before them, and those that cannot be seen.

Main definition: `Shown.chars`.
-/
import Duplex.Text.Invisible

namespace Duplex.Text.Shown

/-- The character has no shape of its own. -/
def isShapeless (c : Char) : Bool := isExtending c || isInvisible c

/-- How one character is shown. -/
def escape (c : Char) : List Char :=
  if c = '"' then ['\\', '"']
  else if c = '\\' then ['\\', '\\']
  else if c = '\n' then ['\\', 'n']
  else if c = '\r' then ['\\', 'r']
  else if c = '\t' then ['\\', 't']
  else if c.toNat = 0 then ['\\', '0']
  else if isShapeless c then
    ['\\', 'u', '\x7b'] ++ Nat.toDigits 16 c.toNat ++ ['\x7d']
  else [c]

/-- A text as it is shown. -/
def chars (cs : List Char) : List Char := '"' :: (cs.flatMap escape ++ ['"'])

end Duplex.Text.Shown
