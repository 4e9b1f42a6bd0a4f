/-
Duplex/Json/Quoted.lean

Quoted texts: what stands between two quotation marks.

Reading goes in two passes. `scan` finds the closing quotation mark and turns
every escape into a glyph; a glyph is a character or a 16-bit unit written by
its number. `join?` then puts surrogate units together: a high one must be
followed at once by a low one, and no low one may stand elsewhere. The passes
are apart because a text that nobody asks for is scanned but never joined.

Writing escapes the quotation mark, the backslash and the characters below
the space, and leaves every other character as it is.
-/
import Duplex.Text.Blank

namespace Duplex.Quoted

/-- What one place of a quoted text holds. -/
inductive Glyph where
  /-- A character, written as itself or by a short escape. -/
  | char (c : Char)
  /-- A 16-bit unit, written by its number. -/
  | unit (n : Nat)
  deriving DecidableEq, Repr

/-! ### Reading -/

/-- The value of a hexadecimal digit of either case. -/
def hexDigit? (c : Char) : Option Nat :=
  if '0' ≤ c && c ≤ '9' then some (c.toNat - 48)
  else if 'a' ≤ c && c ≤ 'f' then some (c.toNat - 87)
  else if 'A' ≤ c && c ≤ 'F' then some (c.toNat - 55)
  else none

/-- The unit that four hexadecimal digits stand for. -/
def hexUnit? (a b c d : Char) : Option Nat :=
  match hexDigit? a, hexDigit? b, hexDigit? c, hexDigit? d with
  | some a, some b, some c, some d => some (((a * 16 + b) * 16 + c) * 16 + d)
  | _, _, _, _ => none

/-- The character that a short escape stands for. -/
def shortEscape? : Char → Option Char
  | '"' => some '"'
  | '\\' => some '\\'
  | '/' => some '/'
  | 'b' => some '\x08'
  | 'f' => some '\x0c'
  | 'n' => some '\n'
  | 'r' => some '\r'
  | 't' => some '\t'
  | _ => none

/-- The glyphs up to the closing quotation mark and what follows it, with `acc` scanned so far,
last glyph first. -/
def scan (acc : List Glyph) : List Char → Option (List Glyph × List Char)
  | [] => none
  | '"' :: rest => some (acc.reverse, rest)
  | '\\' :: 'u' :: a :: b :: c :: d :: rest =>
    match hexUnit? a b c d with
    | some n => scan (.unit n :: acc) rest
    | none => none
  | '\\' :: e :: rest =>
    match shortEscape? e with
    | some c => scan (.char c :: acc) rest
    | none => none
  | c :: rest => if c = '\\' || c < ' ' then none else scan (.char c :: acc) rest

/-- What follows a quoted text is shorter than what it began. -/
theorem length_lt_of_scan {acc : List Glyph} {cs : List Char} {gs : List Glyph} {rest : List Char}
    (h : scan acc cs = some (gs, rest)) : rest.length < cs.length := by
  fun_induction scan acc cs with
  | case1 => simp at h
  | case2 acc r =>
    simp only [Option.some.injEq, Prod.mk.injEq] at h
    simp [← h.2]
  | case3 acc a b c d r n _ ih => have := ih h; simp only [List.length_cons]; omega
  | case4 => simp at h
  | case5 acc e r _ c _ ih => have := ih h; simp only [List.length_cons]; omega
  | case6 => simp at h
  | case7 => simp at h
  | case8 acc c r _ _ _ _ ih => have := ih h; simp only [List.length_cons]; omega

/-- The unit begins a surrogate pair. -/
def isHigh (n : Nat) : Bool := 0xD800 ≤ n && n ≤ 0xDBFF

/-- The unit ends a surrogate pair. -/
def isLow (n : Nat) : Bool := 0xDC00 ≤ n && n ≤ 0xDFFF

/-- The supplementary character of a surrogate pair. -/
def pair (high low : Nat) : Char :=
  Char.ofNat (0x10000 + (high - 0xD800) * 0x400 + (low - 0xDC00))

/-- The characters of a row of glyphs, with `acc` joined so far, last character first. -/
def joinOnto (acc : List Char) : List Glyph → Option (List Char)
  | [] => some acc.reverse
  | .char c :: rest => joinOnto (c :: acc) rest
  | .unit n :: .unit m :: rest =>
    if isHigh n then
      if isLow m then joinOnto (pair n m :: acc) rest else none
    else if isLow n then none
    else joinOnto (Char.ofNat n :: acc) (.unit m :: rest)
  | .unit n :: rest =>
    if isHigh n || isLow n then none else joinOnto (Char.ofNat n :: acc) rest

/-- The characters of a row of glyphs, unless a surrogate unit has no partner. -/
def join? (gs : List Glyph) : Option (List Char) := joinOnto [] gs

/-! ### Writing -/

/-- A lower-case hexadecimal digit. -/
def hexChar (n : Nat) : Char := Char.ofNat (if n < 10 then 48 + n else 87 + n)

/-- How one character is written between quotation marks. -/
def escape (c : Char) : List Char :=
  if c = '"' then ['\\', '"']
  else if c = '\\' then ['\\', '\\']
  else if c = '\x08' then ['\\', 'b']
  else if c = '\t' then ['\\', 't']
  else if c = '\n' then ['\\', 'n']
  else if c = '\x0c' then ['\\', 'f']
  else if c = '\r' then ['\\', 'r']
  else if c < ' ' then ['\\', 'u', '0', '0', hexChar (c.toNat / 16), hexChar (c.toNat % 16)]
  else [c]

/-- A text between quotation marks. -/
def write (cs : List Char) : List Char := '"' :: (cs.flatMap escape ++ ['"'])

example : write "a\"\u0001".toList = "\"a\\\"\\u0001\"".toList := by decide

example : (scan [] "\\ud83d\\ude00\"x".toList).map (fun r => (join? r.1, r.2))
    = some (some ['😀'], ['x']) := by decide

example : (scan [] "\\ude00\"".toList).bind (fun r => join? r.1) = none := by decide

end Duplex.Quoted
