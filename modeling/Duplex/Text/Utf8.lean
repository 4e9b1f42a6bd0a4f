/-
Duplex/Text/Utf8.lean

UTF-8, read one byte at a time.

Between two bytes the reader is either between characters or inside one; in
the second case it knows how many bytes are owed, which values the next one
may have, and the bits collected so far. The bounds on the second byte keep
out overlong forms, surrogates and values above U+10FFFF, so every completed
character is a scalar value.

Two readings share that reader:

* `decode?` fails at the first byte that fits nowhere;
* `decodeLossy` writes U+FFFD for each longest run of bytes that began a
  character and did not finish it, and reads on from the byte that broke it.

Both run down the list of bytes with the characters read so far in front of
them, in constant stack.
-/

namespace Duplex.Text

/-- A byte string. -/
abbrev Bytes := List UInt8

/-- How many bytes a text takes. -/
def utf8Size (cs : List Char) : Nat := cs.foldl (fun n c => n + c.utf8Size) 0

namespace Utf8

/-- Where a reader stands between two bytes. -/
inductive State where
  | start
  /-- Inside one: `owed + 1` bytes to come, the next from `least` to `most`, bits so far. -/
  | inside (owed : Nat) (least most : UInt8) (bits : Nat)
  deriving DecidableEq, Repr

/-- What one byte does to a reader. -/
inductive Move where
  | done (c : Char)
  | more (q : State)
  | refuse
  deriving DecidableEq, Repr

/-- A byte that begins a character. -/
def first (b : UInt8) : Move :=
  if b < 0x80 then .done (Char.ofNat b.toNat)
  else if b < 0xC2 then .refuse
  else if b < 0xE0 then .more (.inside 0 0x80 0xBF (b.toNat - 0xC0))
  else if b < 0xF0 then
    .more (.inside 1 (if b = 0xE0 then 0xA0 else 0x80) (if b = 0xED then 0x9F else 0xBF)
      (b.toNat - 0xE0))
  else if b < 0xF5 then
    .more (.inside 2 (if b = 0xF0 then 0x90 else 0x80) (if b = 0xF4 then 0x8F else 0xBF)
      (b.toNat - 0xF0))
  else .refuse

/-- One byte from any place. -/
def feed : State → UInt8 → Move
  | .start, b => first b
  | .inside owed least most bits, b =>
    if least ≤ b && b ≤ most then
      let bits := bits * 64 + (b.toNat - 0x80)
      match owed with
      | 0 => .done (Char.ofNat bits)
      | owed + 1 => .more (.inside owed 0x80 0xBF bits)
    else .refuse

/-! ### Strict reading -/

/-- Reads on from `q` with `acc` read so far, last character first. -/
def decodeOnto : State → List Char → Bytes → Option (List Char)
  | .start, acc, [] => some acc.reverse
  | .inside .., _, [] => none
  | q, acc, b :: rest =>
    match feed q b with
    | .done c => decodeOnto .start (c :: acc) rest
    | .more q' => decodeOnto q' acc rest
    | .refuse => none

/-- The characters that the bytes encode, if they are well formed. -/
def decode? (bytes : Bytes) : Option (List Char) := decodeOnto .start [] bytes

/-! ### Lossy reading -/

/-- The character written for bytes that encode none. -/
def replacement : Char := '\ufffd'

/-- Reads on from `q` with `acc` read so far; a broken character is replaced and the byte that
broke it is read as a first byte. -/
def decodeLossyOnto : State → List Char → Bytes → List Char
  | .start, acc, [] => acc.reverse
  | .inside .., acc, [] => (replacement :: acc).reverse
  | q, acc, b :: rest =>
    match feed q b with
    | .done c => decodeLossyOnto .start (c :: acc) rest
    | .more q' => decodeLossyOnto q' acc rest
    | .refuse =>
      match q with
      | .start => decodeLossyOnto .start (replacement :: acc) rest
      | .inside .. =>
        match first b with
        | .done c => decodeLossyOnto .start (c :: replacement :: acc) rest
        | .more q' => decodeLossyOnto q' (replacement :: acc) rest
        | .refuse => decodeLossyOnto .start (replacement :: replacement :: acc) rest

/-- The characters that the bytes encode, with U+FFFD for what encodes none. -/
def decodeLossy (bytes : Bytes) : List Char := decodeLossyOnto .start [] bytes

/-! ### Writing -/

/-- The bytes of a text. -/
def encode (cs : List Char) : Bytes := cs.flatMap String.utf8EncodeChar

/-- The text that the bytes encode, if they are well formed. -/
def text? (bytes : Bytes) : Option String := (decode? bytes).map String.ofList

example : decode? [0x61, 0xC3, 0xA9] = some ['a', 'é'] := by decide

example : decode? [0xED, 0xA0, 0x80] = none := by decide

example : decodeLossy [0xE2, 0x82, 0x61, 0xFF] = ['\ufffd', 'a', '\ufffd'] := by decide

end Utf8

end Duplex.Text
