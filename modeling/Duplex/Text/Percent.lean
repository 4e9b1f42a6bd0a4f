/-
Duplex/Text/Percent.lean

Percent escapes and form fields.

An escape is a percent sign and two hexadecimal digits; a percent sign that
does not begin one stands for itself. A form is a row of fields between
ampersands, each a name and, after its first equals sign, a value; there a
plus sign stands for a space. The order matters: a plus sign is replaced
before escapes are read, so an escaped plus sign stays one.

* `decode` undoes the escapes of a byte string;
* `fields` reads a form into names and values, dropping empty fields.
-/
import Duplex.Text.Utf8
import Duplex.Text.Blank

namespace Duplex.Text.Percent

/-- The value of a hexadecimal digit of either case. -/
def hexDigit? (b : UInt8) : Option UInt8 :=
  if 0x30 ≤ b && b ≤ 0x39 then some (b - 0x30)
  else if 0x41 ≤ b && b ≤ 0x46 then some (b - 0x37)
  else if 0x61 ≤ b && b ≤ 0x66 then some (b - 0x57)
  else none

/-- The byte that an escape with these two digits stands for. -/
def escaped? (high low : UInt8) : Option UInt8 :=
  match hexDigit? high, hexDigit? low with
  | some h, some l => some (h * 16 + l)
  | _, _ => none

/-- Undoes escapes with `acc` read so far, last byte first. -/
def decodeOnto (acc : Bytes) : Bytes → Bytes
  | [] => acc.reverse
  | b :: high :: low :: rest =>
    if b = 0x25 then
      match escaped? high low with
      | some x => decodeOnto (x :: acc) rest
      | none => decodeOnto (b :: acc) (high :: low :: rest)
    else decodeOnto (b :: acc) (high :: low :: rest)
  | b :: rest => decodeOnto (b :: acc) rest

/-- A byte string with its escapes undone. -/
def decode (bytes : Bytes) : Bytes := decodeOnto [] bytes

/-! ### Forms -/

/-- A name or value of a form: plus signs are spaces, then escapes are undone. -/
def component (bytes : Bytes) : Bytes :=
  decode (bytes.map fun b => if b = 0x2B then 0x20 else b)

/-- A component as text; bytes that are not UTF-8 become U+FFFD. -/
def componentText (bytes : Bytes) : String :=
  String.ofList (Utf8.decodeLossy (component bytes))

/-- The fields of a form as names and values. -/
def fields (form : Bytes) : List (String × String) :=
  ((pieces (· == 0x26) form).filter (fun part => !part.isEmpty)).map fun part =>
    match cut (· == 0x3D) part with
    | some (name, value) => (componentText name, componentText value)
    | none => (componentText part, "")

/-- The value of the first field of that name. -/
def first? (name : String) (form : Bytes) : Option String :=
  (fields form).lookup name

/-- The value of the last field of that name. -/
def last? (name : String) (form : Bytes) : Option String :=
  (fields form).reverse.lookup name

end Duplex.Text.Percent
