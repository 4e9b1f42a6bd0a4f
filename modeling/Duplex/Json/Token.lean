/-
Duplex/Json/Token.lean

The tokens of a JSON text.

Between tokens stand only spaces, tabs, line feeds and carriage returns. A
token is taken as long as it goes, and nothing is said here about which token
may follow which: that is the business of trees.

Main definitions: `numeral?`, which reads one numeral off the front of a text,
and `Token.row?`, which reads a whole text.
-/
import Duplex.Json.Basic
import Duplex.Json.Quoted

namespace Duplex

/-! ### Numerals -/

namespace Numeral

/-- An ASCII digit. -/
def isDigit (c : Char) : Bool := '0' ≤ c && c ≤ '9'

/-- The number that a row of digits stands for. -/
def ofDigits (ds : List Char) : Nat := ds.foldl (fun n d => n * 10 + (d.toNat - 48)) 0

/-- Digits are held after those in `held` as long as there is room; how many are left over. -/
def hold (held : Nat) : List Char → Nat × Nat
  | [] => (held, 0)
  | d :: ds =>
    let more := held * 10 + (d.toNat - 48)
    if more ≤ Text.Decimal.maxWord64 then hold more ds else (held, ds.length + 1)

/-- The digits before the decimal point: a single zero, or a row without a leading one. -/
def whole? : List Char → Option (List Char × List Char)
  | '0' :: rest => some (['0'], rest)
  | cs =>
    match cs.takeWhile isDigit with
    | [] => none
    | ds => some (ds, cs.dropWhile isDigit)

/-- The digits after a decimal point, if there is one. -/
def fraction? : List Char → Option (Option (List Char) × List Char)
  | '.' :: cs =>
    match cs.takeWhile isDigit with
    | [] => none
    | ds => some (some ds, cs.dropWhile isDigit)
  | cs => some (none, cs)

/-- The digits of an exponent, with its sign. -/
def power? (negative : Bool) (cs : List Char) : Option (Option Int × List Char) :=
  match cs.takeWhile isDigit with
  | [] => none
  | ds =>
    let n : Int := ofDigits ds
    some (some (if negative then -n else n), cs.dropWhile isDigit)

/-- An exponent, if there is one. -/
def exponent? : List Char → Option (Option Int × List Char)
  | c :: cs =>
    if c = 'e' || c = 'E' then
      match cs with
      | '+' :: cs => power? false cs
      | '-' :: cs => power? true cs
      | cs => power? false cs
    else some (none, c :: cs)
  | [] => some (none, [])

/-- A numeral without its sign. -/
def magnitude? (negative : Bool) (cs : List Char) : Option (Numeral × List Char) :=
  match whole? cs with
  | none => none
  | some (ds, cs) =>
    match fraction? cs with
    | none => none
    | some (fs, cs) =>
      match exponent? cs with
      | none => none
      | some (e, cs) =>
        let fs' := fs.getD []
        let (held, left) := hold 0 ds
        let (held, unread) := hold held fs'
        let exponent : Int := left + unread - fs'.length + e.getD 0
        some (⟨negative, held, exponent, fs.isNone && e.isNone && left == 0⟩, cs)

end Numeral

/-- A numeral off the front of a text, and the rest. -/
def numeral? : List Char → Option (Numeral × List Char)
  | '-' :: cs => Numeral.magnitude? true cs
  | cs => Numeral.magnitude? false cs

namespace Numeral

theorem length_dropWhile_le (p : Char → Bool) (cs : List Char) :
    (cs.dropWhile p).length ≤ cs.length :=
  (List.dropWhile_sublist p).length_le

theorem length_lt_of_whole? {cs ds rest : List Char} (h : whole? cs = some (ds, rest)) :
    rest.length < cs.length := by
  unfold whole? at h
  split at h
  · simp only [Option.some.injEq, Prod.mk.injEq] at h
    simp [← h.2]
  · split at h
    · simp at h
    · rename_i hne
      simp only [Option.some.injEq, Prod.mk.injEq] at h
      have e := congrArg List.length (List.takeWhile_append_dropWhile (p := isDigit) (l := cs))
      have : cs.takeWhile isDigit ≠ [] := fun hn => hne hn
      have := List.length_pos_iff.2 this
      rw [← h.2]
      simp only [List.length_append] at e
      omega

theorem length_le_of_fraction? {cs rest : List Char} {fs : Option (List Char)}
    (h : fraction? cs = some (fs, rest)) : rest.length ≤ cs.length := by
  unfold fraction? at h
  split at h
  · rename_i cs
    split at h
    · simp at h
    · simp only [Option.some.injEq, Prod.mk.injEq] at h
      have := length_dropWhile_le isDigit cs
      rw [← h.2, List.length_cons]
      omega
  · simp only [Option.some.injEq, Prod.mk.injEq] at h
    simp [← h.2]

theorem length_le_of_power? {s : Bool} {cs rest : List Char} {e : Option Int}
    (h : power? s cs = some (e, rest)) : rest.length ≤ cs.length := by
  unfold power? at h
  split at h
  · simp at h
  · simp only [Option.some.injEq, Prod.mk.injEq] at h
    rw [← h.2]
    exact length_dropWhile_le isDigit cs

theorem length_le_of_exponent? {cs rest : List Char} {e : Option Int}
    (h : exponent? cs = some (e, rest)) : rest.length ≤ cs.length := by
  unfold exponent? at h
  split at h
  · split at h
    · split at h <;> have := length_le_of_power? h <;> simp only [List.length_cons] at * <;> omega
    · simp only [Option.some.injEq, Prod.mk.injEq] at h
      simp [← h.2]
  · simp only [Option.some.injEq, Prod.mk.injEq] at h
    simp [← h.2]

theorem length_lt_of_magnitude? {s : Bool} {cs rest : List Char} {n : Numeral}
    (h : magnitude? s cs = some (n, rest)) : rest.length < cs.length := by
  unfold magnitude? at h
  split at h
  · simp at h
  · rename_i hw
    split at h
    · simp at h
    · rename_i hf
      split at h
      · simp at h
      · rename_i he
        simp only [Option.some.injEq, Prod.mk.injEq] at h
        have h1 := length_lt_of_whole? hw
        have h2 := length_le_of_fraction? hf
        have h3 := length_le_of_exponent? he
        rw [← h.2]
        omega

end Numeral

/-- What follows a numeral is shorter than what it began. -/
theorem length_lt_of_numeral? {cs rest : List Char} {n : Numeral}
    (h : numeral? cs = some (n, rest)) : rest.length < cs.length := by
  unfold numeral? at h
  split at h
  · have := Numeral.length_lt_of_magnitude? h
    simp only [List.length_cons]
    omega
  · exact Numeral.length_lt_of_magnitude? h

/-! ### Tokens -/

/-- A token of a JSON text. -/
inductive Token where
  | openObject
  | closeObject
  | openArray
  | closeArray
  | comma
  | colon
  | null
  | bool (value : Bool)
  | number (value : Numeral)
  | text (glyphs : List Quoted.Glyph)
  deriving DecidableEq, Repr

namespace Token

/-- What may stand between tokens. -/
def isSpace (c : Char) : Bool := c == ' ' || c == '\n' || c == '\r' || c == '\t'

/-- The tokens of one character. -/
def mark? : Char → Option Token
  | '\x7b' => some .openObject
  | '\x7d' => some .closeObject
  | '[' => some .openArray
  | ']' => some .closeArray
  | ',' => some .comma
  | ':' => some .colon
  | _ => none

/-- A token off the front of a text, and the rest. -/
def next? : List Char → Option (Token × List Char)
  | 'n' :: 'u' :: 'l' :: 'l' :: rest => some (.null, rest)
  | 't' :: 'r' :: 'u' :: 'e' :: rest => some (.bool true, rest)
  | 'f' :: 'a' :: 'l' :: 's' :: 'e' :: rest => some (.bool false, rest)
  | '"' :: rest => (Quoted.scan [] rest).map fun r => (.text r.1, r.2)
  | cs =>
    match cs.head?.bind mark? with
    | some t => some (t, cs.tail)
    | none => (numeral? cs).map fun r => (.number r.1, r.2)

/-- What follows a token is shorter than what it began. -/
theorem length_lt_of_next? {cs rest : List Char} {t : Token} (h : next? cs = some (t, rest)) :
    rest.length < cs.length := by
  unfold next? at h
  split at h
  · simp only [Option.some.injEq, Prod.mk.injEq] at h
    simp [← h.2]; omega
  · simp only [Option.some.injEq, Prod.mk.injEq] at h
    simp [← h.2]; omega
  · simp only [Option.some.injEq, Prod.mk.injEq] at h
    simp [← h.2]; omega
  · simp only [Option.map_eq_some_iff, Prod.mk.injEq] at h
    obtain ⟨⟨gs, r⟩, hs, _, rfl⟩ := h
    have := Quoted.length_lt_of_scan hs
    simp only [List.length_cons]
    omega
  · split at h
    · rename_i hm
      simp only [Option.some.injEq, Prod.mk.injEq] at h
      rw [← h.2]
      cases cs with
      | nil => simp at hm
      | cons c cs => simp
    · simp only [Option.map_eq_some_iff, Prod.mk.injEq] at h
      obtain ⟨⟨n, r⟩, hn, _, rfl⟩ := h
      exact length_lt_of_numeral? hn

/-- The tokens of a text after `acc`, which holds those before, last token first. -/
def rowOnto (acc : List Token) (cs : List Char) : Option (List Token) :=
  match cs with
  | [] => some acc.reverse
  | c :: cs =>
    if isSpace c then rowOnto acc cs
    else
      match _h : next? (c :: cs) with
      | some (t, rest) => rowOnto (t :: acc) rest
      | none => none
termination_by cs.length
decreasing_by
  · simp
  · exact length_lt_of_next? _h

/-- The tokens of a text, if it is a row of tokens. -/
def row? (cs : List Char) : Option (List Token) := rowOnto [] cs

end Token

end Duplex
