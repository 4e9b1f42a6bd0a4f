/-
Duplex/Proofs/Json/Tokens.lean

Written tokens read back, one at a time.

Each lemma takes one token off the front of a text, with any text behind it, so
what a value is written as is read from left to right by rewriting.  A mark or
a quoted text ends by itself.  A number goes on as long as it can, so it wants
to know what follows it: nothing that could belong to it (`EndsNumeral`).

A whole number is written without leading zeros, and all of its digits are held
when it has room in a 64-bit word; so the numeral that is read is the number
(`numeral?_chars`).
-/
import Duplex.Json.Reader
import Duplex.Json.Writer
import Duplex.Proofs.Frame.Readback
import Duplex.Proofs.Text.Numerals

namespace Duplex

/-! ### Digits -/

namespace Numeral

theorem isDigit_eq (c : Char) : isDigit c = c.isDigit := by
  simp only [isDigit, Char.isDigit, Char.le_def]

/-- Nothing that could go on a numeral stands first. -/
def EndsNumeral (rest : List Char) : Prop :=
  ∀ c ∈ rest.head?, isDigit c = false ∧ c ≠ '.' ∧ c ≠ 'e' ∧ c ≠ 'E'

theorem endsNumeral_nil : EndsNumeral [] := by rintro _ ⟨⟩

/-- No digit stands first. -/
def EndsDigits (rest : List Char) : Prop := ∀ c ∈ rest.head?, isDigit c = false

theorem EndsNumeral.digits {rest : List Char} (hr : EndsNumeral rest) : EndsDigits rest :=
  fun c hc => (hr c hc).1

theorem isDigit_of_mem_chars {n : Nat} {c : Char} (h : c ∈ Text.Decimal.chars n) :
    isDigit c = true := by
  rw [isDigit_eq]
  exact Nat.isDigit_of_mem_toDigits (by decide) (by decide) h

theorem takeWhile_chars (n : Nat) {rest : List Char} (hr : EndsDigits rest) :
    (Text.Decimal.chars n ++ rest).takeWhile isDigit = Text.Decimal.chars n := by
  rw [List.takeWhile_append_of_pos fun c hc => isDigit_of_mem_chars hc]
  rcases rest with - | ⟨c, rest⟩
  · simp
  · simp [hr c rfl]

theorem dropWhile_chars (n : Nat) {rest : List Char} (hr : EndsDigits rest) :
    (Text.Decimal.chars n ++ rest).dropWhile isDigit = rest := by
  rw [List.dropWhile_append_of_pos fun c hc => isDigit_of_mem_chars hc]
  rcases rest with - | ⟨c, rest⟩
  · simp
  · simp [hr c rfl]

/-- A number that is not zero is written without leading zeros. -/
theorem chars_of_pos {n : Nat} (hn : 0 < n) :
    ∃ c cs, Text.Decimal.chars n = c :: cs ∧ c ≠ '0' := by
  unfold Text.Decimal.chars
  induction n using Nat.strongRecOn with
  | ind n ih =>
    rw [Nat.toDigits_eq_if (by decide)]
    split
    · rename_i hlt
      have digit : ∀ d < 10, 0 < d → d.digitChar ≠ '0' := by decide
      exact ⟨_, [], rfl, digit n hlt hn⟩
    · obtain ⟨c, cs, h, hc⟩ := ih (n / 10) (by omega) (by omega)
      exact ⟨c, cs ++ [(n % 10).digitChar], by rw [h]; rfl, hc⟩

theorem whole?_chars (n : Nat) {rest : List Char} (hr : EndsDigits rest) :
    whole? (Text.Decimal.chars n ++ rest) = some (Text.Decimal.chars n, rest) := by
  rcases Nat.eq_zero_or_pos n with rfl | hn
  · rfl
  · obtain ⟨c, cs, h, hc⟩ := chars_of_pos hn
    have ht := takeWhile_chars n hr
    have hd := dropWhile_chars n hr
    rw [h] at ht hd ⊢
    simp only [List.cons_append] at ht hd ⊢
    rw [whole?, ht]
    · simp only [hd]
    · rintro _ ⟨⟩
      exact hc rfl

/-- As long as the number has room, all digits are held. -/
theorem hold_eq {ds : List Char} {held : Nat}
    (h : Nat.ofDigitChars 10 ds held ≤ Text.Decimal.maxWord64) :
    hold held ds = (Nat.ofDigitChars 10 ds held, 0) := by
  induction ds generalizing held with
  | nil => rfl
  | cons d ds ih =>
    have hnext : held * 10 + (d.toNat - 48) = 10 * held + (d.toNat - '0'.toNat) := by
      rw [Nat.mul_comm]
      rfl
    have hall : Nat.ofDigitChars 10 ds (10 * held + (d.toNat - '0'.toNat)) ≤
        Text.Decimal.maxWord64 := h
    have hroom := Nat.le_trans (Text.Decimal.le_ofDigitChars ds _) hall
    rw [hold, hnext, if_pos hroom, ih hall]
    rfl

theorem hold_chars {n : Nat} (hn : n ≤ Text.Decimal.maxWord64) :
    hold 0 (Text.Decimal.chars n) = (n, 0) := by
  have h : Nat.ofDigitChars 10 (Text.Decimal.chars n) 0 = n :=
    Nat.ofDigitChars_toDigits (by decide) (by decide)
  rw [hold_eq (by rwa [h]), h]

theorem fraction?_of_ends {rest : List Char} (hr : EndsNumeral rest) :
    fraction? rest = some (none, rest) := by
  unfold fraction?
  split
  · exact absurd rfl (hr '.' rfl).2.1
  · rfl

theorem exponent?_of_ends {rest : List Char} (hr : EndsNumeral rest) :
    exponent? rest = some (none, rest) := by
  unfold exponent?
  split
  · rename_i c cs
    obtain ⟨-, -, he, hE⟩ := hr c rfl
    simp [he, hE]
  · rfl

/-- A number begins with a digit. -/
theorem chars_eq_cons (n : Nat) :
    ∃ c cs, Text.Decimal.chars n = c :: cs ∧ isDigit c = true := by
  obtain ⟨c, cs, h⟩ : ∃ c cs, Text.Decimal.chars n = c :: cs := by
    rcases Nat.eq_zero_or_pos n with rfl | hn
    · exact ⟨'0', [], rfl⟩
    · obtain ⟨c, cs, h, -⟩ := chars_of_pos hn
      exact ⟨c, cs, h⟩
  exact ⟨c, cs, h, isDigit_of_mem_chars (h ▸ List.mem_cons_self)⟩

/-- **A whole number reads back**, with all its digits. -/
theorem numeral?_chars {n : Nat} (hn : n ≤ Text.Decimal.maxWord64) {rest : List Char}
    (hr : EndsNumeral rest) :
    numeral? (Text.Decimal.chars n ++ rest) = some (⟨false, n, 0, true⟩, rest) := by
  have hm : magnitude? false (Text.Decimal.chars n ++ rest) =
      some (⟨false, n, 0, true⟩, rest) := by
    simp [magnitude?, whole?_chars n hr.digits, fraction?_of_ends hr, exponent?_of_ends hr,
      hold_chars hn, hold]
  obtain ⟨c, cs, h, hc⟩ := chars_eq_cons n
  rw [h] at hm ⊢
  rw [List.cons_append, numeral?]
  · exact hm
  -- it does not begin with a minus sign
  · rintro _ ⟨⟩
    cases hc

end Numeral

/-! ### Tokens -/

namespace Token

/-- A digit begins no other token. -/
theorem next?_of_isDigit {c : Char} (hc : Numeral.isDigit c = true) (cs : List Char) :
    next? (c :: cs) = (numeral? (c :: cs)).map fun r => (.number r.1, r.2) := by
  have other {d : Char} (hd : Numeral.isDigit d = false) : c ≠ d := by
    rintro rfl
    cases hc.symm.trans hd
  have hmark : mark? c = none := by
    simp [mark?, other (d := '\x7b') rfl, other (d := '\x7d') rfl, other (d := '[') rfl,
      other (d := ']') rfl, other (d := ',') rfl, other (d := ':') rfl]
  simp [next?, hmark, other (d := 'n') rfl, other (d := 't') rfl, other (d := 'f') rfl,
    other (d := '"') rfl]

theorem next?_write (cs rest : List Char) :
    next? (Quoted.write cs ++ rest) = some (.text (cs.map Quoted.glyph), rest) := by
  simp [next?, Quoted.write, Quoted.scan_write]

theorem rowOnto_of_next? {acc : List Token} {c : Char} {cs rest : List Char} {t : Token}
    (hc : isSpace c = false) (h : next? (c :: cs) = some (t, rest)) :
    rowOnto acc (c :: cs) = rowOnto (t :: acc) rest := by
  rw [rowOnto]
  split
  · rename_i hs
    rw [hc] at hs
    cases hs
  · split
    · rename_i h'
      obtain ⟨rfl, rfl⟩ := Prod.mk.inj (Option.some.inj (h.symm.trans h'))
      rfl
    · rename_i h'
      cases h.symm.trans h'

/-- A mark is one token. -/
theorem rowOnto_mark {c : Char} {t : Token} (h : mark? c = some t) (acc : List Token)
    (rest : List Char) : rowOnto acc (c :: rest) = rowOnto (t :: acc) rest := by
  unfold mark? at h
  split at h
  case h_7 => cases h
  all_goals
    cases h
    exact rowOnto_of_next? rfl rfl

theorem isSpace_of_isDigit {c : Char} (hc : Numeral.isDigit c = true) : isSpace c = false := by
  rw [← Bool.not_eq_true]
  intro hs
  simp only [isSpace, Bool.or_eq_true, beq_iff_eq] at hs
  rcases hs with ((rfl | rfl) | rfl) | rfl
  all_goals cases hc

/-- A quoted text is one token. -/
theorem rowOnto_write (acc : List Token) (cs rest : List Char) :
    rowOnto acc (Quoted.write cs ++ rest) =
      rowOnto (.text (cs.map Quoted.glyph) :: acc) rest :=
  rowOnto_of_next? rfl (next?_write cs rest)

end Token

theorem Tree.string?_glyphs (s : String) : string? (s.toList.map Quoted.glyph) = some s := by
  rw [string?, Quoted.join?_map_glyph, Option.map_some, String.ofList_toList]

end Duplex
