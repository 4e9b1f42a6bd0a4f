/-
Duplex/Proofs/Text/Numerals.lean

Which texts are read as whole numbers.

A row of ASCII digits stands for a number, however long the row is and however
many zeros come first (`IsNumeral`).  It is read a digit at a time, and the
reading ends where the number grows past a limit.  What is held never becomes
less, so nothing is lost by that: within the limit a row is read as the number
that it stands for, and past the limit it is not read at all
(`accumulate_eq_some_iff`).

A text names a number when that is all there is between its blanks, after one
plus sign or none (`Names`, `inRange?_eq_some_iff`).
-/
import Duplex.Text.Decimal

namespace Duplex.Text.Decimal

/-- The row of digits stands for that number. -/
structure IsNumeral (cs : List Char) (n : Nat) : Prop where
  nonempty : cs ≠ []
  digits : ∀ c ∈ cs, c.isDigit = true
  value : Nat.ofDigitChars 10 cs 0 = n

/-- Between its blanks the text has the digits of that number, after one plus sign or none. -/
def Names (text : String) (n : Nat) : Prop :=
  ∃ sign digits, trim text.toList = sign ++ digits ∧ (sign = [] ∨ sign = ['+']) ∧
    IsNumeral digits n

/-- What is held never becomes less. -/
theorem le_ofDigitChars (ds : List Char) (held : Nat) : held ≤ Nat.ofDigitChars 10 ds held := by
  induction ds generalizing held with
  | nil => exact Nat.le_refl _
  | cons d ds ih =>
    have h : 10 * held + (d.toNat - '0'.toNat) ≤ Nat.ofDigitChars 10 (d :: ds) held := ih _
    omega

theorem digit?_eq_ite (c : Char) :
    digit? c = if c.isDigit = true then some (c.toNat - '0'.toNat) else none := by
  have hc : ('0' ≤ c && c ≤ '9') = c.isDigit := by simp only [Char.isDigit, Char.le_def]
  rw [digit?, hc]
  rfl

/-- **Digits are read as the number that they stand for**, within the limit and nowhere else. -/
theorem accumulate_eq_some_iff {limit held n : Nat} (hle : held ≤ limit) {cs : List Char} :
    accumulate limit held cs = some n ↔
      (∀ c ∈ cs, c.isDigit = true) ∧ Nat.ofDigitChars 10 cs held = n ∧ n ≤ limit := by
  induction cs generalizing held with
  | nil =>
    show some held = some n ↔ _ ∧ held = n ∧ n ≤ limit
    constructor
    · intro h
      obtain rfl := Option.some.inj h
      exact ⟨by simp, rfl, hle⟩
    · rintro ⟨-, rfl, -⟩
      rfl
  | cons c cs ih =>
    rw [List.forall_mem_cons, Nat.ofDigitChars_cons, accumulate, digit?_eq_ite]
    by_cases hc : c.isDigit = true
    · have hmore : held * 10 + (c.toNat - '0'.toNat) = 10 * held + (c.toNat - '0'.toNat) := by
        rw [Nat.mul_comm]
      simp only [hc, if_true, true_and, hmore]
      split
      · rename_i hfits
        exact ih hfits
      -- past the limit the digits that follow only make it more
      · rename_i hpast
        constructor
        · intro h
          cases h
        · rintro ⟨-, rfl, hn⟩
          exact absurd (Nat.le_trans (le_ofDigitChars cs _) hn) hpast
    · simp [hc]

theorem natural?_eq_some_iff {limit n : Nat} {cs : List Char} :
    natural? limit cs = some n ↔ IsNumeral cs n ∧ n ≤ limit := by
  unfold natural?
  split
  · rename_i hempty
    constructor
    · intro h
      cases h
    · rintro ⟨h, -⟩
      exact absurd (List.isEmpty_iff.mp hempty) h.nonempty
  · rename_i hempty
    rw [accumulate_eq_some_iff (Nat.zero_le limit)]
    constructor
    · rintro ⟨hdigits, hvalue, hle⟩
      exact ⟨⟨fun h => hempty (List.isEmpty_iff.mpr h), hdigits, hvalue⟩, hle⟩
    · rintro ⟨h, hle⟩
      exact ⟨h.digits, h.value, hle⟩

theorem unsigned?_eq_some_iff {limit n : Nat} {cs : List Char} :
    unsigned? limit cs = some n ↔
      ∃ sign digits, cs = sign ++ digits ∧ (sign = [] ∨ sign = ['+']) ∧ IsNumeral digits n ∧
        n ≤ limit := by
  unfold unsigned?
  split
  · rename_i cs
    rw [natural?_eq_some_iff]
    constructor
    · rintro ⟨h, hle⟩
      exact ⟨['+'], cs, rfl, .inr rfl, h, hle⟩
    · rintro ⟨sign, digits, hcs, rfl | rfl, h, hle⟩
      -- a plus sign is no digit
      · obtain rfl : digits = '+' :: cs := hcs.symm
        cases h.digits '+' List.mem_cons_self
      · obtain ⟨-, rfl⟩ := List.cons.inj hcs
        exact ⟨h, hle⟩
  -- without a plus sign in front all of it is the numeral
  · rename_i hplus
    rw [natural?_eq_some_iff]
    constructor
    · rintro ⟨h, hle⟩
      exact ⟨[], _, rfl, .inl rfl, h, hle⟩
    · rintro ⟨sign, digits, rfl, rfl | rfl, h, hle⟩
      · exact ⟨h, hle⟩
      · exact absurd rfl (hplus digits)

/-- **A text is read as the number that it names**, if that is in range. -/
theorem inRange?_eq_some_iff {text : String} {least most n : Nat} (hmost : most ≤ maxWord64) :
    inRange? text least most = some n ↔ Names text n ∧ least ≤ n ∧ n ≤ most := by
  have hrange : inRange? text least most = some n ↔
      unsigned? maxWord64 (trim text.toList) = some n ∧ least ≤ n ∧ n ≤ most := by
    simp [inRange?, Option.filter_eq_some_iff]
  rw [hrange, unsigned?_eq_some_iff]
  constructor
  · rintro ⟨⟨sign, digits, htrim, hsign, h, -⟩, hin⟩
    exact ⟨⟨sign, digits, htrim, hsign, h⟩, hin⟩
  · rintro ⟨⟨sign, digits, htrim, hsign, h⟩, hin⟩
    exact ⟨⟨sign, digits, htrim, hsign, h, Nat.le_trans hin.2 hmost⟩, hin⟩

end Duplex.Text.Decimal
