/-
Duplex/Proofs/Text/Places.lean

Numbers in a text, read exactly up to the limit of a word.

The digits of a text are worth what their places say: the last one counts ones,
and each one before it ten times as much (`worth`).  The reader never looks at
places.  It goes from the first digit on, with ten times what it holds and the
next digit, and holds no more than a word has room for.  Both come to the same
(`ofDigitChars_eq_worth`), and what the digits of a number are is said a third
way by the writer (`isNumeral_iff`):

    digits worth n  =  some zeros, and then the text of n.

Which texts have digits at all is said without the reader (`Spells`): blanks, as
Unicode lists them (`whiteSpace`), then a plus sign or none, one or more
digits, and blanks again.  The main result is `inRange?_exact`: the number that
is read is what the digits are worth, and digits that are worth more than a word
has room for are not read, however many they are.
-/
import Duplex.Proofs.Text.Numerals
import Duplex.Proofs.Text.Pieces
import Mathlib.Data.List.Induction
import Mathlib.Data.Nat.Digits.Defs

namespace Duplex.Text.Decimal

/-! ### Places and zeros -/

section Places

variable {ds : List Char} {n : Nat}

/-- What digits are worth: the last one counts ones, and each one before it ten times as much. -/
def worth (ds : List Char) : Nat :=
  Nat.ofDigits 10 (ds.reverse.map fun d => d.toNat - '0'.toNat)

theorem worth_concat (ds : List Char) (d : Char) :
    worth (ds ++ [d]) = 10 * worth ds + (d.toNat - '0'.toNat) := by
  rw [worth, List.reverse_append, List.reverse_singleton, List.singleton_append, List.map_cons,
    Nat.ofDigits_cons, Nat.add_comm]
  rfl

theorem worth_replicate (zeros : Nat) : worth (List.replicate zeros '0') = 0 := by
  rw [worth, List.reverse_replicate, List.map_replicate]
  exact Nat.ofDigits_replicate_zero

/-- To go from the first digit on comes to what the places say. -/
theorem ofDigitChars_eq_worth (ds : List Char) : Nat.ofDigitChars 10 ds 0 = worth ds := by
  -- the last digit is the one that the reader takes last and that counts ones
  induction ds using List.reverseRecOn with
  | nil => rfl
  | append_singleton ds d ih =>
    rw [Nat.ofDigitChars_append, ih, worth_concat]
    rfl

/-- A digit is all of the text of its value. -/
theorem chars_of_isDigit {d : Char} (hd : d.isDigit = true) :
    d.toNat - '0'.toNat < 10 ∧ chars (d.toNat - '0'.toNat) = [d] := by
  have hin : 48 ≤ d.toNat ∧ d.toNat ≤ 57 := by
    simpa [Char.isDigit, UInt32.le_iff_toNat_le] using hd
  have hlt : d.toNat - 48 < 10 := by omega
  have hback : (d.toNat - 48).digitChar = d := by
    rw [← Char.toNat_inj, Nat.toNat_digitChar_of_lt_ten hlt]
    omega
  exact ⟨hlt, (Nat.toDigits_of_lt_base hlt).trans (congrArg (fun c => [c]) hback)⟩

/-- Digits are the text of what they are worth, with zeros in front. -/
theorem exists_zeros (hne : ds ≠ []) (hdigits : ∀ d ∈ ds, d.isDigit = true) :
    ∃ zeros, ds = List.replicate zeros '0' ++ chars (worth ds) := by
  induction ds using List.reverseRecOn with
  | nil => exact absurd rfl hne
  | append_singleton ds d ih =>
    obtain ⟨hds, hd⟩ := List.forall_mem_append.mp hdigits
    obtain ⟨hlt, hlast⟩ := chars_of_isDigit (hd d List.mem_cons_self)
    by_cases hnil : ds = []
    · subst hnil
      exact ⟨0, hlast.symm⟩
    obtain ⟨zeros, hrow⟩ := ih hnil hds
    rw [worth_concat]
    rcases Nat.eq_zero_or_pos (worth ds) with hzero | hpos
    -- all digits so far are zeros, and so they stand in front of the last one
    · refine ⟨zeros + 1, ?_⟩
      rw [hzero] at hrow ⊢
      rw [Nat.mul_zero, Nat.zero_add, hlast, hrow, List.replicate_succ']
      rfl
    · refine ⟨zeros, ?_⟩
      have hmore : chars (10 * worth ds + (d.toNat - '0'.toNat)) = chars (worth ds) ++ [d] := by
        rw [← hlast]
        exact (Nat.toDigits_append_toDigits (by decide) hpos hlt).symm
      rw [hmore, ← List.append_assoc, ← hrow]

/-- **A row of digits stands for a number when it is the text of that number**, with any zeros in
front. -/
theorem isNumeral_iff : IsNumeral ds n ↔ ∃ zeros, ds = List.replicate zeros '0' ++ chars n := by
  constructor
  · rintro ⟨hne, hdigits, rfl⟩
    rw [ofDigitChars_eq_worth]
    exact exists_zeros hne hdigits
  · rintro ⟨zeros, rfl⟩
    refine ⟨?_, List.forall_mem_append.mpr ⟨?_, ?_⟩, ?_⟩
    · simp [chars, Nat.toDigits_ne_nil]
    · intro d hd
      obtain rfl := List.eq_of_mem_replicate hd
      rfl
    · exact fun d hd => Nat.isDigit_of_mem_toDigits (by decide) (by decide) hd
    · rw [Nat.ofDigitChars_append, ofDigitChars_eq_worth, worth_replicate, chars,
        Nat.ofDigitChars_toDigits (by decide) (by decide)]

end Places

/-! ### Texts with digits -/

/-- The code points with the Unicode property White_Space. -/
def whiteSpace : List Nat :=
  [0x0009, 0x000a, 0x000b, 0x000c, 0x000d, 0x0020, 0x0085, 0x00a0, 0x1680, 0x2000, 0x2001, 0x2002,
   0x2003, 0x2004, 0x2005, 0x2006, 0x2007, 0x2008, 0x2009, 0x200a, 0x2028, 0x2029, 0x202f, 0x205f,
   0x3000]

/-- Between its blanks the text has those digits, after a plus sign or none. -/
structure Spells (text : String) (ds : List Char) : Prop where
  between : ∃ sign, (sign = [] ∨ sign = ['+']) ∧
    Trims (fun c => whiteSpace.contains c.toNat) text.toList (sign ++ ds)
  nonempty : ds ≠ []
  digits : ∀ d ∈ ds, d.isDigit = true

theorem contains_whiteSpace (c : Char) : whiteSpace.contains c.toNat = isBlank c := by
  have heq (d : Char) : (c == d) = (c.toNat == d.toNat) := by
    rw [Bool.eq_iff_iff, beq_iff_eq, beq_iff_eq, Char.toNat_inj]
  have hle (d e : Char) : (d ≤ e) = (d.toNat ≤ e.toNat) := rfl
  rw [Bool.eq_iff_iff, List.contains_iff_mem]
  simp only [isBlank, heq, hle, whiteSpace, Bool.or_eq_true, Bool.and_eq_true, decide_eq_true_eq,
    beq_iff_eq, List.mem_cons, List.not_mem_nil, or_false, Char.reduceToNat]
  omega

section Spells

variable {text : String} {ds ds' : List Char} {n : Nat}

theorem trims_iff_trim {cs core : List Char} :
    Trims (fun c => whiteSpace.contains c.toNat) cs core ↔ trim cs = core := by
  simp only [contains_whiteSpace]
  exact trims_iff

/-- Without its sign, what stands between the blanks is the digits. -/
theorem Spells.trim_eq (h : Spells text ds) :
    trim text.toList = ds ∨ trim text.toList = '+' :: ds := by
  obtain ⟨sign, rfl | rfl, htrim⟩ := h.between
  · exact .inl (trims_iff_trim.mp htrim)
  · exact .inr (trims_iff_trim.mp htrim)

/-- A text has one row of digits at most. -/
theorem Spells.unique (h : Spells text ds) (h' : Spells text ds') : ds = ds' := by
  -- a plus sign is no digit, so it is never the first of the row
  have plus {cs : List Char} (hcs : ∀ d ∈ '+' :: cs, d.isDigit = true) : False := by
    cases hcs '+' List.mem_cons_self
  rcases h.trim_eq with htrim | htrim <;> rcases h'.trim_eq with htrim' | htrim'
  · exact htrim.symm.trans htrim'
  · exact (plus (htrim.symm.trans htrim' ▸ h.digits)).elim
  · exact (plus (htrim'.symm.trans htrim ▸ h'.digits)).elim
  · exact (List.cons.inj (htrim.symm.trans htrim')).2

/-- A text names a number when it has digits that are worth it. -/
theorem names_iff_worth : Names text n ↔ ∃ ds, Spells text ds ∧ worth ds = n := by
  constructor
  · rintro ⟨sign, ds, htrim, hsign, h⟩
    refine ⟨ds, ⟨⟨sign, hsign, trims_iff_trim.mpr htrim⟩, h.nonempty, h.digits⟩, ?_⟩
    rw [← ofDigitChars_eq_worth, h.value]
  · rintro ⟨ds, ⟨⟨sign, hsign, htrim⟩, hne, hdigits⟩, rfl⟩
    exact ⟨sign, ds, trims_iff_trim.mp htrim, hsign, hne, hdigits, ofDigitChars_eq_worth ds⟩

/-- A text names a number when the text of that number stands there, with any zeros in front. -/
theorem names_iff_zeros :
    Names text n ↔ ∃ zeros, Spells text (List.replicate zeros '0' ++ chars n) := by
  rw [names_iff_worth]
  constructor
  · rintro ⟨ds, h, rfl⟩
    obtain ⟨zeros, hds⟩ := exists_zeros h.nonempty h.digits
    exact ⟨zeros, hds ▸ h⟩
  · rintro ⟨zeros, h⟩
    refine ⟨_, h, ?_⟩
    rw [← ofDigitChars_eq_worth]
    exact (isNumeral_iff.mpr ⟨zeros, rfl⟩).value

end Spells

/-! ### Reading between bounds -/

section Bounds

variable {text : String} {ds : List Char} {least most : UInt64} {n : Nat}

theorem inRange?_eq_some_iff_worth : inRange? text least.toNat most.toNat = some n ↔
    ∃ ds, Spells text ds ∧ worth ds = n ∧ n < 2 ^ 64 ∧ least.toNat ≤ n ∧ n ≤ most.toNat := by
  have hmost : most.toNat < 2 ^ 64 := most.toNat_lt
  rw [inRange?_eq_some_iff (Nat.le_of_lt_succ hmost), names_iff_worth]
  constructor
  · rintro ⟨⟨ds, h, hworth⟩, hleast, hle⟩
    exact ⟨ds, h, hworth, Nat.lt_of_le_of_lt hle hmost, hleast, hle⟩
  · rintro ⟨ds, h, hworth, -, hin⟩
    exact ⟨⟨ds, h, hworth⟩, hin⟩

theorem inRange?_eq_some_iff_zeros : inRange? text least.toNat most.toNat = some n ↔
    ∃ zeros, Spells text (List.replicate zeros '0' ++ chars n) ∧ least.toNat ≤ n ∧
      n ≤ most.toNat := by
  rw [inRange?_eq_some_iff (Nat.le_of_lt_succ most.toNat_lt), names_iff_zeros, exists_and_right]

theorem inRange?_eq_none_of_past (h : Spells text ds) (hpast : 2 ^ 64 ≤ worth ds) :
    inRange? text least.toNat most.toNat = none := by
  rcases hn : inRange? text least.toNat most.toNat with - | n
  · rfl
  -- what is read is worth less than there is room for, and there are no other digits
  · obtain ⟨ds', h', hworth, hlt, -⟩ := inRange?_eq_some_iff_worth.mp hn
    rw [← hworth, ← h.unique h'] at hlt
    exact absurd hpast (Nat.not_le_of_gt hlt)

end Bounds

/-- What is read of a text between two bounds is exact. -/
structure Exact (text : String) (least most : UInt64) : Prop where
  /-- The number that is read is what the digits are worth, if it is in range. -/
  reads : ∀ n, inRange? text least.toNat most.toNat = some n ↔
    ∃ ds, Spells text ds ∧ worth ds = n ∧ n < 2 ^ 64 ∧ least.toNat ≤ n ∧ n ≤ most.toNat
  /-- Digits that are worth more than a word has room for are not read, however many they are. -/
  past : ∀ ds, Spells text ds → 2 ^ 64 ≤ worth ds → inRange? text least.toNat most.toNat = none
  /-- The number that is read is the one whose own text stands there, after any zeros. -/
  zeros : ∀ n, inRange? text least.toNat most.toNat = some n ↔
    ∃ zeros, Spells text (List.replicate zeros '0' ++ chars n) ∧ least.toNat ≤ n ∧
      n ≤ most.toNat

/-- **A number is read exactly up to the limit of a word**, and never as another one. -/
theorem inRange?_exact (text : String) (least most : UInt64) : Exact text least most where
  reads _ := inRange?_eq_some_iff_worth
  past _ := inRange?_eq_none_of_past
  zeros _ := inRange?_eq_some_iff_zeros

example : inRange? "\u3000+0018446744073709551615\n" 0 maxWord64 = some maxWord64 := by decide

end Duplex.Text.Decimal
