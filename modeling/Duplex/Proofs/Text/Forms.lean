/-
Duplex/Proofs/Text/Forms.lean

Forms against the ways to write one.

A value may be spelt in a form in many ways: any byte as an escape, with
digits of either case, and most bytes as themselves. `Spells e bytes` says
that `e` is one of them. Whatever the spelling, and whatever fields follow,
the value that is read is the one that was written:

  first? "d" ("d=" ++ e ++ tail) = some bytes, as a text  (`first?_of_spells`).
-/
import Duplex.Text.Percent
import Mathlib.Data.List.TakeWhile

namespace Duplex.Text

/-! ### Cutting -/

section Pieces

variable {α : Type} {sep : α → Bool}

theorem pieces_cons_of_not_sep {a : α} (h : sep a = false) {l part : List α}
    {parts : List (List α)} (hp : pieces sep l = part :: parts) :
    pieces sep (a :: l) = (a :: part) :: parts := by
  unfold pieces at hp ⊢
  simp only [List.foldr_cons, hp, h, Bool.false_eq_true, if_false]

/-- What stands in front of the first separator is the first piece. -/
theorem pieces_append {l : List α} (h : ∀ a ∈ l, sep a = false) {tail part : List α}
    {parts : List (List α)} (hp : pieces sep tail = part :: parts) :
    pieces sep (l ++ tail) = (l ++ part) :: parts := by
  induction l with
  | nil => exact hp
  | cons a l ih =>
    rw [List.forall_mem_cons] at h
    exact pieces_cons_of_not_sep h.1 (ih h.2)

theorem pieces_append_sep {l : List α} (h : ∀ a ∈ l, sep a = false) {a : α} (ha : sep a = true)
    (rest : List α) : pieces sep (l ++ a :: rest) = l :: pieces sep rest := by
  simpa using pieces_append h (pieces_cons_of_sep ha rest)

theorem pieces_of_no_sep {l : List α} (h : ∀ a ∈ l, sep a = false) : pieces sep l = [l] := by
  have hnil : pieces sep ([] : List α) = [[]] := rfl
  simpa using pieces_append h hnil

/-- A list whose first element separates is cut there. -/
theorem cut_append {l rest : List α} {a : α} (h : ∀ b ∈ l, sep b = false) (ha : sep a = true) :
    cut sep (l ++ a :: rest) = some (l, rest) := by
  have hl : ∀ b ∈ l, (!sep b) = true := by simpa using h
  unfold cut
  rw [List.dropWhile_append_of_pos hl, List.takeWhile_append_of_pos hl]
  simp [ha]

end Pieces

namespace Percent

/-! ### Spelling -/

/-- The byte `d` is the hexadecimal digit for `n`, in one of the two cases. -/
def IsDigit (d : UInt8) (n : Nat) : Prop :=
  (Utf8.encode "0123456789abcdef".toList)[n]? = some d ∨
    (Utf8.encode "0123456789ABCDEF".toList)[n]? = some d

/-- In a form `e` spells the bytes: each as itself unless it is one of `&`, `%` and `+`, or as an
escape, or a space as a plus sign. -/
inductive Spells : Bytes → Bytes → Prop where
  | nil : Spells [] []
  | literal {b : UInt8} {e bytes : Bytes} (amp : b ≠ 0x26) (percent : b ≠ 0x25) (plus : b ≠ 0x2B)
      (rest : Spells e bytes) : Spells (b :: e) (b :: bytes)
  | space {e bytes : Bytes} (rest : Spells e bytes) : Spells (0x2B :: e) (0x20 :: bytes)
  | escape {b high low : UInt8} {e bytes : Bytes} (h : IsDigit high (b.toNat / 16))
      (l : IsDigit low (b.toNat % 16)) (rest : Spells e bytes) :
      Spells (0x25 :: high :: low :: e) (b :: bytes)

/-- Nothing, or more fields. -/
def IsMore (tail : Bytes) : Prop := tail = [] ∨ ∃ more, tail = 0x26 :: more

/-- What is spelt is no longer than its spelling. -/
theorem Spells.length_le {e bytes : Bytes} (h : Spells e bytes) : bytes.length ≤ e.length := by
  induction h with
  | nil => exact Nat.le_refl _
  | literal | space | escape =>
    simp only [List.length_cons]
    omega

/-- Spellings are put after one another. -/
theorem Spells.append {e bytes e' bytes' : Bytes} (h : Spells e bytes) (h' : Spells e' bytes') :
    Spells (e ++ e') (bytes ++ bytes') := by
  induction h with
  | nil => exact h'
  | literal amp percent plus _ ih => exact .literal amp percent plus ih
  | space _ ih => exact .space ih
  | escape hh hl _ ih => exact .escape hh hl ih

/-! ### Digits -/

theorem IsDigit.lt {d : UInt8} {n : Nat} (h : IsDigit d n) : n < 16 := by
  rcases h with h | h
  all_goals exact (List.getElem?_eq_some_iff.mp h).1

/-- A digit is read as its number, and is none of the signs that mean something in a form. -/
theorem IsDigit.read {d : UInt8} {n : Nat} (h : IsDigit d n) :
    hexDigit? d = some (UInt8.ofNat n) ∧ d ≠ 0x26 ∧ d ≠ 0x2B := by
  have table : ∀ n < 16, ∀ row ∈ ["0123456789abcdef", "0123456789ABCDEF"],
      ∀ d ∈ (Utf8.encode row.toList)[n]?,
        hexDigit? d = some (UInt8.ofNat n) ∧ d ≠ 0x26 ∧ d ≠ 0x2B := by
    decide +kernel
  rcases h with hd | hd
  · exact table n (IsDigit.lt (.inl hd)) _ (by simp) d hd
  · exact table n (IsDigit.lt (.inr hd)) _ (by simp) d hd

theorem escaped?_of_isDigit {b high low : UInt8} (h : IsDigit high (b.toNat / 16))
    (l : IsDigit low (b.toNat % 16)) : escaped? high low = some b := by
  have hb := UInt8.toNat_lt b
  simp only [escaped?, h.read.1, l.read.1, Option.some.injEq, ← UInt8.toNat_inj, UInt8.toNat_add,
    UInt8.toNat_mul, UInt8.toNat_ofNat', UInt8.reduceToNat]
  omega

/-! ### What is read -/

theorem decodeOnto_of_ne {b : UInt8} (h : b ≠ 0x25) (acc rest : Bytes) :
    decodeOnto acc (b :: rest) = decodeOnto (b :: acc) rest := by
  match rest with
  | [] | [_] => rfl
  | _ :: _ :: _ => rw [decodeOnto, if_neg h]

theorem decodeOnto_escape {high low b : UInt8} (h : escaped? high low = some b)
    (acc rest : Bytes) :
    decodeOnto acc (0x25 :: high :: low :: rest) = decodeOnto (b :: acc) rest := by
  rw [decodeOnto, if_pos rfl, h]

/-- Plus signs are spaces. -/
def spaced (bytes : Bytes) : Bytes := bytes.map fun b => if b = 0x2B then 0x20 else b

theorem spaced_cons (b : UInt8) (e : Bytes) :
    spaced (b :: e) = (if b = 0x2B then 0x20 else b) :: spaced e := rfl

theorem decodeOnto_of_spells {e bytes : Bytes} (h : Spells e bytes) (acc : Bytes) :
    decodeOnto acc (spaced e) = acc.reverse ++ bytes := by
  induction h generalizing acc with
  | nil => simp [spaced, decodeOnto]
  | literal _ percent plus _ ih =>
    rw [spaced_cons, if_neg plus, decodeOnto_of_ne percent]
    simpa using ih (_ :: acc)
  | space _ ih =>
    rw [spaced_cons, if_pos rfl, decodeOnto_of_ne (by decide)]
    simpa using ih (_ :: acc)
  | escape hh hl _ ih =>
    rw [spaced_cons, spaced_cons, spaced_cons, if_neg (by decide),
      if_neg hh.read.2.2, if_neg hl.read.2.2, decodeOnto_escape (escaped?_of_isDigit hh hl)]
    simpa using ih (_ :: acc)

/-- Whatever the spelling, what is read is what was written. -/
theorem component_of_spells {e bytes : Bytes} (h : Spells e bytes) : component e = bytes :=
  decodeOnto_of_spells h []

/-- No spelling goes beyond its field. -/
theorem Spells.noAmp {e bytes : Bytes} (h : Spells e bytes) :
    ∀ b ∈ e, (b == 0x26) = false := by
  induction h with
  | nil => simp
  | literal amp _ _ _ ih => simpa [amp] using ih
  | space _ ih => simpa using ih
  | escape hh hl _ ih => simpa [hh.read.2.1, hl.read.2.1] using ih

theorem pieces_of_isMore {tail : Bytes} (h : IsMore tail) :
    ∃ parts, pieces (· == 0x26) tail = [] :: parts := by
  rcases h with rfl | ⟨more, rfl⟩
  · exact ⟨[], rfl⟩
  · exact ⟨_, pieces_cons_of_sep (by rfl) more⟩

/-- The first field of a form that begins with `d=` is named d. -/
theorem first?_append {e tail : Bytes} (he : ∀ b ∈ e, (b == 0x26) = false) (ht : IsMore tail) :
    first? "d" (0x64 :: 0x3D :: e ++ tail) = some (componentText e) := by
  obtain ⟨parts, hp⟩ := pieces_of_isMore ht
  have hfield : ∀ b ∈ 0x64 :: 0x3D :: e, (b == (0x26 : UInt8)) = false := by simpa using he
  have hpieces := pieces_append hfield hp
  rw [List.append_nil] at hpieces
  have hcut : cut (· == 0x3D) (0x64 :: 0x3D :: e) = some ([0x64], e) :=
    cut_append (l := [0x64]) (List.forall_mem_singleton.mpr (by rfl)) (by rfl)
  have hname : componentText [0x64] = "d" := by decide
  rw [first?, fields, hpieces, List.filter_cons_of_pos (by rfl), List.map_cons, hcut]
  simp only [hname, List.lookup_cons, beq_self_eq_true]

/-- **A form is read as it was written**: the value of its field d is the text that the bytes are
read as, whatever their spelling and whatever fields follow. -/
theorem first?_of_spells {e bytes tail : Bytes} (h : Spells e bytes) (ht : IsMore tail) :
    first? "d" (0x64 :: 0x3D :: e ++ tail) = some (String.ofList (Utf8.decodeLossy bytes)) := by
  rw [first?_append h.noAmp ht, componentText, component_of_spells h]

end Percent

end Duplex.Text
