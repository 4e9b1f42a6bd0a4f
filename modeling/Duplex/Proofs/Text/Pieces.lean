/-
Duplex/Proofs/Text/Pieces.lean

Pieces and trimmed texts, said without the functions that find them.

`Splits sep l parts` says that the parts, with one separator between each two,
are the list, and that no part holds a separator.  A list has one such row of
parts, and `pieces` finds it (`splits_iff`).  In the same way `cut` finds the
first separator (`cut_eq_some_iff`).

`Trims p l core` says that the core is the list without what satisfies `p` at
both ends.  A list has one core, and dropping from both ends finds it
(`trims_iff`).
-/
import Duplex.Proofs.Text.Forms
import Mathlib.Data.List.Basic

namespace Duplex.Text

variable {α : Type}

/-! ### Pieces -/

/-- The parts stand between the separators of the list. -/
structure Splits (sep : α) (l : List α) (parts : List (List α)) : Prop where
  nonempty : parts ≠ []
  joined : l = [sep].intercalate parts
  apart : ∀ part ∈ parts, sep ∉ part

section Splits

variable [BEq α] [LawfulBEq α] {sep : α} {l : List α} {parts : List (List α)}

theorem splits_pieces (sep : α) (l : List α) : Splits sep l (pieces (· == sep) l) := by
  induction l with
  | nil => exact ⟨by simp, rfl, by simp⟩
  | cons a l ih =>
    rcases hp : pieces (· == sep) l with - | ⟨part, parts⟩
    · exact absurd hp (pieces_ne_nil _ l)
    rw [hp] at ih
    by_cases ha : a = sep
    · subst ha
      rw [pieces_cons_of_sep (by simp), hp]
      refine ⟨by simp, ?_, ?_⟩
      · rw [List.intercalate_cons_cons, ← ih.joined]
        rfl
      · exact List.forall_mem_cons.mpr ⟨by simp, ih.apart⟩
    · rw [pieces_cons_of_not_sep (by simpa using ha) hp]
      obtain ⟨hpart, hparts⟩ := List.forall_mem_cons.mp ih.apart
      refine ⟨by simp, ?_, ?_⟩
      · rw [ih.joined]
        cases parts with
        | nil => simp
        | cons next parts => simp [List.intercalate_cons_cons]
      · exact List.forall_mem_cons.mpr ⟨by simp [Ne.symm ha, hpart], hparts⟩

theorem Splits.pieces_eq (h : Splits sep l parts) : pieces (· == sep) l = parts := by
  obtain ⟨hne, rfl, hapart⟩ := h
  have free {part : List α} (hpart : sep ∉ part) : ∀ a ∈ part, (a == sep) = false := by
    intro a ha
    rw [beq_eq_false_iff_ne]
    rintro rfl
    exact hpart ha
  induction parts with
  | nil => exact absurd rfl hne
  | cons part parts ih =>
    obtain ⟨hpart, hparts⟩ := List.forall_mem_cons.mp hapart
    cases parts with
    | nil => rw [List.intercalate_singleton, pieces_of_no_sep (free hpart)]
    | cons next parts =>
      rw [List.intercalate_cons_cons, List.append_assoc, List.singleton_append,
        pieces_append_sep (free hpart) (by simp), ih (by simp) hparts]

/-- **A list has one row of parts between its separators.** -/
theorem splits_iff : Splits sep l parts ↔ pieces (· == sep) l = parts :=
  ⟨Splits.pieces_eq, fun h => h ▸ splits_pieces sep l⟩

omit [BEq α] [LawfulBEq α] in
/-- What stands in a part stands in the list. -/
theorem Splits.mem_of_mem (h : Splits sep l parts) {part : List α} (hpart : part ∈ parts) {a : α}
    (ha : a ∈ part) : a ∈ l := by
  rw [h.joined]
  clear h
  induction parts with
  | nil => cases hpart
  | cons first parts ih =>
    cases parts with
    | nil =>
      rw [List.mem_singleton.mp hpart] at ha
      rwa [List.intercalate_singleton]
    | cons next parts =>
      rw [List.intercalate_cons_cons, List.append_assoc, List.mem_append, List.mem_append]
      rcases List.mem_cons.mp hpart with rfl | hpart
      · exact .inl ha
      · exact .inr (.inr (ih hpart))

/-- **A list is cut at its first separator.** -/
theorem cut_eq_some_iff {front back : List α} :
    cut (· == sep) l = some (front, back) ↔ l = front ++ sep :: back ∧ sep ∉ front := by
  have free : sep ∉ front ↔ ∀ a ∈ front, (a == sep) = false := by
    constructor
    · intro h a ha
      rw [beq_eq_false_iff_ne]
      rintro rfl
      exact h ha
    · intro h hmem
      simpa using h sep hmem
  constructor
  · intro h
    unfold cut at h
    split at h
    · cases h
    · rename_i a rest hdrop
      obtain ⟨rfl, rfl⟩ := Prod.mk.inj (Option.some.inj h)
      -- what stops the front is the separator
      obtain rfl : a = sep := by
        have hnot := List.head?_dropWhile_not (fun a => !(a == sep)) l
        rw [hdrop] at hnot
        simpa using hnot
      refine ⟨?_, free.mpr fun b hb => by simpa using List.mem_takeWhile_imp hb⟩
      rw [← hdrop, List.takeWhile_append_dropWhile]
  · rintro ⟨rfl, hfront⟩
    exact cut_append (free.mp hfront) (by simp)

end Splits

/-! ### Trimmed lists -/

/-- The core is the list without what satisfies `p` at both ends. -/
structure Trims (p : α → Bool) (l core : List α) : Prop where
  split : ∃ front back, l = front ++ core ++ back ∧ (∀ a ∈ front, p a = true) ∧
    ∀ a ∈ back, p a = true
  head : ∀ a ∈ core.head?, p a = false
  last : ∀ a ∈ core.getLast?, p a = false

section Trims

variable {p : α → Bool} {l core : List α}

theorem dropWhile_of_head (h : ∀ a ∈ l.head?, p a = false) : l.dropWhile p = l := by
  cases l with
  | nil => rfl
  | cons a l => exact List.dropWhile_cons_of_neg (by simp [h a rfl])

theorem head?_dropWhile (p : α → Bool) (l : List α) : ∀ a ∈ (l.dropWhile p).head?, p a = false := by
  intro a ha
  have hnot := List.head?_dropWhile_not p l
  rw [Option.mem_def.mp ha] at hnot
  simpa using hnot

theorem trims_drop (p : α → Bool) (l : List α) :
    Trims p l (dropEndWhile p (l.dropWhile p)) := by
  have hback : l.dropWhile p = dropEndWhile p (l.dropWhile p) ++
      ((l.dropWhile p).reverse.takeWhile p).reverse := by
    rw [dropEndWhile, ← List.reverse_append, List.takeWhile_append_dropWhile, List.reverse_reverse]
  refine ⟨⟨l.takeWhile p, ((l.dropWhile p).reverse.takeWhile p).reverse, ?_, ?_, ?_⟩, ?_, ?_⟩
  · rw [List.append_assoc, ← hback, List.takeWhile_append_dropWhile]
  · exact fun a ha => List.mem_takeWhile_imp ha
  · exact fun a ha => List.mem_takeWhile_imp (List.mem_reverse.mp ha)
  · -- what the core begins with is what the list begins with when the front is dropped
    intro a ha
    apply head?_dropWhile p l a
    rw [hback, List.head?_append, Option.mem_def.mp ha]
    rfl
  · intro a ha
    rw [dropEndWhile, List.getLast?_reverse] at ha
    exact head?_dropWhile p _ a ha

theorem Trims.drop_eq (h : Trims p l core) : dropEndWhile p (l.dropWhile p) = core := by
  obtain ⟨front, back, rfl, hfront, hback⟩ := h.split
  have hback' : ∀ a ∈ back.reverse, p a = true := fun a ha => hback a (List.mem_reverse.mp ha)
  rw [List.append_assoc, List.dropWhile_append_of_pos hfront]
  -- behind an empty core there is only what is dropped as well
  cases core with
  | nil =>
    rw [List.nil_append, List.dropWhile_eq_nil_iff.mpr hback]
    rfl
  | cons a core =>
    have hhead : ∀ b ∈ (a :: core ++ back).head?, p b = false := h.head
    rw [dropWhile_of_head hhead, dropEndWhile, List.reverse_append,
      List.dropWhile_append_of_pos hback', dropWhile_of_head, List.reverse_reverse]
    rw [List.head?_reverse]
    exact h.last

/-- **A list has one core.** -/
theorem trims_iff : Trims p l core ↔ dropEndWhile p (l.dropWhile p) = core :=
  ⟨Trims.drop_eq, fun h => h ▸ trims_drop p l⟩

end Trims

end Duplex.Text
