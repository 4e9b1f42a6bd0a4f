/-
Duplex/Proofs/Frame/Literal.lean

Script literals: an escaped text between quotation marks.

Who reads such a literal as a payload finds one quoted text, and it denotes the
text that was escaped (`denotes_escapeChars`).  The one thing that stands in the
way is a character below the space: it is not escaped, and no quoted text holds
one raw.  Texts of frames hold none.

Who reads it as a script must not take a quotation mark of the text for the end
of the literal.  Backslashes of the text are written in pairs, so an escaped
text ends in an even number of them (`trailing_escapeChars`), and the backslash
that is put before a quotation mark makes the number odd (`trailing_of_quote`).
-/
import Duplex.Proofs.Frame.Grammar
import Mathlib.Data.List.Induction

namespace Duplex

/-! ### Quoted texts are printable -/

namespace Quoted

theorem space_le_of_isHex {c : Char} {v : Nat} (h : IsHex c v) : ' ' ≤ c := by
  have lower : Printable "0123456789abcdef".toList := by decide
  have upper : Printable "0123456789ABCDEF".toList := by decide
  rcases h with h | h
  · exact lower c (List.mem_of_getElem? h)
  · exact upper c (List.mem_of_getElem? h)

theorem IsUnit.printable {cs : List Char} {n : Nat} (h : IsUnit cs n) : Printable cs := by
  obtain ⟨c₁, c₂, c₃, c₄, _, _, _, _, rfl, h₁, h₂, h₃, h₄, -⟩ := h
  exact .cons (space_le_of_isHex h₁) (.cons (space_le_of_isHex h₂)
    (.cons (space_le_of_isHex h₃) (.cons (space_le_of_isHex h₄) .nil)))

/-- What may stand between two quotation marks is printable. -/
theorem Denotes.printable {cs m : List Char} (h : Denotes cs m) : Printable cs := by
  induction h with
  | nil => exact .nil
  | plain hs _ _ _ ih => exact .cons hs ih
  | @short e c cs m he _ ih =>
    have table : ∀ p ∈ shortEscapes, ' ' ≤ p.1 := by decide
    exact .cons (by decide) (.cons (table _ he) ih)
  | unit hu _ _ ih => exact .cons (by decide) (.cons (by decide) (hu.printable.append ih))
  | pair hu hv _ _ _ _ _ _ ih =>
    exact .cons (by decide) (.cons (by decide) (hu.printable.append
      (.cons (by decide) (.cons (by decide) (hv.printable.append ih)))))

end Quoted

namespace Script

/-! ### What is escaped, and how -/

/-- Four characters are escaped, each by a backslash and more; every other one stands as it is. -/
theorem escapeChar_cases (c : Char) :
    (c = '\\' ∧ escapeChar c = ['\\', '\\']) ∨ (c = '"' ∧ escapeChar c = ['\\', '"']) ∨
    (c = '\u2028' ∧ escapeChar c = ['\\', 'u', '2', '0', '2', '8']) ∨
    (c = '\u2029' ∧ escapeChar c = ['\\', 'u', '2', '0', '2', '9']) ∨
    (c ∉ ['\\', '"', '\u2028', '\u2029'] ∧ escapeChar c = [c]) := by
  unfold escapeChar
  by_cases h₁ : c = '\\'
  · exact .inl ⟨h₁, by rw [if_pos h₁]⟩
  by_cases h₂ : c = '"'
  · exact .inr (.inl ⟨h₂, by rw [if_neg h₁, if_pos h₂]⟩)
  by_cases h₃ : c = '\u2028'
  · exact .inr (.inr (.inl ⟨h₃, by rw [if_neg h₁, if_neg h₂, if_pos h₃]⟩))
  by_cases h₄ : c = '\u2029'
  · exact .inr (.inr (.inr (.inl ⟨h₄, by rw [if_neg h₁, if_neg h₂, if_neg h₃, if_pos h₄]⟩)))
  · refine .inr (.inr (.inr (.inr ⟨by simp [h₁, h₂, h₃, h₄], ?_⟩)))
    rw [if_neg h₁, if_neg h₂, if_neg h₃, if_neg h₄]

theorem escapeChars_cons (c : Char) (cs : List Char) :
    escapeChars (c :: cs) = escapeChar c ++ escapeChars cs := List.flatMap_cons

theorem escapeChars_concat (cs : List Char) (c : Char) :
    escapeChars (cs ++ [c]) = escapeChars cs ++ escapeChar c := by
  rw [escapeChars, List.flatMap_append, List.flatMap_singleton]
  rfl

/-- No line separator is left raw. -/
theorem not_mem_escapeChars {c : Char} (hc : c = '\u2028' ∨ c = '\u2029') (cs : List Char) :
    c ∉ escapeChars cs := by
  intro h
  obtain ⟨d, -, hd⟩ := List.mem_flatMap.mp h
  rcases escapeChar_cases d with ⟨-, he⟩ | ⟨-, he⟩ | ⟨-, he⟩ | ⟨-, he⟩ | ⟨hn, he⟩
  case inr.inr.inr.inr =>
    rw [he, List.mem_singleton] at hd
    subst hd
    rcases hc with rfl | rfl
    · exact hn (by decide)
    · exact hn (by decide)
  all_goals
    rw [he] at hd
    rcases hc with rfl | rfl
    · exact absurd hd (by decide)
    · exact absurd hd (by decide)

theorem escape_injective : Function.Injective escape := by
  intro f g h
  have hcs : escapeChars f.toList = escapeChars g.toList := String.ofList_injective h
  have hread := unescape?_escapeChars f.toList
  rw [hcs, unescape?_escapeChars] at hread
  exact String.toList_inj.mp (Option.some.inj hread).symm

/-! ### Backslashes -/

/-- How many backslashes a text ends in. -/
def trailing (cs : List Char) : Nat := (cs.reverse.takeWhile (· == '\\')).length

theorem trailing_concat_backslash (cs : List Char) : trailing (cs ++ ['\\']) = trailing cs + 1 := by
  simp [trailing]

theorem trailing_concat_of_ne {c : Char} (hc : c ≠ '\\') (cs : List Char) :
    trailing (cs ++ [c]) = 0 := by
  simp [trailing, hc]

/-- **An escaped text ends in an even number of backslashes.** -/
theorem trailing_escapeChars (cs : List Char) : trailing (escapeChars cs) % 2 = 0 := by
  induction cs using List.reverseRecOn with
  | nil => rfl
  | append_singleton cs c ih =>
    -- whatever is no backslash ends the run, also as the last character of an escape
    have ends (front : List Char) {d : Char} (hd : d ≠ '\\') (he : escapeChar c = front ++ [d]) :
        trailing (escapeChars cs ++ escapeChar c) % 2 = 0 := by
      rw [he, ← List.append_assoc, trailing_concat_of_ne hd]
    rw [escapeChars_concat]
    rcases escapeChar_cases c with ⟨-, he⟩ | ⟨-, he⟩ | ⟨-, he⟩ | ⟨-, he⟩ | ⟨hn, he⟩
    · have htwo : escapeChars cs ++ escapeChar c = escapeChars cs ++ ['\\'] ++ ['\\'] := by
        rw [he, List.append_assoc]
        rfl
      rw [htwo, trailing_concat_backslash, trailing_concat_backslash]
      omega
    · exact ends ['\\'] (by decide) he
    · exact ends ['\\', 'u', '2', '0', '2'] (by decide) he
    · exact ends ['\\', 'u', '2', '0', '2'] (by decide) he
    · exact ends [] (fun h => hn (by simp [h])) he

/-- The escape of one character holds a quotation mark only behind a backslash of its own. -/
theorem eq_of_quote {c : Char} {before after : List Char}
    (h : escapeChar c = before ++ '"' :: after) : before = ['\\'] := by
  have hmem : '"' ∈ escapeChar c := by
    rw [h]
    exact List.mem_append_right _ List.mem_cons_self
  rcases escapeChar_cases c with ⟨-, he⟩ | ⟨-, he⟩ | ⟨-, he⟩ | ⟨-, he⟩ | ⟨hn, he⟩
  case inr.inl =>
    rw [he] at h
    rcases before with - | ⟨b, - | ⟨b', before⟩⟩
    · cases h
    · rw [(List.cons.inj h).1]
    · have hl := congrArg List.length h
      simp at hl
  case inr.inr.inr.inr =>
    rw [he, List.mem_singleton] at hmem
    exact absurd (by simp [← hmem]) hn
  all_goals
    rw [he] at hmem
    exact absurd hmem (by decide)

/-- **A quotation mark of an escaped text stands behind an odd number of backslashes.** -/
theorem trailing_of_quote {cs before after : List Char}
    (h : escapeChars cs = before ++ '"' :: after) : trailing before % 2 = 1 := by
  -- from the last character back: the mark is in what that one is written as, or stands before it
  induction cs using List.reverseRecOn generalizing after with
  | nil => simp [escapeChars] at h
  | append_singleton cs c ih =>
    have heven := trailing_escapeChars cs
    have inside {front : List Char} (he : escapeChar c = front ++ '"' :: after) :
        trailing (escapeChars cs ++ front) % 2 = 1 := by
      rw [eq_of_quote he, trailing_concat_backslash]
      omega
    rw [escapeChars_concat] at h
    rcases List.append_eq_append_iff.mp h with ⟨front, rfl, he⟩ | ⟨back, hcs, he⟩
    · exact inside he
    · rcases back with - | ⟨b, back⟩
      · rw [List.append_nil] at hcs
        rw [← hcs, ← List.append_nil (escapeChars cs)]
        exact inside he.symm
      · obtain ⟨rfl, -⟩ := List.cons.inj he
        exact ih hcs

/-! ### Literals read back -/

/-- A text as a script literal. -/
def literal (s : String) : String := "\"" ++ escape s ++ "\""

theorem toList_literal (s : String) :
    (literal s).toList = '"' :: (escapeChars s.toList ++ ['"']) := by
  simp [literal, escape]

/-- **What is escaped is denoted**, if it is printable. -/
theorem denotes_escapeChars {cs : List Char} (h : Printable cs) :
    Quoted.Denotes (escapeChars cs) cs := by
  induction cs with
  | nil => exact .nil
  | cons c cs ih =>
    have hd := ih fun d hd => h d (List.mem_cons_of_mem c hd)
    rw [escapeChars_cons]
    rcases escapeChar_cases c with ⟨rfl, he⟩ | ⟨rfl, he⟩ | ⟨rfl, he⟩ | ⟨rfl, he⟩ | ⟨hn, he⟩
    -- the quotation mark and the backslash have short escapes
    · rw [he]
      exact .short (by decide) hd
    · rw [he]
      exact .short (by decide) hd
    -- the two line separators are written as units
    · have hu : Quoted.IsUnit ['2', '0', '2', '8'] 0x2028 :=
        Quoted.hexUnit?_eq_some.mp (by decide)
      rw [he]
      exact .unit hu (by decide) hd
    · have hu : Quoted.IsUnit ['2', '0', '2', '9'] 0x2029 :=
        Quoted.hexUnit?_eq_some.mp (by decide)
      rw [he]
      exact .unit hu (by decide) hd
    -- every other character stands for itself
    · have hq : c ≠ '"' := by
        rintro rfl
        exact hn (by decide)
      have hb : c ≠ '\\' := by
        rintro rfl
        exact hn (by decide)
      rw [he]
      exact .plain (h c List.mem_cons_self) hq hb hd

/-- A character below the space is not escaped. -/
theorem printable_of_escapeChars {cs : List Char} (h : Printable (escapeChars cs)) :
    Printable cs := by
  intro c hc
  by_contra hlt
  have he : escapeChar c = [c] := by
    rcases escapeChar_cases c with ⟨rfl, -⟩ | ⟨rfl, -⟩ | ⟨rfl, -⟩ | ⟨rfl, -⟩ | ⟨-, he⟩
    · exact absurd (by decide) hlt
    · exact absurd (by decide) hlt
    · exact absurd (by decide) hlt
    · exact absurd (by decide) hlt
    · exact he
  exact hlt (h c (List.mem_flatMap.mpr ⟨c, hc, by simp [he]⟩))

theorem messages?_literal {f : String} (h : Printable f.toList) :
    Payload.messages? (literal f) = some [f] := by
  apply Payload.messages?_eq_some_iff.mpr
  rw [toList_literal]
  refine ⟨[], _, [], (List.append_nil _).symm, by simp [Payload.IsGap], by simp [Payload.IsGap], ?_⟩
  exact .single ⟨escapeChars f.toList, rfl, denotes_escapeChars h⟩

/-- A literal that is read holds a printable text. -/
theorem printable_of_messages? {f : String} {ms : List String}
    (h : Payload.messages? (literal f) = some ms) : Printable f.toList := by
  rw [Payload.messages?, toList_literal, Payload.read?, Payload.skip_cons (by decide)] at h
  split at h
  · rename_i rest hrest
    obtain ⟨-, rfl⟩ := List.cons.inj hrest
    split at h
    · rename_i m rest hq
      split at h
      · rename_i ho
        obtain ⟨body, hbody, hd⟩ := Payload.quoted?_eq_some.mp hq
        -- the literal ends with a quotation mark, so no gap follows the one that ends the text
        have hnil : rest = [] := by
          rcases List.eq_nil_or_concat rest with hnil | ⟨front, c, rfl⟩
          · exact hnil
          · have hc := Payload.isOver_iff.mp ho c (by simp)
            rw [List.concat_eq_append, ← List.cons_append, ← List.append_assoc] at hbody
            obtain rfl : '"' = c := List.singleton_inj.mp (List.append_inj_right' hbody rfl)
            exact absurd hc (by decide)
        rw [hnil] at hbody
        rw [← List.append_cancel_right hbody] at hd
        exact printable_of_escapeChars hd.printable
      · cases h
    · cases h
  · rename_i hrest
    cases hrest
  · rename_i hn _
    exact absurd rfl (hn _)

/-- **Escaping for a script is undone by reading the literal.**  A text without characters below
the space, and no other one, is read back from its literal; so is the text of every frame.  An
escaped text, whatever it holds, has no raw line separator, has every quotation mark behind an odd
number of backslashes and ends in an even number of them, and no other text is escaped alike. -/
theorem escape_literal :
    (∀ f : String, (∀ c ∈ f.toList, ' ' ≤ c) ↔ Payload.messages? (literal f) = some [f]) ∧
    (∀ frame : Frame, Payload.messages? (literal frame.text) = some [frame.text]) ∧
    (∀ f : String, '\u2028' ∉ (escape f).toList ∧ '\u2029' ∉ (escape f).toList) ∧
    (∀ (f : String) (before after : List Char), (escape f).toList = before ++ '"' :: after →
      trailing before % 2 = 1) ∧
    (∀ f : String, trailing (escape f).toList % 2 = 0) ∧
    Function.Injective escape := by
  refine ⟨?literal, ?frame, ?separators, ?quotes, ?ending, escape_injective⟩
  case literal =>
    intro f
    exact ⟨messages?_literal, printable_of_messages?⟩
  case frame =>
    intro frame
    apply messages?_literal
    rw [Frame.text, String.toList_ofList]
    exact frame.printable_chars
  case separators =>
    intro f
    rw [escape, String.toList_ofList]
    exact ⟨not_mem_escapeChars (.inl rfl) _, not_mem_escapeChars (.inr rfl) _⟩
  case quotes =>
    intro f before after h
    rw [escape, String.toList_ofList] at h
    exact trailing_of_quote h
  case ending =>
    intro f
    rw [escape, String.toList_ofList]
    exact trailing_escapeChars f.toList

end Script

end Duplex
