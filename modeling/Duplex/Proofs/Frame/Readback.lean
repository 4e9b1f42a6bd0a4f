/-
Duplex/Proofs/Frame/Readback.lean

Frames read back.

Two facts about the text of a frame carry everything that is laid out with
it.  No character of it is below the space, so a line break or any other
control character may end it (`printable_chars`).  And the array of a batch is
a payload with the same messages, whatever characters they hold
(`messages?_batch`).

Escaping is undone in both places where it happens: a quoted text of JSON by
the two passes of `Quoted`, a script literal by `Script.unescape?`.
-/
import Duplex.Frame.Basic
import Duplex.Frame.Payload

namespace Duplex

/-- No character is below the space. -/
def Printable (cs : List Char) : Prop := ∀ c ∈ cs, ' ' ≤ c

namespace Printable

theorem nil : Printable [] := fun _ h => by cases h

theorem cons {c : Char} {cs : List Char} (hc : ' ' ≤ c) (hcs : Printable cs) :
    Printable (c :: cs) := by
  rintro d (_ | ⟨_, hd⟩)
  · exact hc
  · exact hcs d hd

theorem append {cs ds : List Char} (hc : Printable cs) (hd : Printable ds) :
    Printable (cs ++ ds) := by
  intro c h
  exact (List.mem_append.mp h).elim (hc c) (hd c)

theorem flatMap {α : Type} {l : List α} {f : α → List Char} (h : ∀ a ∈ l, Printable (f a)) :
    Printable (l.flatMap f) := by
  intro c hc
  obtain ⟨a, ha, hc⟩ := List.mem_flatMap.mp hc
  exact h a ha c hc

end Printable

instance (cs : List Char) : Decidable (Printable cs) :=
  List.decidableBAll _ cs

/-! ### Quoted texts -/

namespace Quoted

/-- A character is written by a short escape, by its number, or as itself. -/
theorem escape_cases (c : Char) :
    (∃ e, escape c = ['\\', e] ∧ shortEscape? e = some c ∧ e ≠ 'u' ∧ ' ' ≤ e) ∨
    (c < ' ' ∧ escape c =
      ['\\', 'u', '0', '0', hexChar (c.toNat / 16), hexChar (c.toNat % 16)]) ∨
    (c ≠ '"' ∧ c ≠ '\\' ∧ ' ' ≤ c ∧ escape c = [c]) := by
  by_cases short : c ∈ ['"', '\\', '\x08', '\t', '\n', '\x0c', '\r']
  -- these seven have a short escape
  · left
    simp only [List.mem_cons, List.not_mem_nil, or_false] at short
    rcases short with rfl | rfl | rfl | rfl | rfl | rfl | rfl
    · exact ⟨'"', rfl, rfl, by decide, by decide⟩
    · exact ⟨'\\', rfl, rfl, by decide, by decide⟩
    · exact ⟨'b', rfl, rfl, by decide, by decide⟩
    · exact ⟨'t', rfl, rfl, by decide, by decide⟩
    · exact ⟨'n', rfl, rfl, by decide, by decide⟩
    · exact ⟨'f', rfl, rfl, by decide, by decide⟩
    · exact ⟨'r', rfl, rfl, by decide, by decide⟩
  · right
    simp only [List.mem_cons, List.not_mem_nil, or_false, not_or] at short
    obtain ⟨h1, h2, h3, h4, h5, h6, h7⟩ := short
    by_cases hc : c < ' '
    · exact .inl ⟨hc, by simp [escape, h1, h2, h3, h4, h5, h6, h7, hc]⟩
    · refine .inr ⟨h1, h2, Char.not_lt.mp hc, ?_⟩
      simp [escape, h1, h2, h3, h4, h5, h6, h7, hc]

/-- What scanning makes of a character as it is written. -/
def glyph (c : Char) : Glyph :=
  match escape c with
  | '\\' :: 'u' :: _ => .unit c.toNat
  | _ => .char c

theorem toNat_lt_of_lt_space {c : Char} (h : c < ' ') : c.toNat < 32 := h

theorem glyph_cases (c : Char) :
    glyph c = .char c ∨ (c < ' ' ∧ glyph c = .unit c.toNat) := by
  rcases escape_cases c with ⟨e, he, -, hu, -⟩ | ⟨hc, he⟩ | ⟨-, -, -, he⟩
  · left
    simp [glyph, he, hu]
  · right
    simp [glyph, he, hc]
  · left
    simp [glyph, he]

theorem hexUnit?_hexChar :
    ∀ n < 32, hexUnit? '0' '0' (hexChar (n / 16)) (hexChar (n % 16)) = some n := by
  decide

theorem space_le_hexChar : ∀ n < 32, ' ' ≤ hexChar (n / 16) ∧ ' ' ≤ hexChar (n % 16) := by
  decide

theorem printable_escape (c : Char) : Printable (escape c) := by
  rcases escape_cases c with ⟨e, he, -, -, hs⟩ | ⟨hc, he⟩ | ⟨-, -, hs, he⟩
  · rw [he]
    exact .cons (by decide) (.cons hs .nil)
  · obtain ⟨h1, h2⟩ := space_le_hexChar c.toNat (toNat_lt_of_lt_space hc)
    have hfront : Printable ['\\', 'u', '0', '0'] := by decide
    rw [he]
    exact hfront.append (.cons h1 (.cons h2 .nil))
  · rw [he]
    exact .cons hs .nil

theorem printable_write (cs : List Char) : Printable (write cs) :=
  .cons (by decide) (.append (.flatMap fun c _ => printable_escape c) (by decide))

/-- Scanning takes one written character at a time. -/
theorem scan_escape (acc : List Glyph) (c : Char) (rest : List Char) :
    scan acc (escape c ++ rest) = scan (glyph c :: acc) rest := by
  rcases escape_cases c with ⟨e, he, hshort, hu, -⟩ | ⟨hc, he⟩ | ⟨hq, hb, hs, he⟩
  · simp [glyph, he, scan, hshort, hu]
  · simp [glyph, he, scan, hexUnit?_hexChar c.toNat (toNat_lt_of_lt_space hc)]
  · have hn : ¬ c < ' ' := Char.not_lt.mpr hs
    simp [glyph, he, scan, hb, hn]

theorem scan_write (acc : List Glyph) (cs rest : List Char) :
    scan acc (cs.flatMap escape ++ '"' :: rest) = some (acc.reverse ++ cs.map glyph, rest) := by
  induction cs generalizing acc with
  | nil => simp [scan]
  | cons c cs ih =>
    rw [List.flatMap_cons, List.append_assoc, scan_escape, ih]
    simp

/-- A character below the space is no half of a surrogate pair. -/
theorem joinOnto_glyph (acc : List Char) (c : Char) (gs : List Glyph) :
    joinOnto acc (glyph c :: gs) = joinOnto (c :: acc) gs := by
  rcases glyph_cases c with h | ⟨hc, h⟩
  · rw [h, joinOnto]
  · have hn := toNat_lt_of_lt_space hc
    have hh : isHigh c.toNat = false := by simp [isHigh]; omega
    have hl : isLow c.toNat = false := by simp [isLow]; omega
    rw [h]
    rcases gs with - | ⟨g, gs⟩
    · simp [joinOnto, hh, hl]
    · cases g with
      | char d => simp [joinOnto, hh, hl]
      | unit m => simp [joinOnto, hh, hl]

theorem join?_map_glyph (cs : List Char) : join? (cs.map glyph) = some cs := by
  have key (acc : List Char) : joinOnto acc (cs.map glyph) = some (acc.reverse ++ cs) := by
    induction cs generalizing acc with
    | nil => simp [joinOnto]
    | cons c cs ih =>
      rw [List.map_cons, joinOnto_glyph, ih]
      simp
  exact key []

end Quoted

/-! ### Payloads -/

namespace Payload

/-- A quoted text is read as it was before it was written. -/
theorem quoted?_write (m : String) (rest : List Char) :
    quoted? (m.toList.flatMap Quoted.escape ++ '"' :: rest) = some (m, rest) := by
  simp [quoted?, Quoted.scan_write, Quoted.join?_map_glyph]

theorem items?_of_comma {acc : List String} {cs rest more : List Char} {m : String}
    (hq : quoted? cs = some (m, rest)) (hs : skip rest = ',' :: more) :
    items? acc ('"' :: cs) = items? (m :: acc) (skip more) := by
  rw [items?]
  split
  · rename_i h
    cases hq.symm.trans h
  · rename_i m' rest' h
    obtain ⟨rfl, rfl⟩ := Prod.mk.inj (Option.some.inj (hq.symm.trans h))
    split
    · rename_i h'
      obtain ⟨-, rfl⟩ := List.cons.inj (hs.symm.trans h')
      rfl
    · rename_i h'
      cases hs.symm.trans h'
    · rename_i hn _
      exact absurd hs (hn more)

theorem items?_of_end {acc : List String} {cs rest more : List Char} {m : String}
    (hq : quoted? cs = some (m, rest)) (hs : skip rest = ']' :: more) (ho : isOver more = true) :
    items? acc ('"' :: cs) = some (m :: acc).reverse := by
  rw [items?]
  split
  · rename_i h
    cases hq.symm.trans h
  · rename_i m' rest' h
    obtain ⟨rfl, rfl⟩ := Prod.mk.inj (Option.some.inj (hq.symm.trans h))
    split
    · rename_i h'
      cases hs.symm.trans h'
    · rename_i more h'
      obtain ⟨-, rfl⟩ := List.cons.inj (hs.symm.trans h')
      exact if_pos ho
    · rename_i hn
      exact absurd hs (hn more)

theorem itemsChars_texts (m : String) (ms : List String) :
    ∃ cs, Json.itemsChars ((m :: ms).map .text) = '"' :: cs := by
  cases ms with
  | nil => exact ⟨_, by simp [Json.itemsChars, Json.chars, Quoted.write]; rfl⟩
  | cons m' ms => exact ⟨_, by simp [Json.itemsChars, Json.chars, Quoted.write]; rfl⟩

/-- The items of an array are read as the texts that were written. -/
theorem items?_itemsChars (acc : List String) (m : String) (ms : List String) :
    items? acc (Json.itemsChars ((m :: ms).map .text) ++ [']']) =
      some (acc.reverse ++ m :: ms) := by
  induction ms generalizing acc m with
  | nil =>
    have hq := quoted?_write m [']']
    have hcs : Json.itemsChars ([m].map .text) ++ [']'] =
        '"' :: (m.toList.flatMap Quoted.escape ++ '"' :: [']']) := by
      simp [Json.itemsChars, Json.chars, Quoted.write]
    rw [hcs, items?_of_end hq rfl rfl]
    simp
  | cons m' ms ih =>
    have hq := quoted?_write m (',' :: (Json.itemsChars ((m' :: ms).map .text) ++ [']']))
    have hcs : Json.itemsChars ((m :: m' :: ms).map .text) ++ [']'] =
        '"' :: (m.toList.flatMap Quoted.escape ++
          '"' :: ',' :: (Json.itemsChars ((m' :: ms).map .text) ++ [']'])) := by
      simp [Json.itemsChars, Json.chars, Quoted.write]
    -- no space is written after a comma
    have hskip : skip (Json.itemsChars ((m' :: ms).map .text) ++ [']']) =
        Json.itemsChars ((m' :: ms).map .text) ++ [']'] := by
      obtain ⟨cs, h⟩ := itemsChars_texts m' ms
      rw [h]
      rfl
    rw [hcs, items?_of_comma hq rfl, hskip, ih]
    simp

/-- **A batch reads back**: its array is a payload with the same messages. -/
theorem messages?_batch (ms : List String) :
    messages? (String.ofList (Frame.batchJson ms).chars) = some ms := by
  have hcs : (Frame.batchJson ms).chars = '[' :: (Json.itemsChars (ms.map .text) ++ [']']) := by
    simp [Frame.batchJson, Json.chars]
  rw [messages?, String.toList_ofList, hcs]
  cases ms with
  | nil => rfl
  | cons m ms =>
    have hitems := items?_itemsChars [] m ms
    obtain ⟨cs, h⟩ := itemsChars_texts m ms
    rw [h] at hitems ⊢
    exact hitems

end Payload

/-! ### The characters of a frame -/

namespace Json

theorem printable_itemsChars (ms : List String) : Printable (itemsChars (ms.map .text)) := by
  induction ms with
  | nil =>
    rw [List.map_nil, itemsChars]
    exact .nil
  | cons m ms ih =>
    cases ms with
    | nil =>
      rw [List.map_singleton, itemsChars, chars]
      exact Quoted.printable_write _
    | cons m' ms =>
      rw [List.map_cons, List.map_cons, itemsChars, chars, ← List.map_cons]
      · exact .append (Quoted.printable_write _) (.cons (by decide) ih)
      · simp

theorem printable_nat (n : Nat) : Printable (chars (.nat n)) := by
  intro c hc
  have hd : c.isDigit := by
    have hn : ¬ (n : Int) < 0 := by omega
    have hc' : c ∈ Nat.toDigits 10 n := by
      simpa [chars, Json.nat, Number.chars, integerChars, Text.Decimal.chars, hn] using hc
    exact Nat.isDigit_of_mem_toDigits (by decide) (by decide) hc'
  simp only [Char.isDigit, Bool.and_eq_true, decide_eq_true_eq] at hd
  exact UInt32.le_trans (by decide) hd.1

end Json

namespace Frame

/-- **The text of a frame is printable.** -/
theorem printable_chars (f : Frame) : Printable f.chars := by
  cases f with
  | opening => decide
  | heartbeat => decide
  | batch messages =>
    have h := Json.printable_itemsChars messages
    rw [chars, batchJson, Json.chars]
    exact .cons (by decide) (.cons (by decide) (.append h (by decide)))
  | closing code reason =>
    rw [chars, closingJson, Json.chars, Json.itemsChars, Json.itemsChars, Json.chars]
    · exact .cons (by decide) (.cons (by decide) (.append
        (.append (Json.printable_nat _) (.cons (by decide) (Quoted.printable_write _)))
        (by decide)))
    · simp

/-- The messages of a frame. -/
def messages : Frame → List String
  | .batch messages => messages
  | _ => []

/-- The messages that stand in the text of a frame, if it can be read. -/
def read? : List Char → Option (List String)
  | 'a' :: rest => Payload.messages? (String.ofList rest)
  | _ => some []

/-- **A frame reads back** as its messages. -/
theorem read?_chars (f : Frame) : read? f.chars = some f.messages := by
  cases f with
  | opening => rfl
  | heartbeat => rfl
  | batch messages => exact Payload.messages?_batch messages
  | closing code reason => rfl

end Frame

/-! ### Script literals -/

namespace Script

/-- The text that a script literal stands for. -/
def unescape? : List Char → Option (List Char)
  | [] => some []
  | '\\' :: '\\' :: rest => (unescape? rest).map ('\\' :: ·)
  | '\\' :: '"' :: rest => (unescape? rest).map ('"' :: ·)
  | '\\' :: 'u' :: '2' :: '0' :: '2' :: '8' :: rest => (unescape? rest).map ('\u2028' :: ·)
  | '\\' :: 'u' :: '2' :: '0' :: '2' :: '9' :: rest => (unescape? rest).map ('\u2029' :: ·)
  | c :: rest => if c = '\\' then none else (unescape? rest).map (c :: ·)

theorem unescape?_escapeChar (c : Char) (rest : List Char) :
    unescape? (escapeChar c ++ rest) = (unescape? rest).map (c :: ·) := by
  unfold escapeChar
  split
  · subst_vars
    simp [unescape?]
  · split
    · subst_vars
      simp [unescape?]
    · split
      · subst_vars
        simp [unescape?]
      · split
        · subst_vars
          simp [unescape?]
        · simp [unescape?, *]

/-- **A script literal reads back.** -/
theorem unescape?_escapeChars (cs : List Char) : unescape? (escapeChars cs) = some cs := by
  induction cs with
  | nil => rfl
  | cons c cs ih =>
    rw [escapeChars, List.flatMap_cons, unescape?_escapeChar]
    rw [escapeChars] at ih
    rw [ih, Option.map_some]

theorem printable_escapeChars {cs : List Char} (h : Printable cs) :
    Printable (escapeChars cs) := by
  apply Printable.flatMap
  intro c hc
  unfold escapeChar
  split
  · decide
  · split
    · decide
    · split
      · decide
      · split
        · decide
        · exact .cons (h c hc) .nil

end Script

end Duplex
