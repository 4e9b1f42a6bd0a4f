/-
Duplex/Proofs/Frame/Encoding.lean

The texts of frames: faithful and unambiguous.

The letter tells the kind of a frame, and what follows it tells the rest: after
a batch a payload that says its messages, after a closing frame a JSON array of
code and reason.  Both read back (`messages?_batch`, `read?_closing`), so two
frames with the same text are the same frame (`text_injective`).
-/
import Duplex.Proofs.Json.Trees

namespace Duplex

/-! ### Closing frames read back -/

namespace Frame

theorem toNat_le_maxWord64 (code : UInt16) : code.toNat ≤ Text.Decimal.maxWord64 :=
  Nat.le_trans (Nat.le_of_lt code.toNat_lt) (by decide)

/-- **A closing frame reads back** as the array of its code and its reason. -/
theorem read?_closing (code : UInt16) (reason : String) :
    Json.read? (closingJson code reason).write = some (closingJson code reason) := by
  have htree : (closingJson code reason).tree = .array [.number ⟨false, code.toNat, 0, true⟩,
      .text (reason.toList.map Quoted.glyph)] := by
    simp only [closingJson, Json.nat, Json.tree, Json.itemTrees,
      Number.held_whole (toNat_le_maxWord64 code)]
  rw [Json.read?, Json.write, String.toList_ofList, Tree.read?_chars, htree]
  simp [Tree.json?, Tree.maxDepth, Tree.jsonWithin?, Tree.itemsWithin?, Numeral.number?,
    Tree.string?_glyphs, closingJson, Json.nat]

/-! ### Texts begin with their letter -/

theorem text_batch (messages : List String) :
    (batch messages).text = "a" ++ (batchJson messages).write := by
  rw [text, chars, Json.write, ← String.toList_inj]
  simp

theorem text_closing (code : UInt16) (reason : String) :
    (closing code reason).text = "c" ++ (closingJson code reason).write := by
  rw [text, chars, Json.write, ← String.toList_inj]
  simp

theorem batch_inj_of_write {ms ms' : List String}
    (h : (batchJson ms).write = (batchJson ms').write) : ms = ms' := by
  have hread := Payload.messages?_batch ms
  rw [← Json.write, h, Json.write, Payload.messages?_batch] at hread
  exact (Option.some.inj hread).symm

theorem closing_inj_of_write {code code' : UInt16} {reason reason' : String}
    (h : (closingJson code reason).write = (closingJson code' reason').write) :
    code = code' ∧ reason = reason' := by
  have hread := read?_closing code reason
  rw [h, read?_closing] at hread
  simp only [closingJson, Json.nat, Option.some.injEq, Json.array.injEq, List.cons.injEq,
    Json.number.injEq, Number.whole.injEq, Json.text.injEq, and_true] at hread
  exact ⟨UInt16.toNat_inj.mp (Int.ofNat_inj.mp hread.1.symm), hread.2.symm⟩

/-- **Different frames have different texts.** -/
theorem text_injective : Function.Injective text := by
  intro f f' h
  have letter : f.chars.head? = f'.chars.head? := congrArg _ (String.ofList_injective h)
  -- the letters agree, so the frames are of one kind
  cases f with
  | opening =>
    cases f' with
    | opening => rfl
    | heartbeat | batch | closing => cases letter
  | heartbeat =>
    cases f' with
    | heartbeat => rfl
    | opening | batch | closing => cases letter
  | batch ms =>
    cases f' with
    | batch ms' =>
      -- what follows the letter is a JSON text, and these are injective
      rw [text_batch, text_batch, String.append_right_inj] at h
      rw [batch_inj_of_write h]
    | opening | heartbeat | closing => cases letter
  | closing code reason =>
    cases f' with
    | closing code' reason' =>
      rw [text_closing, text_closing, String.append_right_inj] at h
      obtain ⟨rfl, rfl⟩ := closing_inj_of_write h
      rfl
    | opening | heartbeat | batch => cases letter

/-! ### The shape of a batch -/

/-- Items end with a quotation mark, as they begin with one. -/
theorem itemsChars_ends (m : String) (ms : List String) :
    ∃ mid, Json.itemsChars ((m :: ms).map .text) = '"' :: (mid ++ ['"']) := by
  induction ms generalizing m with
  | nil => exact ⟨_, by simp [Json.itemsChars, Json.chars, Quoted.write]; rfl⟩
  | cons m' ms ih =>
    obtain ⟨mid, h⟩ := ih m'
    refine ⟨m.toList.flatMap Quoted.escape ++ '"' :: ',' :: '"' :: mid, ?_⟩
    rw [List.map_cons, Json.itemsChars, h]
    · simp [Json.chars, Quoted.write]
    · simp

/-- **A batch looks like a payload exactly when it has messages.** -/
theorem hasShape_batch (ms : List String) :
    Payload.hasShape (batchJson ms).write = true ↔ ms ≠ [] := by
  rcases ms with - | ⟨m, ms⟩
  · simp [batchJson, Json.write, Json.chars, Json.itemsChars, Payload.hasShape]
  · obtain ⟨mid, h⟩ := itemsChars_ends m ms
    have hcs : (batchJson (m :: ms)).write.toList = ['[', '"'] ++ mid ++ ['"', ']'] := by
      rw [Json.write, String.toList_ofList, batchJson, Json.chars, h]
      simp
    have hfront : ['[', '"'] <+: ['[', '"'] ++ mid ++ ['"', ']'] := ⟨mid ++ ['"', ']'], by simp⟩
    have hback : ['"', ']'] <:+ ['[', '"'] ++ mid ++ ['"', ']'] := ⟨['[', '"'] ++ mid, rfl⟩
    simp only [Payload.hasShape, hcs, List.isPrefixOf_iff_prefix.mpr hfront,
      List.isSuffixOf_iff_suffix.mpr hback]
    simp

/-! ### All of it -/

/-- **The texts of frames are faithful and unambiguous.**  Different frames have different texts,
and no text holds a character below the space.  What follows the letter of a batch is a payload with
its messages, and looks like one unless the batch is empty.  What follows the letter of a closing
frame is the array of its code and its reason.  And whatever a payload says, its messages say it
again when they are written and read. -/
theorem text_faithful :
    Function.Injective text ∧
    (∀ f : Frame, ∀ c ∈ f.text.toList, ' ' ≤ c) ∧
    (∀ ms, (batch ms).text = "a" ++ (batchJson ms).write ∧
      Payload.messages? (batchJson ms).write = some ms ∧
      (Payload.hasShape (batchJson ms).write = true ↔ ms ≠ [])) ∧
    (∀ code reason, (closing code reason).text = "c" ++ (closingJson code reason).write ∧
      Json.read? (closingJson code reason).write =
        some (.array [.nat code.toNat, .text reason])) ∧
    ∀ payload, ((Payload.messages? payload).bind fun ms =>
      Payload.messages? (batchJson ms).write) = Payload.messages? payload := by
  refine ⟨text_injective, ?printable, ?batch, ?closing, ?again⟩
  case printable =>
    intro f
    rw [text, String.toList_ofList]
    exact printable_chars f
  case batch =>
    intro ms
    exact ⟨text_batch ms, Payload.messages?_batch ms, hasShape_batch ms⟩
  case closing =>
    intro code reason
    exact ⟨text_closing code reason, read?_closing code reason⟩
  case again =>
    intro payload
    rcases Payload.messages? payload with - | ms
    · rfl
    · exact Payload.messages?_batch ms

end Frame

end Duplex
