/-
Duplex/Proofs/Carrier/Body.lean

Response bodies read back.

A client reads a body by its framing alone: it drops the preamble, cuts the
rest into blocks, each between an opening and a closing, and, for a callback,
undoes the escapes.  `Framing.texts?` is this reading; it knows nothing of how
bodies are written.

Every closing holds a character below the space, and what stands in front of
that character in the closing is printable, as the frames are.  So a closing
is first found where it was written (`cutAt?_append`), whatever the frames
hold, and a body reads back as its frames (`texts?_layout`) and as their
messages (`messages?_layout`).

`Holds` ties a response stream to the frames that were written on it, and
every operation of the stream keeps it.
-/
import Duplex.Carrier.ResponseStream
import Duplex.Proofs.Frame.Readback
import Mathlib.Data.List.Basic

namespace Duplex

/-! ### Blocks between marks -/

/-- What stands before the first place at which `mark` stands, and what stands after it. -/
def cutAt? (mark : List Char) : List Char → Option (List Char × List Char)
  | [] => (mark.isPrefixOf? []).map ([], ·)
  | c :: cs =>
    match mark.isPrefixOf? (c :: cs) with
    | some rest => some ([], rest)
    | none => (cutAt? mark cs).map fun (before, rest) => (c :: before, rest)

/-- The blocks of a text, each between an opening and the first closing after it. -/
def blocks? (opening closing : List Char) (text : List Char) : Option (List (List Char)) :=
  if text.isEmpty then some []
  else
    match (opening.isPrefixOf? text).bind (cutAt? closing) with
    | none => none
    | some (block, rest) =>
      if rest.length < text.length then (blocks? opening closing rest).map (block :: ·) else none
termination_by text.length

theorem isPrefixOf?_append (cs rest : List Char) : cs.isPrefixOf? (cs ++ rest) = some rest := by
  induction cs with
  | nil => rfl
  | cons c cs ih => simp [List.isPrefixOf?, ih]

theorem append_of_isPrefixOf? {cs text rest : List Char} (h : cs.isPrefixOf? text = some rest) :
    text = cs ++ rest := by
  induction cs generalizing text with
  | nil => exact Option.some.inj h
  | cons c cs ih =>
    cases text with
    | nil => cases h
    | cons d text =>
      simp only [List.isPrefixOf?] at h
      split at h
      · rename_i hcd
        rw [beq_iff_eq.mp hcd, ih h]
        rfl
      · cases h

/-- A mark is told from what is printable by a character below the space. -/
def IsMark (mark : List Char) : Prop :=
  ∃ front c back, mark = front ++ c :: back ∧ Printable front ∧ c < ' '

/-- A mark does not begin inside something printable. -/
theorem IsMark.isPrefixOf?_eq_none {mark : List Char} (hm : IsMark mark) {c : Char}
    {cs : List Char} (hcs : Printable (c :: cs)) (rest : List Char) :
    mark.isPrefixOf? (c :: cs ++ (mark ++ rest)) = none := by
  rcases h : mark.isPrefixOf? (c :: cs ++ (mark ++ rest)) with - | after
  · rfl
  exfalso
  obtain ⟨front, d, back, rfl, hf, hd⟩ := hm
  have heq := append_of_isPrefixOf? h
  -- the place of `d` in the mark lies inside what is printable
  have hlt : front.length < ((c :: cs) ++ front).length := by
    simp only [List.length_append, List.length_cons]
    omega
  have hat : ((c :: cs) ++ front)[front.length]? = some d := by
    have hl := congrArg (·[front.length]?) heq
    simp only [List.append_assoc] at hl
    rw [← List.append_assoc (c :: cs) front, List.getElem?_append_left hlt] at hl
    rw [hl]
    simp
  have hmem := List.mem_of_getElem? hat
  exact Char.not_lt.mpr (hcs.append hf d hmem) hd

/-- **A mark is found where it was written.** -/
theorem cutAt?_append {mark : List Char} (hm : IsMark mark) {cs : List Char}
    (hcs : Printable cs) (rest : List Char) :
    cutAt? mark (cs ++ (mark ++ rest)) = some (cs, rest) := by
  induction cs with
  | nil =>
    have h := isPrefixOf?_append mark rest
    rw [List.nil_append]
    rcases hcase : mark ++ rest with - | ⟨c, after⟩
    · rw [hcase] at h
      simp [cutAt?, h]
    · rw [hcase] at h
      simp [cutAt?, h]
  | cons c cs ih =>
    -- the mark does not begin at `c`
    have h := hm.isPrefixOf?_eq_none hcs rest
    have hcs' : Printable cs := fun d hd => hcs d (List.mem_cons_of_mem c hd)
    rw [List.cons_append, cutAt?]
    rw [List.cons_append] at h
    rw [h, ih hcs']
    rfl

theorem blocks?_of_cut {opening closing text block rest : List Char}
    (hcut : cutAt? closing text = some (block, rest))
    (hl : rest.length < (opening ++ text).length) :
    blocks? opening closing (opening ++ text) =
      (blocks? opening closing rest).map (block :: ·) := by
  have hne : ¬ (opening ++ text).isEmpty := by
    intro h
    rw [List.isEmpty_iff.mp h] at hl
    cases hl
  rw [blocks?, if_neg hne, isPrefixOf?_append, Option.bind_some, hcut]
  exact if_pos hl

/-- **Blocks read back.** -/
theorem blocks?_flatMap (opening : List Char) {closing : List Char} (hm : IsMark closing)
    {bs : List (List Char)} (hbs : ∀ b ∈ bs, Printable b) :
    blocks? opening closing (bs.flatMap fun b => opening ++ b ++ closing) = some bs := by
  induction bs with
  | nil =>
    rw [List.flatMap_nil, blocks?]
    rfl
  | cons b bs ih =>
    obtain ⟨hb, hbs⟩ := List.forall_mem_cons.mp hbs
    have hpos : 0 < closing.length := by
      obtain ⟨front, c, back, rfl, -, -⟩ := hm
      rw [List.length_append, List.length_cons]
      omega
    have hcut := cutAt?_append hm hb (bs.flatMap fun b => opening ++ b ++ closing)
    rw [List.flatMap_cons, List.append_assoc, List.append_assoc, blocks?_of_cut hcut, ih hbs]
    · rfl
    · simp only [List.length_append]
      omega

/-! ### Reading a body -/

namespace Framing

/-- A body without what stands in front of its blocks; nothing stands there before the first. -/
def dropPreamble? (preamble body : List Char) : Option (List Char) :=
  if body.isEmpty then some [] else preamble.isPrefixOf? body

/-- The texts of the frames on a body, as its framing lays them out. -/
def texts? (f : Framing) (body : List Char) : Option (List (List Char)) :=
  match f with
  | .poll => blocks? [] ['\n'] body
  | .stream _ =>
    (dropPreamble? (List.replicate 2048 'h' ++ ['\n']) body).bind (blocks? [] ['\n'])
  | .callback name =>
    (blocks? (name.toList ++ ['(', '"']) ['"', ')', ';', '\r', '\n'] body).bind
      (·.mapM Script.unescape?)
  | .events _ =>
    (dropPreamble? ['\r', '\n'] body).bind
      (blocks? ['d', 'a', 't', 'a', ':', ' '] ['\r', '\n', '\r', '\n'])

/-- The messages in the frames on a body. -/
def messages? (f : Framing) (body : List Char) : Option (List String) :=
  (f.texts? body).bind fun texts => (texts.mapM Frame.read?).map List.flatten

/-- A body with these frames. -/
def layout (f : Framing) (frames : List Frame) : List Char :=
  (if frames.isEmpty then [] else f.preamble) ++ frames.flatMap fun frame => f.wrap frame.chars

theorem layout_concat (f : Framing) (frames : List Frame) (frame : Frame) :
    f.layout (frames ++ [frame]) =
      f.layout frames ++ (if frames.isEmpty then f.preamble else []) ++ f.wrap frame.chars := by
  cases frames with
  | nil => simp [layout]
  | cons frame' frames => simp [layout]

theorem wrap_ne_nil (f : Framing) (text : List Char) : f.wrap text ≠ [] := by
  cases f <;> simp [wrap]

theorem isMark_line : IsMark ['\n'] := ⟨[], '\n', [], rfl, .nil, by decide⟩

theorem isMark_event : IsMark ['\r', '\n', '\r', '\n'] := ⟨[], '\r', _, rfl, .nil, by decide⟩

theorem isMark_callback : IsMark ['"', ')', ';', '\r', '\n'] :=
  ⟨['"', ')', ';'], '\r', ['\n'], rfl, by decide, by decide⟩

/-- The preamble of a body is dropped as it was written. -/
theorem dropPreamble?_layout (f : Framing) (frames : List Frame) :
    dropPreamble? f.preamble (f.layout frames) =
      some (frames.flatMap fun frame => f.wrap frame.chars) := by
  cases frames with
  | nil => rfl
  | cons frame frames =>
    have hne : f.layout (frame :: frames) ≠ [] := by
      intro h
      obtain ⟨-, h⟩ := List.append_eq_nil_iff.mp h
      rw [List.flatMap_cons] at h
      exact f.wrap_ne_nil _ (List.append_eq_nil_iff.mp h).1
    rw [dropPreamble?, if_neg (by simpa using hne)]
    exact isPrefixOf?_append _ _

theorem blocks?_frames (opening : List Char) {closing : List Char} (hm : IsMark closing)
    (frames : List Frame) :
    blocks? opening closing (frames.flatMap fun frame => opening ++ frame.chars ++ closing) =
      some (frames.map (·.chars)) := by
  have hb : ∀ b ∈ frames.map (·.chars), Printable b := by
    intro b hb
    obtain ⟨frame, -, rfl⟩ := List.mem_map.mp hb
    exact frame.printable_chars
  rw [← blocks?_flatMap opening hm hb, List.flatMap_map]

theorem mapM_eq_some_map {α β : Type} {l : List α} {g : α → Option β} {h : α → β}
    (hg : ∀ a ∈ l, g a = some (h a)) : l.mapM g = some (l.map h) := by
  induction l with
  | nil => rfl
  | cons a l ih =>
    obtain ⟨ha, hl⟩ := List.forall_mem_cons.mp hg
    rw [List.mapM_cons, ha, ih hl]
    rfl

/-- **A body reads back** as its frames. -/
theorem texts?_layout (f : Framing) (frames : List Frame) :
    f.texts? (f.layout frames) = some (frames.map (·.chars)) := by
  have hpre := f.dropPreamble?_layout frames
  cases f with
  | poll =>
    have hl : Framing.poll.layout frames =
        frames.flatMap fun frame => [] ++ frame.chars ++ ['\n'] := by
      simp [layout, preamble, wrap]
    rw [texts?, hl, blocks?_frames [] isMark_line]
  | stream most =>
    show (dropPreamble? (Framing.stream most).preamble _).bind _ = _
    rw [hpre, Option.bind_some]
    exact blocks?_frames [] isMark_line frames
  | callback name =>
    -- the frames are escaped here, and the calls are what is cut apart
    have hl : (Framing.callback name).layout frames =
        (frames.map fun frame => Script.escapeChars frame.chars).flatMap fun b =>
          name.toList ++ ['(', '"'] ++ b ++ ['"', ')', ';', '\r', '\n'] := by
      simp [layout, preamble, wrap, List.flatMap_map]
    have hb : ∀ b ∈ frames.map fun frame => Script.escapeChars frame.chars, Printable b := by
      intro b hb
      obtain ⟨frame, -, rfl⟩ := List.mem_map.mp hb
      exact Script.printable_escapeChars frame.printable_chars
    rw [texts?, hl, blocks?_flatMap _ isMark_callback hb, Option.bind_some, List.mapM_map]
    exact mapM_eq_some_map fun frame _ => Script.unescape?_escapeChars frame.chars
  | events most =>
    show (dropPreamble? (Framing.events most).preamble _).bind _ = _
    rw [hpre, Option.bind_some]
    exact blocks?_frames _ isMark_event frames

/-- **A body reads back** as the messages in its frames. -/
theorem messages?_layout (f : Framing) (frames : List Frame) :
    f.messages? (f.layout frames) = some (frames.flatMap (·.messages)) := by
  rw [messages?, texts?_layout, Option.bind_some, List.mapM_map,
    mapM_eq_some_map fun frame _ => frame.read?_chars]
  rfl

end Framing

/-! ### Response streams -/

namespace ResponseStream

/-- The characters that wait to be read. -/
def waiting (b : ResponseStream) : List Char := b.pieces.reverse.flatten

/-- The session's end and the client's end are both there. -/
def IsOpen (b : ResponseStream) : Prop := b.writable = true ∧ b.readable = true

/-- What was taken off a stream and what waits on it are the layout of these frames. -/
structure Holds (b : ResponseStream) (off : List Char) (frames : List Frame) : Prop where
  layout : off ++ b.waiting = b.framing.layout frames
  started : b.started = !frames.isEmpty
  unread : b.readable = false → b.pieces = []

variable {b : ResponseStream} {off : List Char} {frames : List Frame}

theorem holds_new (f : Framing) : Holds { framing := f } [] [] := ⟨rfl, rfl, fun h => by cases h⟩

theorem Holds.close (h : b.Holds off frames) : b.close.Holds off frames := ⟨h.1, h.2, h.3⟩

/-- What waits is taken off as it is, be it read or lost. -/
theorem Holds.emptied (h : b.Holds off frames) {b' : ResponseStream} (hp : b'.pieces = [])
    (hf : b'.framing = b.framing) (hs : b'.started = b.started) :
    b'.Holds (off ++ b.waiting) frames := by
  have hw : b'.waiting = [] := by rw [waiting, hp]; rfl
  refine ⟨?_, hs.trans h.started, fun _ => hp⟩
  rw [hf, ← h.layout, hw, List.append_nil]

theorem start_eq (b : ResponseStream) :
    ∃ pieces, b.start = { b with started := true, pieces } := by
  simp only [start]
  split
  · rename_i h
    exact ⟨b.pieces, by rw [← h]⟩
  · split
    · exact ⟨_, rfl⟩
    · exact ⟨_, rfl⟩

theorem waiting_start (hr : b.readable = true) :
    b.start.waiting = b.waiting ++ if b.started then [] else b.framing.preamble := by
  simp only [start]
  split
  · exact (List.append_nil _).symm
  · split
    · rename_i h
      simp only [hr, Bool.not_true, Bool.or_false, List.isEmpty_iff] at h
      rw [h]
      exact (List.append_nil _).symm
    · simp [waiting, put]

/-- A frame sent on an open stream is put behind what waits; the session's end stays as long as
there is room for more. -/
theorem send_of_open (ho : b.IsOpen) (text : List Char) :
    ∃ sent writable pieces, (b.send text).1 = { b with started := true, sent, writable, pieces } ∧
      (b.send text).1.waiting = b.start.waiting ++ b.framing.wrap text ∧
      ((b.send text).2 = .more → writable = true) := by
  obtain ⟨pieces, hs⟩ := b.start_eq
  obtain ⟨hw, hr⟩ := ho
  simp only [send, hw, hs, hr]
  simp only [Bool.not_true, Bool.false_eq_true, if_false]
  split
  · exact ⟨_, true, _, rfl, by simp [waiting, put], fun _ => rfl⟩
  · refine ⟨_, false, _, rfl, by simp [waiting, put], ?_⟩
    rintro ⟨⟩

/-- **A frame that is sent on an open stream stands on it**, behind the others. -/
theorem Holds.send (h : b.Holds off frames) (ho : b.IsOpen) (frame : Frame) :
    (b.send frame.chars).1.Holds off (frames ++ [frame]) := by
  obtain ⟨sent, writable, pieces, hsend, hwait, -⟩ := send_of_open ho frame.chars
  refine ⟨?_, ?_, ?_⟩
  · rw [hwait, waiting_start ho.2, hsend, Framing.layout_concat, ← h.layout, h.started]
    cases frames with
    | nil => simp
    | cons frame' frames => simp
  · rw [hsend]
    simp
  · rw [hsend]
    intro hr
    exact absurd (ho.2.symm.trans hr) (by decide)

end ResponseStream

end Duplex
