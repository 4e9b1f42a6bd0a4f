/-
Duplex/Proofs/Carrier/Budget.lean

What a response takes, and when it ends.

An `Exchange` is one response from the day it is opened, under any uses in any
order: the session sends texts and closes, the client reads.  Which texts are
on the body is a matter of the texts alone.  A row of texts finishes a response
when it is not empty and, on a framing with a most, comes to that many bytes as
it is laid out; the response takes the longest first part of what is sent
before the first close that no shorter part of it finishes (`IsTaken`).

The whole exchange follows from what is taken (`exchange_takes`):

    body     =  preamble ++ wrapped texts taken        (nothing, if none is)
    answers  =  more, …, more, (more | last), refused, refused, …
    ended    ↔  the texts taken finish it, or it was closed

`Stands` is the invariant: it says of an exchange which texts are on the body
and why the session may or may not write on.
-/
import Duplex.Proofs.Carrier.Body
import Mathlib.Algebra.GroupWithZero.Nat
import Mathlib.Data.List.Infix
import Mathlib.Data.List.Range

namespace Duplex

open Text (Bytes)
open Text.Utf8 (encode)

/-! ### Bytes -/

theorem Text.utf8Size_eq_length (cs : List Char) : Text.utf8Size cs = (encode cs).length := by
  suffices h : ∀ n, cs.foldl (fun n c => n + c.utf8Size) n = n + (encode cs).length by
    rw [Text.utf8Size, h, Nat.zero_add]
  induction cs with
  | nil => exact fun n => rfl
  | cons c cs ih =>
    intro n
    show cs.foldl _ (n + c.utf8Size) = n + (String.utf8EncodeChar c ++ encode cs).length
    rw [ih, List.length_append, String.length_utf8EncodeChar, Nat.add_assoc]

theorem Text.Utf8.encode_append (cs ds : List Char) :
    encode (cs ++ ds) = encode cs ++ encode ds := List.flatMap_append

/-! ### What is taken -/

namespace Framing

/-- How many bytes the texts come to as they are laid out. -/
def size (f : Framing) (texts : List (List Char)) : Nat :=
  (texts.map fun text => (encode (f.wrap text)).length).sum

/-- A response with these texts on it is finished. -/
def Finishes (f : Framing) (texts : List (List Char)) : Prop :=
  texts ≠ [] ∧
    match f with
    | .poll | .callback _ => True
    | .stream most | .events most => most ≤ f.size texts

instance (f : Framing) (texts : List (List Char)) : Decidable (f.Finishes texts) :=
  match f with
  | .poll => inferInstanceAs (Decidable (texts ≠ [] ∧ True))
  | .callback _ => inferInstanceAs (Decidable (texts ≠ [] ∧ True))
  | .stream most => inferInstanceAs (Decidable (texts ≠ [] ∧ most ≤ _))
  | .events most => inferInstanceAs (Decidable (texts ≠ [] ∧ most ≤ _))

/-- No shorter first part of the texts finishes a response. -/
def Fits (f : Framing) (texts : List (List Char)) : Prop :=
  ∀ part, part <+: texts → part.length < texts.length → ¬ f.Finishes part

/-- The longest first part of what is sent that fits. -/
structure IsTaken (f : Framing) (sent taken : List (List Char)) : Prop where
  of_sent : taken <+: sent
  fits : f.Fits taken
  longest : ∀ part, part <+: sent → f.Fits part → part.length ≤ taken.length

/-- The characters of a body with these texts. -/
def lay (f : Framing) (texts : List (List Char)) : List Char :=
  (if texts = [] then [] else f.preamble) ++ texts.flatMap f.wrap

variable {f : Framing} {sent taken texts : List (List Char)} {text : List Char}

theorem size_concat : f.size (texts ++ [text]) = f.size texts + Text.utf8Size (f.wrap text) := by
  simp [size, Text.utf8Size_eq_length]

theorem not_hasRoom_iff : f.hasRoom (f.size (texts ++ [text])) = false ↔
    f.Finishes (texts ++ [text]) := by
  cases f <;> simp [hasRoom, Finishes]

theorem lay_concat : f.lay (texts ++ [text]) =
    f.lay texts ++ (if texts = [] then f.preamble else []) ++ f.wrap text := by
  cases texts with
  | nil => simp [lay]
  | cons text' texts => simp [lay]

theorem encode_lay (f : Framing) (texts : List (List Char)) :
    encode (f.lay texts) =
      if texts = [] then [] else
        encode f.preamble ++ texts.flatMap fun text => encode (f.wrap text) := by
  have hflat : ∀ texts : List (List Char),
      encode (texts.flatMap f.wrap) = texts.flatMap fun text => encode (f.wrap text) :=
    fun texts => List.flatMap_assoc
  cases texts with
  | nil => rfl
  | cons text texts =>
    rw [lay, if_neg (List.cons_ne_nil _ _), if_neg (List.cons_ne_nil _ _),
      Text.Utf8.encode_append, hflat]

/-- What fits and does not finish a response leaves room for one more text. -/
theorem Fits.concat (h : f.Fits texts) (hf : ¬ f.Finishes texts) (text : List Char) :
    f.Fits (texts ++ [text]) := by
  intro part hpart hl
  rcases List.prefix_concat_iff.mp hpart with rfl | hpart
  · exact absurd hl (lt_irrefl _)
  rcases Nat.lt_or_ge part.length texts.length with hlt | hge
  · exact h part hpart hlt
  · rwa [hpart.eq_of_length_le hge]

theorem IsTaken.nil (f : Framing) : f.IsTaken [] [] where
  of_sent := List.prefix_rfl
  fits := fun _ _ hl => absurd hl (Nat.not_lt_zero _)
  longest := fun _ hpart _ => hpart.length_le

/-- A response that is not finished has taken everything. -/
theorem IsTaken.eq_sent (h : f.IsTaken sent taken) (hf : ¬ f.Finishes taken) : taken = sent := by
  obtain ⟨rest, rfl⟩ := h.of_sent
  cases rest with
  | nil => exact (List.append_nil taken).symm
  | cons text rest =>
    have hpart : taken ++ [text] <+: taken ++ text :: rest := ⟨rest, by simp⟩
    have hl := h.longest _ hpart (h.fits.concat hf text)
    rw [List.length_append] at hl
    exact absurd hl (Nat.not_succ_le_self _)

/-- One more text is taken while the response is not finished. -/
theorem IsTaken.more (h : f.IsTaken sent taken) (hf : ¬ f.Finishes taken) (text : List Char) :
    f.IsTaken (sent ++ [text]) (taken ++ [text]) := by
  have hall := h.eq_sent hf
  subst hall
  exact ⟨List.prefix_rfl, h.fits.concat hf text, fun _ hpart _ => hpart.length_le⟩

/-- A finished response takes nothing more. -/
theorem IsTaken.full (h : f.IsTaken sent taken) (hf : f.Finishes taken)
    (rest : List (List Char)) : f.IsTaken (sent ++ rest) taken := by
  have htaken : taken <+: sent ++ rest := h.of_sent.trans (List.prefix_append _ _)
  refine ⟨htaken, h.fits, fun part hpart hfits => ?_⟩
  by_contra hlt
  have hlt := Nat.lt_of_not_le hlt
  exact hfits taken (List.prefix_of_prefix_length_le htaken hpart hlt.le) hlt hf

/-- What is taken is settled by what is sent. -/
theorem IsTaken.unique {taken' : List (List Char)} (h : f.IsTaken sent taken)
    (h' : f.IsTaken sent taken') : taken = taken' := by
  have hle := h'.longest taken h.of_sent h.fits
  have hge := h.longest taken' h'.of_sent h'.fits
  exact (List.prefix_of_prefix_length_le h.of_sent h'.of_sent hle).eq_of_length_le hge

end Framing

/-! ### Exchanges -/

/-- A use of a response whose client stays. -/
inductive ResponseStream.Use where
  | send (text : List Char)
  | close
  | read
  deriving DecidableEq

open ResponseStream (Use)

namespace ResponseStream.Use

/-- The texts sent, before and after a close. -/
def texts : List Use → List (List Char)
  | [] => []
  | .send text :: uses => text :: texts uses
  | .close :: uses => texts uses
  | .read :: uses => texts uses

/-- The texts sent before the first close. -/
def early : List Use → List (List Char)
  | [] => []
  | .send text :: uses => text :: early uses
  | .close :: _ => []
  | .read :: uses => early uses

theorem texts_append (uses uses' : List Use) :
    texts (uses ++ uses') = texts uses ++ texts uses' := by
  induction uses with
  | nil => rfl
  | cons use uses ih => cases use <;> simp [texts, ih]

theorem early_append_of_mem {uses : List Use} (h : .close ∈ uses) (uses' : List Use) :
    early (uses ++ uses') = early uses := by
  induction uses with
  | nil => cases h
  | cons use uses ih =>
    cases use with
    | send text => exact congrArg (text :: ·) (ih (by simpa using h))
    | close => rfl
    | read => exact ih (by simpa using h)

theorem early_append_of_notMem {uses : List Use} (h : .close ∉ uses) (uses' : List Use) :
    early (uses ++ uses') = texts uses ++ early uses' := by
  induction uses with
  | nil => rfl
  | cons use uses ih =>
    have hr : .close ∉ uses := fun hm => h (List.mem_cons_of_mem use hm)
    cases use with
    | send text => exact congrArg (text :: ·) (ih hr)
    | close => exact absurd List.mem_cons_self h
    | read => exact ih hr

theorem early_of_notMem {uses : List Use} (h : .close ∉ uses) : early uses = texts uses := by
  have happ := early_append_of_notMem h []
  rwa [List.append_nil, early, List.append_nil] at happ

/-- A use that sends nothing changes nothing of what was sent. -/
theorem early_concat {use : Use} (hq : early [use] = []) (uses : List Use) :
    early (uses ++ [use]) = early uses := by
  by_cases h : .close ∈ uses
  · exact early_append_of_mem h _
  · rw [early_append_of_notMem h, hq, List.append_nil, early_of_notMem h]

theorem length_early_le (uses : List Use) : (early uses).length ≤ (texts uses).length := by
  induction uses with
  | nil => exact Nat.le_refl _
  | cons use uses ih =>
    cases use with
    | send text => exact Nat.succ_le_succ ih
    | close => exact Nat.zero_le _
    | read => exact ih

end ResponseStream.Use

/-- A response in use: the body, what the client has read of it, and what the session was told of
each text that it sent. -/
structure Exchange where
  stream : ResponseStream
  off : List Char := []
  answers : List Delivery := []

namespace Exchange

/-- The response after one more use. -/
def next (x : Exchange) : Use → Exchange
  | .send text =>
    { x with stream := (x.stream.send text).1, answers := x.answers ++ [(x.stream.send text).2] }
  | .close => { x with stream := x.stream.close }
  | .read =>
    { x with stream := x.stream.read.2
             off := x.off ++ (x.stream.read.1.map (·.1.flatten)).getD [] }

/-- The bytes of the body: what was read, and what is read next. -/
def body (x : Exchange) : Bytes := encode (x.next .read).off

/-- Whoever reads next is told that the body ends there. -/
def Ended (x : Exchange) : Prop := ∃ pieces, x.stream.read.1 = some (pieces, true)

end Exchange

/-- A fresh response under these uses. -/
def Framing.exchange (f : Framing) (uses : List Use) : Exchange :=
  uses.foldl Exchange.next { stream := { framing := f } }

/-- What is said of the text at a place among those sent. -/
def Framing.answer (f : Framing) (taken : List (List Char)) (i : Nat) : Delivery :=
  if taken.length ≤ i then .refused
  else if f.Finishes (taken.take (i + 1)) then .last
  else .more

section Answer

variable {f : Framing} {taken : List (List Char)} {text : List Char} {i : Nat}

theorem Framing.answer_concat (hi : i < taken.length) :
    f.answer (taken ++ [text]) i = f.answer taken i := by
  have hi' : ¬ (taken ++ [text]).length ≤ i := by simp; omega
  rw [answer, answer, if_neg hi', if_neg (Nat.not_le.mpr hi), List.take_append_of_le_length hi]

theorem Framing.answer_last : f.answer (taken ++ [text]) taken.length =
    if f.hasRoom (f.size (taken ++ [text])) then .more else .last := by
  have hl : (taken ++ [text]).length = taken.length + 1 := List.length_append
  rw [answer, if_neg (by omega), ← hl, List.take_length]
  by_cases hf : f.Finishes (taken ++ [text])
  · rw [if_pos hf, not_hasRoom_iff.mpr hf]
    rfl
  · have hroom : f.hasRoom (f.size (taken ++ [text])) = true := by
      rwa [← Bool.not_eq_false, not_hasRoom_iff]
    rw [if_neg hf, if_pos hroom]

/-- Only a full response answers otherwise than that there is room for more. -/
theorem Framing.IsTaken.finishes_of_answer {sent : List (List Char)} (h : f.IsTaken sent taken)
    (hi : i < sent.length) (hne : f.answer taken i ≠ .more) : f.Finishes taken := by
  by_contra hf
  have hlen : i < taken.length := h.eq_sent hf ▸ hi
  have hpart : ¬ f.Finishes (taken.take (i + 1)) := by
    rcases Nat.lt_or_ge (i + 1) taken.length with hlt | hge
    · apply h.fits _ (List.take_prefix _ _)
      rwa [List.length_take_of_le (Nat.le_of_lt hlt)]
    · rwa [List.take_of_length_le hge]
  exact hne (by rw [answer, if_neg (Nat.not_le.mpr hlen), if_neg hpart])

end Answer

theorem Framing.exchange_concat (f : Framing) (uses : List Use) (use : Use) :
    f.exchange (uses ++ [use]) = (f.exchange uses).next use := by
  rw [exchange, List.foldl_concat, exchange]

/-- What becomes of an open stream when a text is sent. -/
theorem ResponseStream.send_eq {b : ResponseStream} (ho : b.IsOpen) (text : List Char) :
    ∃ pieces, pieces.reverse.flatten = b.start.waiting ++ b.framing.wrap text ∧
      b.send text =
        let sent := b.sent + Text.utf8Size (b.framing.wrap text)
        ({ b with started := true, sent, writable := b.framing.hasRoom sent, pieces },
          if b.framing.hasRoom sent then .more else .last) := by
  obtain ⟨pieces, hs⟩ := b.start_eq
  obtain ⟨hw, hr⟩ := ho
  refine ⟨b.framing.wrap text :: pieces, by simp [hs, waiting], ?_⟩
  simp only [send, hw, hs, hr, put]
  cases b.framing.hasRoom (b.sent + Text.utf8Size (b.framing.wrap text)) <;> rfl

namespace Exchange

/-- These uses left the texts `taken` on the body. -/
structure Stands (f : Framing) (uses : List Use) (taken : List (List Char)) (x : Exchange) :
    Prop where
  framing : x.stream.framing = f
  readable : x.stream.readable = true
  takes : f.IsTaken (Use.early uses) taken
  laid : x.off ++ x.stream.waiting = f.lay taken
  started : x.stream.started = !taken.isEmpty
  sent : x.stream.sent = f.size taken
  writable : x.stream.writable = true ↔ ¬ f.Finishes taken ∧ .close ∉ uses
  answers : x.answers = (List.range (Use.texts uses).length).map (f.answer taken)

variable {f : Framing} {uses : List Use} {taken : List (List Char)} {x : Exchange}

theorem stands_fresh (f : Framing) : Stands f [] [] { stream := { framing := f } } where
  framing := rfl
  readable := rfl
  takes := .nil f
  laid := rfl
  started := rfl
  sent := rfl
  writable := ⟨fun _ => ⟨fun h => h.1 rfl, List.not_mem_nil⟩, fun _ => rfl⟩
  answers := rfl

theorem Stands.close (h : x.Stands f uses taken) :
    (x.next .close).Stands f (uses ++ [.close]) taken where
  framing := h.framing
  readable := h.readable
  takes := by
    rw [Use.early_concat rfl]
    exact h.takes
  laid := h.laid
  started := h.started
  sent := h.sent
  writable := by simp [next, ResponseStream.close]
  answers := by
    rw [Use.texts_append, Use.texts, Use.texts, List.append_nil]
    exact h.answers

theorem next_read (hr : x.stream.readable = true) :
    x.next .read =
      { x with stream := { x.stream with pieces := [] }, off := x.off ++ x.stream.waiting } := by
  simp [next, ResponseStream.read, hr, ResponseStream.waiting]

theorem Stands.read (h : x.Stands f uses taken) :
    (x.next .read).Stands f (uses ++ [.read]) taken := by
  rw [next_read h.readable]
  exact {
    framing := h.framing
    readable := h.readable
    takes := by
      rw [Use.early_concat rfl]
      exact h.takes
    laid := by
      rw [← h.laid]
      exact List.append_nil _
    started := h.started
    sent := h.sent
    writable := by simp [h.writable]
    answers := by
      rw [Use.texts_append, Use.texts, Use.texts, List.append_nil]
      exact h.answers }

/-- A text sent behind the last one taken is refused. -/
theorem Stands.send_shut (h : x.Stands f uses taken) (hw : x.stream.writable = false)
    (text : List Char) : (x.next (.send text)).Stands f (uses ++ [.send text]) taken := by
  have hnext : x.next (.send text) = { x with answers := x.answers ++ [.refused] } := by
    simp [next, ResponseStream.send, hw]
  have hle := h.takes.of_sent.length_le.trans (Use.length_early_le uses)
  rw [hnext]
  exact {
    framing := h.framing
    readable := h.readable
    takes := by
      by_cases hc : .close ∈ uses
      -- it was closed before, so this text is not among the early ones
      · rw [Use.early_append_of_mem hc]
        exact h.takes
      -- else it is full, and takes no more
      · have hf : f.Finishes taken := by
          by_contra hf
          exact absurd (h.writable.mpr ⟨hf, hc⟩) (by rw [hw]; decide)
        rw [Use.early_append_of_notMem hc, ← Use.early_of_notMem hc]
        exact h.takes.full hf [text]
    laid := h.laid
    started := h.started
    sent := h.sent
    writable := by simp [h.writable]
    answers := by
      have hlast : f.answer taken (Use.texts uses).length = .refused := if_pos hle
      rw [Use.texts_append, List.length_append]
      show x.answers ++ [.refused] = (List.range ((Use.texts uses).length + 1)).map _
      rw [List.range_succ, List.map_append, List.map_singleton, hlast, h.answers] }

/-- A text sent while the response is open is taken. -/
theorem Stands.send_open (h : x.Stands f uses taken) (hw : x.stream.writable = true)
    (text : List Char) :
    (x.next (.send text)).Stands f (uses ++ [.send text]) (taken ++ [text]) := by
  obtain ⟨hf, hc⟩ := h.writable.mp hw
  -- an open body took all that was sent
  have hall : taken = Use.texts uses := (h.takes.eq_sent hf).trans (Use.early_of_notMem hc)
  have hsize : x.stream.sent + Text.utf8Size (f.wrap text) = f.size (taken ++ [text]) := by
    rw [Framing.size_concat, h.sent]
  obtain ⟨pieces, hwait, hsend⟩ := ResponseStream.send_eq ⟨hw, h.readable⟩ text
  simp only [h.framing, hsize] at hwait hsend
  have hroom : f.hasRoom (f.size (taken ++ [text])) = false ↔ f.Finishes (taken ++ [text]) :=
    Framing.not_hasRoom_iff
  rw [next, hsend]
  exact {
    framing := rfl
    readable := h.readable
    takes := by
      rw [Use.early_append_of_notMem hc, ← Use.early_of_notMem hc]
      exact h.takes.more hf text
    laid := by
      show x.off ++ pieces.reverse.flatten = _
      rw [hwait, ResponseStream.waiting_start h.readable, Framing.lay_concat, ← h.laid, h.started,
        h.framing]
      cases taken <;> simp
    started := by simp
    sent := rfl
    writable := by
      rw [← hroom]
      simp [hc]
    answers := by
      have hlast : f.answer (taken ++ [text]) taken.length =
          if f.hasRoom (f.size (taken ++ [text])) then .more else .last := Framing.answer_last
      rw [Use.texts_append, List.length_append, ← hall]
      show x.answers ++ [_] = (List.range (taken.length + 1)).map _
      rw [List.range_succ, List.map_append, List.map_singleton, hlast, h.answers, ← hall]
      congr 1
      apply List.map_congr_left
      intro i hi
      exact (Framing.answer_concat (List.mem_range.mp hi)).symm }

/-- **Every use keeps a response standing**, on the texts it has or on one more. -/
theorem Stands.next (h : x.Stands f uses taken) (use : Use) :
    ∃ taken', (x.next use).Stands f (uses ++ [use]) taken' := by
  cases use with
  | send text =>
    cases hw : x.stream.writable with
    | true => exact ⟨_, h.send_open hw text⟩
    | false => exact ⟨_, h.send_shut hw text⟩
  | close => exact ⟨_, h.close⟩
  | read => exact ⟨_, h.read⟩

theorem stands (f : Framing) (uses : List Use) :
    ∃ taken, (f.exchange uses).Stands f uses taken := by
  induction uses using List.reverseRecOn with
  | nil => exact ⟨[], stands_fresh f⟩
  | append_singleton uses use ih =>
    obtain ⟨taken, h⟩ := ih
    rw [Framing.exchange_concat]
    exact h.next use

/-! ### What the client and the session see -/

theorem Stands.body (h : x.Stands f uses taken) : x.body = encode (f.lay taken) := by
  rw [Exchange.body, next_read h.readable, ← h.laid]

theorem Stands.ended_iff (h : x.Stands f uses taken) :
    x.Ended ↔ f.Finishes taken ∨ .close ∈ uses := by
  have hw : x.stream.writable = false ↔ f.Finishes taken ∨ .close ∈ uses := by
    rw [← Bool.not_eq_true, h.writable, not_and_or, not_not, not_not]
  rw [← hw, Ended, ResponseStream.read, if_pos h.readable]
  simp

/-- After a close, or after an answer that was not for more, the body stays as it is. -/
theorem Stands.unchanged (h : (f.exchange uses).Stands f uses taken)
    (hd : .close ∈ uses ∨ ∃ d ∈ (f.exchange uses).answers, d ≠ .more) (later : List Use) :
    (f.exchange (uses ++ later)).body = (f.exchange uses).body := by
  obtain ⟨taken', h'⟩ := stands f (uses ++ later)
  have htakes : f.IsTaken (Use.early (uses ++ later)) taken := by
    by_cases hc : .close ∈ uses
    · rw [Use.early_append_of_mem hc]
      exact h.takes
    · obtain ⟨d, hmem, hne⟩ := hd.resolve_left hc
      rw [h.answers, ← Use.early_of_notMem hc, List.mem_map] at hmem
      obtain ⟨i, hi, rfl⟩ := hmem
      have hf := h.takes.finishes_of_answer (List.mem_range.mp hi) hne
      rw [Use.early_append_of_notMem hc, ← Use.early_of_notMem hc]
      exact h.takes.full hf _
  rw [h'.body, h.body, h'.takes.unique htakes]

end Exchange

/-- **A response takes the longest first part of what is sent that fits**, and its body, the
answers, the bytes counted and the end all follow from what is taken. -/
theorem Framing.exchange_takes (f : Framing) (uses : List Use) :
    ∃ taken, f.IsTaken (Use.early uses) taken ∧
      (f.exchange uses).body =
        (if taken = [] then [] else
          encode f.preamble ++ taken.flatMap fun text => encode (f.wrap text)) ∧
      (f.exchange uses).answers = (List.range (Use.texts uses).length).map (f.answer taken) ∧
      (f.exchange uses).stream.sent = f.size taken ∧
      ((f.exchange uses).Ended ↔ f.Finishes taken ∨ .close ∈ uses) ∧
      ((.close ∈ uses ∨ ∃ d ∈ (f.exchange uses).answers, d ≠ .more) →
        ∀ later, (f.exchange (uses ++ later)).body = (f.exchange uses).body) := by
  obtain ⟨taken, h⟩ := Exchange.stands f uses
  refine ⟨taken, h.takes, ?_, h.answers, h.sent, h.ended_iff, h.unchanged⟩
  rw [h.body, encode_lay]

example : ((Framing.events 22).exchange
    [.send ['o'], .read, .send ['h'], .send ['h'], .close, .send ['h']]).answers =
      [.more, .last, .refused, .refused] := by decide

end Duplex
