/-
Duplex/Proofs/Session/Ledger.lean

Messages out: every message that was written is in a frame or in the queue.

The books of a session balance at every moment: the messages in the frames
that were handed over, followed by those in the queue, are the messages that
were written, in order.  One table does it (`outbound_does`): what a deed
hands over and leaves in the queue is what was there before and what it
writes.

Closing is the one deed that drops messages, and it drops exactly the queue.
From then on nothing is written and no message is handed over, so the books
of a closed session balance with the queue as it was when it closed.
-/
import Duplex.Proofs.Frame.Readback
import Duplex.Proofs.Session.Handing
import Duplex.Proofs.World.Run

namespace Duplex.Session

variable {C : Type} [Carrier C]

/-- The messages written at a turn: those that the session did not refuse. -/
def Turn.written (t : Turn C) : List String :=
  match t.deed with
  | .write message =>
    if t.before.gone = false ∧ (t.before.write t.now message).2 = none then [message] else []
  | _ => []

/-- The messages written at these turns, in order. -/
def written (ts : List (Turn C)) : List String := ts.flatMap (·.written)

/-- The messages in these frames, in order. -/
def messagesIn (fs : List (Nat × Frame)) : List String := fs.flatMap (·.2.messages)

omit [Carrier C] in
theorem messagesIn_append (fs fs' : List (Nat × Frame)) :
    messagesIn (fs ++ fs') = messagesIn fs ++ messagesIn fs' := List.flatMap_append

theorem written_concat (ts : List (Turn C)) (t : Turn C) :
    written (ts ++ [t]) = written ts ++ t.written := by
  simp [written]

/-! ### The queue under one deed -/

theorem outbound_push (now : Moment) (f : Frame) (s : Session C) :
    (s.push now f).outbound = s.outbound := by
  obtain ⟨_, _, _, _, _, h, -⟩ := push_eq now f s
  rw [h]

/-- A carrier that comes takes the queue or leaves it. -/
theorem outbound_attach (now : Moment) (n : Nat) (s : Session C) :
    messagesIn (s.greeting n) ++ (s.attach now n).outbound = s.outbound := by
  rcases hp : s.phase
  · rw [attach_of_fresh hp]
    show _ ++ ((s.seat now n).push now .opening).outbound = _
    rw [outbound_push, outbound_seat]
    simp [greeting, hp, messagesIn, Frame.messages]
  · rw [attach_of_live hp]
    split
    · rename_i ho
      show _ ++ (s.seat now n).outbound = _
      rw [outbound_seat]
      simp [greeting, hp, ho, messagesIn]
    · rename_i ho
      rw [flush, outbound_push]
      simp [greeting, hp, ho, messagesIn, Frame.messages]
  · rw [attach_of_closed hp]
    obtain ⟨_, _, hh, -⟩ := hand_eq now n .goAway (s.record now (.attached n))
    rw [finish, hh]
    simp [greeting, hp, messagesIn, Frame.messages, Frame.goAway]
    rfl

theorem written_of_write {s : Session C} (hg : s.gone = false) (hp : s.phase ≠ .closed)
    (now : Moment) (message : String) :
    Turn.written ⟨now, s, .write message⟩ = [message] := by
  have hw : (s.write now message).2 = none := by simp [write, hp]
  exact if_pos ⟨hg, hw⟩

theorem written_of_closed {t : Turn C} (hp : t.before.phase = .closed) : t.written = [] := by
  unfold Turn.written
  split
  · rw [write_of_closed hp]
    simp
  · rfl

theorem outbound_write {s : Session C} (hp : s.phase ≠ .closed) (now : Moment)
    (message : String) :
    messagesIn (s.attached.toList.map fun n => (n, .batch (s.outbound ++ [message]))) ++
      (s.write now message).1.outbound = s.outbound ++ [message] := by
  rcases ha : s.attached with - | n
  · rw [write_of_detached hp ha]
    rfl
  · rw [write_of_attached hp ha, flush, outbound_push]
    simp [messagesIn, Frame.messages]

theorem outbound_depart_of_closed {s : Session C} (hp : s.phase = .closed) (now : Moment) :
    (s.depart now).1.outbound = s.outbound := by
  obtain ⟨_, h, -⟩ := depart_eq now s
  rw [h, shut_of_closed hp]

/-- **What a deed hands over and leaves in the queue is what waited and what it writes**, unless it
closes the session. -/
theorem outbound_does (now : Moment) (s : Session C) {d : Deed C}
    (hd : d = .depart → s.isClosed = true) :
    messagesIn (s.hands d) ++ (s.does now d).outbound =
      s.outbound ++ Turn.written ⟨now, s, d⟩ := by
  cases d with
  | stir n carrier => exact (List.append_nil _).symm
  | forget => exact (List.append_nil _).symm
  -- a carrier that comes takes the queue or leaves it
  | register carrier =>
    simp only [does, hands, Turn.written, List.append_nil]
    split
    · rfl
    · exact outbound_attach now s.carriers.length (s.addCarrier carrier)
  | again n =>
    simp only [does, hands, Turn.written, List.append_nil]
    split
    · exact outbound_attach now n s
    · rfl
  -- nothing moves
  | lose n =>
    simp only [does, hands, Turn.written, List.append_nil]
    split
    · obtain ⟨_, _, _, _, _, h, -⟩ := detach_eq now s
      rw [h]
      rfl
    · rfl
  | beat =>
    simp only [does, hands, Turn.written, List.append_nil]
    split
    · obtain ⟨_, _, _, _, _, h, -⟩ := beat_eq now s
      rw [h]
      rcases s.attached with - | n
      · rfl
      · rfl
    · rfl
  -- the message goes out with the queue, or joins it
  | write message =>
    simp only [does, hands]
    rcases hg : s.gone with - | -
    · by_cases hp : s.phase = .closed
      · rw [written_of_closed (t := ⟨now, s, .write message⟩) hp, write_of_closed hp]
        simp [hp, messagesIn]
      · rw [written_of_write hg hp]
        simpa [hp] using outbound_write hp now message
    · simp [Turn.written, hg, messagesIn]
  -- it was over before
  | depart =>
    have hc := hd rfl
    rw [isClosed, Bool.or_eq_true, beq_iff_eq] at hc
    simp only [does, hands, Turn.written, List.append_nil]
    rcases hg : s.gone with - | -
    · have hp : s.phase = .closed := by simpa [hg] using hc
      simp [hp, outbound_depart_of_closed hp, messagesIn]
    · simp [messagesIn]
  | note | finishMessage | introduce | hold | receive | pause | setHandler | deliver
  | setFarewell =>
    rw [(sameOutward_does now s (by rfl)).outbound]
    exact (List.append_nil _).symm

omit [Carrier C] in
/-- A closed session hands over no messages. -/
theorem messagesIn_hands_of_closed {s : Session C} (hp : s.phase = .closed) (d : Deed C) :
    messagesIn (s.hands d) = [] := by
  apply List.flatMap_eq_nil_iff.mpr
  intro f hf
  rcases mem_hands hf with ⟨n, -, hf⟩ | ⟨n, -, ⟨-, rfl⟩ | ⟨_, -, hp', -⟩ | ⟨-, -, hp', -⟩⟩
  · simp only [greeting, hp, List.mem_singleton] at hf
    rw [hf]
    rfl
  · rfl
  · exact absurd hp hp'
  · exact absurd hp hp'

omit [Carrier C] in
/-- A session that closes hands over no messages. -/
theorem messagesIn_hands_depart (s : Session C) : messagesIn (s.hands .depart) = [] := by
  apply List.flatMap_eq_nil_iff.mpr
  intro f hf
  rcases mem_hands hf with ⟨n, hc, -⟩ | ⟨n, -, ⟨hd, -⟩ | ⟨_, hd, -⟩ | ⟨-, -, -, rfl⟩⟩
  · cases hc
  · cases hd
  · cases hd
  · rfl

/-! ### The books -/

/-- These messages, followed by the queue, are the messages written; for a closed session that is
the queue as it was when it closed. -/
structure Balanced (got : List String) (ts : List (Turn C)) (s : Session C) : Prop where
  queued : s.phase ≠ .closed → got ++ s.outbound = written ts
  dropped : s.phase = .closed → ∃ pre t post, ts = pre ++ t :: post ∧ t.before.phase ≠ .closed ∧
    t.after.phase = .closed ∧ got ++ t.before.outbound = written ts

theorem IsNew.balanced {s : Session C} (h : s.IsNew) : Balanced (messagesIn s.handed) [] s := by
  obtain ⟨_, _, _, _, _, rfl⟩ := h
  exact ⟨fun _ => rfl, fun hp => by cases hp⟩

variable {ts : List (Turn C)} {t : Turn C}

/-- Only closing makes a session closed. -/
theorem Turn.deed_of_closing (hp : t.before.phase ≠ .closed) (hp' : t.after.phase = .closed) :
    t.deed = .depart := by
  obtain ⟨now, s, d⟩ := t
  have h : s.phaseAfter d = .closed := (phase_does now s d).symm.trans hp'
  cases d with
  | depart => rfl
  | _ =>
    simp only [phaseAfter] at h
    split at h
    · cases h
    · exact absurd h hp

/-- **A turn keeps the books balanced.** -/
theorem Balanced.turn (hs : t.before.Seated)
    (h : Balanced (messagesIn t.before.handed) ts t.before) :
    Balanced (messagesIn t.after.handed) (ts ++ [t]) t.after := by
  have hh : messagesIn t.after.handed =
      messagesIn t.before.handed ++ messagesIn (t.before.hands t.deed) := by
    rw [← messagesIn_append]
    exact congrArg messagesIn (handed_does hs t.now t.deed)
  by_cases hp : t.before.phase = .closed
  -- nothing is written and no message goes out
  · have hp' : t.after.phase = .closed := closed_does hp t.now t.deed
    refine ⟨fun hn => absurd hp' hn, ?_⟩
    intro _
    obtain ⟨pre, t', post, hts, hb, ha, hbooks⟩ := h.dropped hp
    refine ⟨pre, t', post ++ [t], by rw [hts]; simp, hb, ha, ?_⟩
    rw [hh, messagesIn_hands_of_closed hp, List.append_nil, hbooks, written_concat,
      written_of_closed hp, List.append_nil]
  · have hbooks := h.queued hp
    by_cases hp' : t.after.phase = .closed
    -- this is where it closes
    · refine ⟨fun hn => absurd hp' hn, fun _ => ⟨ts, t, [], rfl, hp, hp', ?_⟩⟩
      have hd := Turn.deed_of_closing hp hp'
      have hw : t.written = [] := by simp [Turn.written, hd]
      rw [hh, hd, messagesIn_hands_depart, List.append_nil, hbooks, written_concat, hw,
        List.append_nil]
    -- it goes on, and the deed balances its own books
    · refine ⟨fun _ => ?_, fun hn => absurd hn hp'⟩
      have hd : t.deed = .depart → t.before.isClosed = true := by
        intro hd
        by_contra hc
        rw [Bool.not_eq_true, isClosed, Bool.or_eq_false_iff] at hc
        refine hp' ((phase_does t.now t.before t.deed).trans ?_)
        simp [hd, phaseAfter, hc.2]
      have hout := outbound_does t.now t.before hd
      rw [hh, List.append_assoc, written_concat, ← hbooks, List.append_assoc]
      exact congrArg (messagesIn t.before.handed ++ ·) hout

end Duplex.Session

namespace Duplex.World

open Session

variable {C : Type} [Carrier C]

/-- **The books of a session balance** after every run, with carriers of any kind. -/
theorem balanced_of_run (ms : List (Move C)) {k : Nat} {s : Session C}
    (hs : (({} : World C).after ms).sessions[k]? = some s) :
    s.Seated ∧ Balanced (messagesIn s.handed) (turns k {} ms) s := by
  refine session_run (P := fun ts s => s.Seated ∧ Balanced (messagesIn s.handed) ts s) ?_ ?_ ms hs
  · intro s hnew
    exact ⟨hnew.seated, hnew.balanced⟩
  · rintro ts t ⟨hseat, hbooks⟩
    exact ⟨hseat.does t.now t.deed, hbooks.turn hseat⟩

end Duplex.World
