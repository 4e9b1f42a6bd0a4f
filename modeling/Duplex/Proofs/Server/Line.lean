/-
Duplex/Proofs/Server/Line.lean

The session behind a message socket.

A message socket has a session of its own, with one carrier, the queue from
which the link moves frames to the wire.  While the link is open the two are
*joined* (`Joined`): every frame that the session ever handed over is on the
wire or waits in the queue, in order, and the queue takes more exactly while
the session is not closed.  The last frame of a closed session tells the client
to go away.

Whatever is done to such a session by its application or its clocks leaves it
joined (`Joined.does`): a queue takes every frame, so nothing but its own end
parts a session from it.
-/
import Duplex.Proofs.Session.Clocks
import Duplex.Server.Link

namespace Duplex

/-- The frame in a message on the wire, if it holds one. -/
def WireMessage.frame? : WireMessage → Option (List Char)
  | .text frame => some frame
  | _ => none

/-- The frames that were put on the wire, in order. -/
def Link.sent (l : Link) : List (List Char) := l.wire.reverse.filterMap (·.frame?)

theorem Link.sent_put (l : Link) (m : WireMessage) :
    (l.put m).sent = l.sent ++ m.frame?.toList := by
  rcases h : m.frame? with - | f
  · simp [sent, put, h]
  · simp [sent, put, h]

/-- The link when these frames were moved to the wire. -/
def Link.flushed (l : Link) (frames : List (List Char)) : Link :=
  { l with wire := frames.foldl (fun wire frame => .text frame :: wire) l.wire }

theorem Link.sent_flushed (l : Link) (frames : List (List Char)) :
    (l.flushed frames).sent = l.sent ++ frames := by
  induction frames generalizing l with
  | nil => exact (List.append_nil _).symm
  | cons f frames ih =>
    have h := ih (l.put (.text f))
    rw [sent_put] at h
    exact h.trans (List.append_assoc _ _ _)

theorem Link.close_mem_flushed (l : Link) (frames : List (List Char)) :
    .close ∈ (l.flushed frames).wire ↔ .close ∈ l.wire := by
  simp [flushed]

namespace Session

/-- The deed is for a carrier that comes or goes, or for the one who keeps the session. -/
def Deed.isForeign {C : Type} : Deed C → Bool
  | .hold _ | .forget | .stir .. | .register _ | .again _ | .lose _ => true
  | _ => false

/-- Only one deed is about who keeps a session. -/
theorem held_does {C : Type} [Carrier C] (now : Moment) (s : Session C) {d : Deed C}
    (hd : ∀ held, d ≠ .hold held) : (s.does now d).held = s.held := by
  rcases ho : d.isOutward with - | -
  · cases d with
    | note | finishMessage | introduce => rfl
    | hold held => exact absurd rfl (hd held)
    | receive | pause | setHandler | deliver =>
      obtain ⟨_, _, _, _, _, h⟩ := does_inbound_eq now s rfl ho
      rw [h]
    | setFarewell program =>
      obtain ⟨_, _, _, h⟩ := does_setFarewell_eq now s program
      rw [h]
    | _ => cases ho
  by_cases hforget : d = .forget
  · rw [hforget]
    rfl
  by_cases hdepart : d = .depart
  · obtain ⟨_, _, _, _, _, _, _, _, _, _, h⟩ := does_depart_eq now s
    rw [hdepart, h]
  · obtain ⟨_, _, _, _, _, _, _, h, -⟩ := does_outward_eq now s ho hforget hdepart
    rw [h]

/-! ### Joined -/

/-- The session with its open link and the queue between them. -/
structure Joined (l : Link) (q : MessageQueue) (s : Session Conduit) : Prop where
  carriers : s.carriers = [.queue q]
  readable : q.readable = true
  connected : q.ended = false
  writable : q.writable = true ↔ s.phase ≠ .closed
  attached : s.phase ≠ .closed → s.attached = some 0
  opened : s.phase ≠ .fresh
  told : l.sent ++ q.waiting = s.frames.map (·.chars)
  last : s.phase = .closed → s.frames.getLast? = some .goAway
  held : s.held = true
  gone : s.gone = false

variable {l : Link} {q : MessageQueue} {s s' : Session Conduit} {now : Moment}

/-- The same session as far as its carrier is concerned. -/
theorem Joined.of_same (h : s.Joined l q) (carriers : s'.carriers = s.carriers)
    (attached : s'.attached = s.attached) (phase : s'.phase = s.phase)
    (handed : s'.handed = s.handed) (held : s'.held = s.held) (gone : s'.gone = s.gone) :
    s'.Joined l q where
  carriers := carriers.trans h.carriers
  readable := h.readable
  connected := h.connected
  writable := phase ▸ h.writable
  attached := by
    rw [phase, attached]
    exact h.attached
  opened := phase ▸ h.opened
  told := by
    rw [frames, handed]
    exact h.told
  last := by
    rw [phase, frames, handed]
    exact h.last
  held := held.trans h.held
  gone := gone.trans h.gone

/-- A queue at which nobody has left takes every frame. -/
theorem take_queue (hw : q.writable = true) (hr : q.readable = true) (f : Frame) :
    Carrier.take (Conduit.queue q) f =
      (.queue { q with waiting := q.waiting ++ [f.chars] }, .more) := by
  simp [Carrier.take, MessageQueue.send, hw, hr]

theorem finish_queue (q : MessageQueue) :
    Carrier.finish (Conduit.queue q) = .queue { q with writable := false } := rfl

theorem Joined.carrier (h : s.Joined l q) : s.carriers[0]? = some (.queue q) := by
  rw [h.carriers]
  rfl

/-- A frame that is pushed waits in the queue. -/
theorem Joined.push (h : s.Joined l q) (hp : s.phase ≠ .closed) (now : Moment) (f : Frame) :
    (s.push now f).Joined l { q with waiting := q.waiting ++ [f.chars] } := by
  have ha := h.attached hp
  have htake := take_queue (h.writable.mpr hp) h.readable f
  have hhanded := handed_push ha (by rw [h.carriers]; exact Nat.one_pos) now f
  rcases push_cases ha h.carrier now f with ⟨-, he⟩ | ⟨hn, -⟩
  · have hframes : (s.push now f).frames = s.frames ++ [f] := by
      rw [frames, hhanded, List.map_append]
      rfl
    refine ⟨?carriers, h.readable, h.connected, ?writable, ?attached, ?opened, ?told, ?last, ?held,
      ?gone⟩
    case carriers =>
      rw [he, htake]
      simp [h.carriers]
    case writable =>
      rw [he]
      exact h.writable
    case attached =>
      rw [he]
      exact h.attached
    case opened =>
      rw [he]
      exact h.opened
    case told =>
      rw [hframes, List.map_append, ← h.told, List.append_assoc]
      rfl
    case last =>
      rw [he]
      exact fun hc => absurd hc hp
    case held =>
      rw [he]
      exact h.held
    case gone =>
      rw [he]
      exact h.gone
  -- an open queue refuses nothing
  · rw [htake] at hn
    exact absurd rfl hn

/-- A session that closes says so in the queue and takes its hand off it. -/
theorem Joined.shut (h : s.Joined l q) (hp : s.phase ≠ .closed) (now : Moment) :
    (s.shut now).Joined l
      { q with waiting := q.waiting ++ [Frame.goAway.chars], writable := false } := by
  have ha := h.attached hp
  have htake := take_queue (h.writable.mpr hp) h.readable .goAway
  have hframes : (s.shut now).frames = s.frames ++ [.goAway] := by
    rw [frames, handed_shut hp (fun n hn => ?_) now, ha, List.map_append]
    · rfl
    · rw [ha] at hn
      rw [h.carriers, ← Option.some.inj hn]
      exact Nat.one_pos
  have hphase : (s.shut now).phase = .closed := by
    obtain ⟨_, _, he, -⟩ := shut_eq hp now
    rw [he]
  refine ⟨?carriers, h.readable, h.connected, ?writable, fun hn => absurd hphase hn, ?opened, ?told,
    fun _ => ?last, ?held, ?gone⟩
  case carriers =>
    rw [shut_of_attached hp ha, hand_of_some (s := s.ended now) h.carrier, htake]
    simp [cleared, finish, record, ended, h.carriers, finish_queue]
  case writable =>
    simp [hphase]
  case opened =>
    rw [hphase]
    decide
  case told =>
    rw [hframes, List.map_append, ← h.told, List.append_assoc]
    rfl
  case last =>
    rw [hframes]
    exact List.getLast?_concat
  case held =>
    obtain ⟨_, _, he, -⟩ := shut_eq hp now
    rw [he]
    exact h.held
  case gone =>
    obtain ⟨_, _, he, -⟩ := shut_eq hp now
    rw [he]
    exact h.gone

/-- **The session stays joined** with its link, whatever its application and its clocks do. -/
theorem Joined.does (h : s.Joined l q) (hs : s.Wound) (now : Moment) {d : Deed Conduit}
    (hd : d.isForeign = false) : ∃ q', (s.does now d).Joined l q' := by
  have hheld : (s.does now d).held = s.held := held_does now s fun held he => by
    rw [he] at hd
    cases hd
  have hc := change_does now s d
  generalize s.does now d = s' at hc hheld ⊢
  cases hc with
  | inward ho =>
    have hsame := sameOutward_does now s ho
    exact ⟨q, h.of_same hsame.carriers hsame.attached hsame.phase hsame.handed hheld hsame.gone⟩
  | idle => exact ⟨q, h⟩
  -- a beat is a push, and so is a write to an open session
  | beat hb =>
    have hp : s.phase ≠ .closed := fun hp => by
      have ha := hs.beating hb
      rw [hs.closed hp] at ha
      cases ha
    obtain ⟨q', hpush⟩ : ∃ q', (s.push now .heartbeat).Joined l q' :=
      ⟨_, h.push hp now .heartbeat⟩
    suffices hbeat : (s.beat now).Joined l q' from ⟨q', hbeat⟩
    refine hpush.of_same ?_ ?_ ?_ ?_ ?_ ?_
    all_goals
      rw [beat]
      split
      · rfl
      · rfl
  | write message _ =>
    by_cases hp : s.phase = .closed
    · rw [write_of_closed hp]
      exact ⟨q, h⟩
    · rw [write_of_attached hp (h.attached hp)]
      have henqueue : Joined l q { s.enqueue now message with outbound := [] } :=
        h.of_same rfl rfl rfl (handed_enqueue now message s) rfl rfl
      exact ⟨_, henqueue.push hp now _⟩
  -- a session that departs sends its farewell and shuts the queue
  | depart _ =>
    by_cases hp : s.phase = .closed
    · rw [depart_of_closed hp]
      exact ⟨q, h⟩
    · obtain ⟨_, he, hhanded⟩ := depart_eq now s
      refine ⟨_, (h.shut hp now).of_same ?_ ?_ ?_ hhanded ?_ ?_⟩
      all_goals rw [he]
  | forget | stir | register | again | lose => cases hd

end Session

end Duplex
