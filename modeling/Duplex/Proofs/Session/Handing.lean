/-
Duplex/Proofs/Session/Handing.lean

Which frames a deed hands over, and to whom.

`push_cases` is the one place where it matters what a carrier answers: either
it has room for more and stays, or it is finished and let go.  Everything else
about the outward operations is bookkeeping, summed up in two tables that are
read off the session before the deed and without asking any carrier:

* `Session.phaseAfter`, how far the session has come after a deed;
* `Session.hands`, the frames that a deed hands over.

`phase_does` and `handed_does` say that the tables are right, the second one
whenever the attached carrier is one that the session has.
-/
import Duplex.Proofs.Session.Deed

namespace Duplex.Session

variable {C : Type} [Carrier C]

/-! ### Handing over one frame -/

theorem hand_of_some {s : Session C} {n : Nat} {c : C} (hc : s.carriers[n]? = some c)
    (now : Moment) (f : Frame) :
    s.hand now n f =
      ({ s with carriers := s.carriers.set n (Carrier.take c f).1 }.record now
        (.handed n f (Carrier.take c f).2), (Carrier.take c f).2) := by
  simp [hand, hc]

theorem handed_hand {s : Session C} {n : Nat} (hn : n < s.carriers.length) (now : Moment)
    (f : Frame) : (s.hand now n f).1.handed = s.handed ++ [(n, f)] := by
  rw [hand_of_some (List.getElem?_eq_getElem hn), handed_record]
  rfl

/-- Handing over a frame changes nothing but the carrier and the history. -/
theorem hand_eq (now : Moment) (n : Nat) (f : Frame) (s : Session C) :
    ∃ carriers past, (s.hand now n f).1 = { s with carriers, past } ∧
      carriers.length = s.carriers.length := by
  rcases hc : s.carriers[n]? with - | c
  · exact ⟨s.carriers, s.past, by simp [hand, hc], rfl⟩
  · rw [hand_of_some hc]
    exact ⟨_, _, rfl, List.length_set⟩

theorem handed_finish (now : Moment) (n : Nat) (s : Session C) :
    (s.finish now n).handed = s.handed := handed_record_of_none rfl now _

theorem handed_detach (now : Moment) (s : Session C) : (s.detach now).handed = s.handed := by
  unfold detach
  split
  · rfl
  · rw [handed_record_of_none rfl]
    exact handed_finish now _ s

theorem handed_displace (now : Moment) (s : Session C) : (s.displace now).handed = s.handed := by
  unfold displace
  split
  · rfl
  · exact handed_finish now _ s

/-- A session without a carrier hands nothing over. -/
theorem push_of_none {s : Session C} (ha : s.attached = none) (now : Moment) (f : Frame) :
    s.push now f = s := by
  simp [push, ha]

/-- The attached carrier takes a frame and stays, or takes or refuses it and is let go. -/
theorem push_cases {s : Session C} {n : Nat} {c : C} (ha : s.attached = some n)
    (hc : s.carriers[n]? = some c) (now : Moment) (f : Frame) :
    ((Carrier.take c f).2 = .more ∧ s.push now f =
      { s with
        carriers := s.carriers.set n (Carrier.take c f).1
        nextBeat := some (s.nextBeat.getD (now.time + s.timing.period))
        past := (now, .handed n f .more) :: s.past }) ∨
    ((Carrier.take c f).2 ≠ .more ∧ s.push now f =
      { s with
        carriers := (s.carriers.set n (Carrier.take c f).1).modify n Carrier.finish
        attached := none
        nextBeat := none
        deadline := some (now.time + s.timing.grace)
        past := (now, .detached n) :: (now, .finished n) ::
          (now, .handed n f (Carrier.take c f).2) :: s.past }) := by
  rcases ht : Carrier.take c f with ⟨c', d⟩
  cases d with
  -- a carrier that takes more stays, and the clock is set if it was not
  | more =>
    refine .inl ⟨rfl, ?_⟩
    rcases hb : s.nextBeat with - | b
    · simp [push, ha, hand, hc, ht, record, armBeat, hb]
    · simp [push, ha, hand, hc, ht, record, hb]
  -- else the carrier is finished and leaves, whatever it said
  | last =>
    refine .inr ⟨by simp, ?_⟩
    simp [push, ha, hand, hc, ht, record, detach, finish]
  | refused =>
    refine .inr ⟨by simp, ?_⟩
    simp [push, ha, hand, hc, ht, record, detach, finish]

theorem handed_push {s : Session C} {n : Nat} (ha : s.attached = some n)
    (hn : n < s.carriers.length) (now : Moment) (f : Frame) :
    (s.push now f).handed = s.handed ++ [(n, f)] := by
  rcases push_cases ha (List.getElem?_eq_getElem hn) now f with ⟨-, h⟩ | ⟨-, h⟩
  · rw [h]
    simp [handed, Event.handed?]
  · rw [h]
    simp [handed, Event.handed?]

/-- Handing a frame to the attached carrier touches carriers, clocks and the history only. -/
theorem push_eq (now : Moment) (f : Frame) (s : Session C) :
    ∃ carriers attached nextBeat deadline past,
      s.push now f = { s with carriers, attached, nextBeat, deadline, past } ∧
      carriers.length = s.carriers.length ∧ (attached = s.attached ∨ attached = none) := by
  rcases ha : s.attached with - | n
  · exact ⟨_, _, _, _, _, by rw [push_of_none ha], rfl, .inl ha⟩
  rcases hc : s.carriers[n]? with - | c
  -- there is no such carrier, which counts as a refusal
  · have h : s.push now f = s.detach now := by simp [push, ha, hand, hc]
    rw [h, detach, ha]
    exact ⟨_, _, _, _, _, rfl, List.length_modify .., .inr rfl⟩
  · rcases push_cases ha hc now f with ⟨-, h⟩ | ⟨-, h⟩
    · exact ⟨_, _, _, _, _, h, List.length_set, .inl ha⟩
    · exact ⟨_, _, _, _, _, h, by simp, .inr rfl⟩

theorem handed_flush {s : Session C} {n : Nat} (ha : s.attached = some n)
    (hn : n < s.carriers.length) (now : Moment) :
    (s.flush now).handed = s.handed ++ [(n, .batch s.outbound)] :=
  handed_push (s := { s with outbound := [] }) ha hn now _

/-! ### Attaching a carrier -/

/-- The session with the carrier in place `n` attached and nothing handed to it yet. -/
def seat (now : Moment) (n : Nat) (s : Session C) : Session C :=
  { s.displace now with attached := some n, phase := .live }.record now (.attached n)

theorem displace_eq (now : Moment) (s : Session C) :
    ∃ carriers past, s.displace now =
      { s with carriers, past, attached := none, nextBeat := none, deadline := none } ∧
      carriers.length = s.carriers.length := by
  unfold displace
  split
  · exact ⟨_, _, rfl, rfl⟩
  · exact ⟨_, _, rfl, List.length_modify ..⟩

theorem seat_eq (now : Moment) (n : Nat) (s : Session C) :
    ∃ carriers past, s.seat now n =
      { s with
        carriers, past, attached := some n, nextBeat := none, deadline := none, phase := .live } ∧
      carriers.length = s.carriers.length := by
  obtain ⟨carriers, past, h, hl⟩ := displace_eq now s
  refine ⟨carriers, (now, .attached n) :: past, ?_, hl⟩
  rw [seat, h]
  rfl

theorem length_carriers_seat (now : Moment) (n : Nat) (s : Session C) :
    (s.seat now n).carriers.length = s.carriers.length := by
  obtain ⟨_, _, h, hl⟩ := seat_eq now n s
  rw [h, hl]

theorem outbound_seat (now : Moment) (n : Nat) (s : Session C) :
    (s.seat now n).outbound = s.outbound := by
  obtain ⟨_, _, h, -⟩ := seat_eq now n s
  rw [h]

theorem handed_seat (now : Moment) (n : Nat) (s : Session C) :
    (s.seat now n).handed = s.handed := by
  rw [seat, handed_record_of_none rfl]
  exact handed_displace now s

theorem attach_of_closed {s : Session C} (hs : s.phase = .closed) (now : Moment) (n : Nat) :
    s.attach now n = ((s.record now (.attached n)).hand now n .goAway).1.finish now n := by
  simp [attach, hs]

theorem attach_of_fresh {s : Session C} (hs : s.phase = .fresh) (now : Moment) (n : Nat) :
    s.attach now n = ((s.seat now n).push now .opening).record now .opened := by
  simp [attach, hs, seat]

theorem attach_of_live {s : Session C} (hs : s.phase = .live) (now : Moment) (n : Nat) :
    s.attach now n =
      if s.outbound = [] then (s.seat now n).armBeat now else (s.seat now n).flush now := by
  have ho := outbound_seat now n s
  simp only [seat] at ho
  simp [attach, hs, seat, ho]

/-- What a carrier is handed as soon as it comes. -/
def greeting (s : Session C) (n : Nat) : List (Nat × Frame) :=
  match s.phase with
  | .fresh => [(n, .opening)]
  | .live => if s.outbound = [] then [] else [(n, .batch s.outbound)]
  | .closed => [(n, .goAway)]

theorem handed_attach {s : Session C} {n : Nat} (hn : n < s.carriers.length) (now : Moment) :
    (s.attach now n).handed = s.handed ++ s.greeting n := by
  have hn' : n < (s.seat now n).carriers.length := by rwa [length_carriers_seat]
  rcases hs : s.phase
  · rw [attach_of_fresh hs, handed_record_of_none rfl, handed_push rfl hn', handed_seat, greeting,
      hs]
  -- an open session hands over its queue, or nothing when there is none
  · rw [attach_of_live hs, greeting, hs]
    split
    · rw [List.append_nil]
      exact handed_seat now n s
    · rw [handed_flush rfl hn', handed_seat, outbound_seat]
  · rw [attach_of_closed hs, handed_finish, handed_hand (s := s.record now (.attached n)) hn,
      handed_record_of_none rfl, greeting, hs]

/-- Attaching a carrier touches the outward side only. -/
theorem attach_eq (now : Moment) (n : Nat) (s : Session C) :
    ∃ phase carriers attached outbound nextBeat deadline past,
      s.attach now n =
        { s with phase, carriers, attached, outbound, nextBeat, deadline, past } ∧
      carriers.length = s.carriers.length ∧
      (attached = some n ∨ attached = none ∨ attached = s.attached) ∧
      phase = (if s.phase = .closed then .closed else .live) := by
  obtain ⟨carriers, past, h, hl⟩ := seat_eq now n s
  rcases hs : s.phase
  -- the opening frame decides whether the carrier stays
  · obtain ⟨_, _, _, _, _, hp, hl', ha⟩ := push_eq now .opening (s.seat now n)
    rw [attach_of_fresh hs, hp, h]
    rw [h] at hl' ha
    exact ⟨_, _, _, _, _, _, _, rfl, hl'.trans hl, ha.imp_right .inl, rfl⟩
  -- the queue does, if there is one
  · rw [attach_of_live hs]
    split
    · rw [h]
      exact ⟨_, _, _, _, _, _, _, rfl, hl, .inl rfl, rfl⟩
    · obtain ⟨_, _, _, _, _, hp, hl', ha⟩ :=
        push_eq now (.batch (s.seat now n).outbound) { s.seat now n with outbound := [] }
      rw [flush, hp, h]
      rw [h] at hl' ha
      exact ⟨_, _, _, _, _, _, _, rfl, hl'.trans hl, ha.imp_right .inl, rfl⟩
  -- the carrier is told to go away, and never seated
  · rw [attach_of_closed hs]
    obtain ⟨_, _, hh, hl'⟩ := hand_eq now n .goAway (s.record now (.attached n))
    rw [finish, hh]
    exact ⟨_, _, _, _, _, _, _, rfl, (List.length_modify ..).trans hl', .inr (.inr rfl), hs⟩

/-! ### The other outward operations -/

/-- Letting the attached carrier go touches the outward side only. -/
theorem detach_eq (now : Moment) (s : Session C) :
    ∃ carriers attached nextBeat deadline past,
      s.detach now = { s with carriers, attached, nextBeat, deadline, past } ∧
      carriers.length = s.carriers.length ∧ (attached = s.attached ∨ attached = none) := by
  unfold detach
  split
  · rename_i ha
    exact ⟨_, none, _, _, _, by rw [← ha], rfl, .inr rfl⟩
  · exact ⟨_, _, _, _, _, rfl, List.length_modify .., .inr rfl⟩

/-- The session with a message in its queue and nothing done about it yet. -/
def enqueue (now : Moment) (message : String) (s : Session C) : Session C :=
  { s with outbound := s.outbound ++ [message] }.record now (.sent message)

omit [Carrier C] in
theorem handed_enqueue (now : Moment) (message : String) (s : Session C) :
    (s.enqueue now message).handed = s.handed := handed_record_of_none rfl now _

theorem write_of_closed {s : Session C} (hs : s.phase = .closed) (now : Moment)
    (message : String) : s.write now message = (s, some .closed) := by
  simp [write, hs]

theorem write_of_attached {s : Session C} {n : Nat} (hs : s.phase ≠ .closed)
    (ha : s.attached = some n) (now : Moment) (message : String) :
    s.write now message = ((s.enqueue now message).flush now, none) := by
  simp [write, hs, ha, enqueue, record]

theorem write_of_detached {s : Session C} (hs : s.phase ≠ .closed) (ha : s.attached = none)
    (now : Moment) (message : String) :
    s.write now message = (s.enqueue now message, none) := by
  simp [write, hs, ha, enqueue, record]

/-- Writing a message touches the outward side only. -/
theorem write_eq (now : Moment) (message : String) (s : Session C) :
    ∃ carriers attached outbound nextBeat deadline past,
      (s.write now message).1 =
        { s with carriers, attached, outbound, nextBeat, deadline, past } ∧
      carriers.length = s.carriers.length ∧ (attached = s.attached ∨ attached = none) := by
  by_cases hs : s.phase = .closed
  · exact ⟨_, _, _, _, _, _, by rw [write_of_closed hs], rfl, .inl rfl⟩
  rcases ha : s.attached with - | n
  · rw [write_of_detached hs ha]
    exact ⟨_, _, _, _, _, _, rfl, rfl, .inl ha⟩
  · rw [write_of_attached hs ha, flush]
    obtain ⟨_, _, _, _, _, hp, hl, ha'⟩ := push_eq now (.batch (s.enqueue now message).outbound)
      { s.enqueue now message with outbound := [] }
    rw [hp]
    exact ⟨_, _, _, _, _, _, rfl, hl, ha'.imp_left (·.trans ha)⟩

/-- A heartbeat touches the outward side only. -/
theorem beat_eq (now : Moment) (s : Session C) :
    ∃ carriers attached nextBeat deadline past,
      s.beat now = { s with carriers, attached, nextBeat, deadline, past } ∧
      carriers.length = s.carriers.length ∧ (attached = s.attached ∨ attached = none) := by
  obtain ⟨_, attached, _, _, _, hp, hl, ha⟩ := push_eq now .heartbeat s
  simp only [beat, hp]
  cases attached with
  | none => exact ⟨_, _, _, _, _, rfl, hl, ha⟩
  | some n => exact ⟨_, _, _, _, _, rfl, hl, ha⟩

theorem handed_beat {s : Session C} {n : Nat} (ha : s.attached = some n)
    (hn : n < s.carriers.length) (now : Moment) :
    (s.beat now).handed = s.handed ++ [(n, .heartbeat)] := by
  rw [← handed_push ha hn now .heartbeat, beat]
  split
  · exact handed_congr rfl
  · rfl

/-! ### Closing -/

/-- The session at the moment it closes. -/
def ended (now : Moment) (s : Session C) : Session C :=
  { s with phase := .closed }.record now .closed

/-- The session without all that waits and without all that the application said to do. -/
def cleared (s : Session C) : Session C :=
  { s with
    attached := none
    outbound := []
    inbound := []
    handler := none
    farewell := none
    nextBeat := none
    deadline := none }

theorem shut_of_closed {s : Session C} (hs : s.phase = .closed) (now : Moment) :
    s.shut now = s := by
  simp [shut, hs]

theorem shut_of_detached {s : Session C} (hs : s.phase ≠ .closed) (ha : s.attached = none)
    (now : Moment) : s.shut now = (s.ended now).cleared := by
  simp [shut, hs, ended, cleared, record, ha]

theorem shut_of_attached {s : Session C} {n : Nat} (hs : s.phase ≠ .closed)
    (ha : s.attached = some n) (now : Moment) :
    s.shut now = (((s.ended now).hand now n .goAway).1.finish now n).cleared := by
  simp [shut, hs, ended, cleared, record, ha]

theorem shut_eq {s : Session C} (hs : s.phase ≠ .closed) (now : Moment) :
    ∃ carriers past, s.shut now = { s.cleared with carriers, past, phase := .closed } ∧
      carriers.length = s.carriers.length := by
  rcases ha : s.attached with - | n
  · rw [shut_of_detached hs ha]
    exact ⟨_, _, rfl, rfl⟩
  · obtain ⟨_, _, h, hl⟩ := hand_eq now n .goAway (s.ended now)
    rw [shut_of_attached hs ha, h]
    exact ⟨_, _, rfl, (List.length_modify ..).trans hl⟩

theorem handed_shut {s : Session C} (hs : s.phase ≠ .closed)
    (hn : ∀ n, s.attached = some n → n < s.carriers.length) (now : Moment) :
    (s.shut now).handed = s.handed ++ s.attached.toList.map fun n => (n, .goAway) := by
  have he : (s.ended now).handed = s.handed := handed_record_of_none rfl now _
  rcases ha : s.attached with - | n
  · rw [shut_of_detached hs ha, Option.toList_none, List.map_nil, List.append_nil]
    exact he
  · rw [shut_of_attached hs ha]
    show (((s.ended now).hand now n .goAway).1.finish now n).handed = _
    rw [handed_finish, handed_hand (s := s.ended now) (hn n ha), he]
    rfl

/-- What a session does at its end is remembered, and that is all that `depart` adds. -/
theorem depart_eq (now : Moment) (s : Session C) :
    ∃ past, (s.depart now).1 = { s.shut now with past } ∧
      (s.depart now).1.handed = (s.shut now).handed := by
  unfold depart
  split
  · exact ⟨_, rfl, rfl⟩
  · exact ⟨_, rfl, handed_record_of_none rfl now _⟩

/-- A closed session has nothing to do at its end. -/
theorem depart_of_closed {s : Session C} (hp : s.phase = .closed) (now : Moment) :
    s.depart now = (s, none) := by
  simp [depart, hp, shut_of_closed]

/-- Any other is cleared. -/
theorem depart_cases (now : Moment) (s : Session C) :
    s.phase = .closed ∧ (s.depart now).1 = s ∨
      s.phase ≠ .closed ∧ ∃ carriers past, carriers.length = s.carriers.length ∧
        (s.depart now).1 = { s.cleared with carriers, past, phase := .closed } := by
  by_cases hp : s.phase = .closed
  · exact .inl ⟨hp, by rw [depart_of_closed hp]⟩
  · obtain ⟨_, h, -⟩ := depart_eq now s
    obtain ⟨_, _, hshut, hl⟩ := shut_eq hp now
    exact .inr ⟨hp, _, _, hl, by rw [h, hshut]⟩

/-- What a session is made with, who keeps it, and the numbers it gave out are left as they are. -/
theorem does_depart_eq (now : Moment) (s : Session C) :
    ∃ phase carriers attached outbound inbound handler farewell nextBeat deadline past,
      s.does now .depart =
        { s with
          phase, carriers, attached, outbound, inbound, handler, farewell, nextBeat, deadline
          past } := by
  rw [does]
  split
  · exact ⟨_, _, _, _, _, _, _, _, _, _, rfl⟩
  · obtain ⟨-, h⟩ | ⟨-, _, _, -, h⟩ := depart_cases now s
    · exact ⟨_, _, _, _, _, _, _, _, _, _, h⟩
    · exact ⟨_, _, _, _, _, _, _, _, _, _, h⟩

/-! ### The inward side under outward deeds -/

/-- Deeds about carriers and messages out leave the rest of the session as it is, and it neither
closes nor opens again. -/
theorem does_outward_eq (now : Moment) (s : Session C) {d : Deed C} (ho : d.isOutward = true)
    (forget : d ≠ .forget) (depart : d ≠ .depart) :
    ∃ phase carriers attached outbound nextBeat deadline past,
      s.does now d = { s with phase, carriers, attached, outbound, nextBeat, deadline, past } ∧
        (phase = .closed ↔ s.phase = .closed) := by
  have h := change_does now s d
  generalize s.does now d = s' at h ⊢
  cases h with
  | idle | stir => exact ⟨_, _, _, _, _, _, _, rfl, Iff.rfl⟩
  -- a carrier that comes may open the session
  | register carrier =>
    obtain ⟨_, _, _, _, _, _, _, h, -, -, hp⟩ :=
      attach_eq now s.carriers.length (s.addCarrier carrier)
    refine ⟨_, _, _, _, _, _, _, h, ?_⟩
    show _ ↔ (s.addCarrier carrier).phase = .closed
    rw [hp]
    split <;> simp [*]
  | again n =>
    obtain ⟨_, _, _, _, _, _, _, h, -, -, hp⟩ := attach_eq now n s
    refine ⟨_, _, _, _, _, _, _, h, ?_⟩
    rw [hp]
    split <;> simp [*]
  | lose n =>
    obtain ⟨_, _, _, _, _, h, -⟩ := detach_eq now s
    exact ⟨_, _, _, _, _, _, _, h, Iff.rfl⟩
  | beat =>
    obtain ⟨_, _, _, _, _, h, -⟩ := beat_eq now s
    exact ⟨_, _, _, _, _, _, _, h, Iff.rfl⟩
  | write message =>
    obtain ⟨_, _, _, _, _, _, h, -⟩ := write_eq now message s
    exact ⟨_, _, _, _, _, _, _, h, Iff.rfl⟩
  | forget => exact absurd rfl forget
  | depart => exact absurd rfl depart
  | inward hi => cases ho.symm.trans hi

/-- Deeds that are not inward leave the inward side as it is. -/
theorem sameInward_does (now : Moment) (s : Session C) {d : Deed C} (hd : d.isInward = false) :
    SameInward s (s.does now d) := by
  rcases ho : d.isOutward with - | -
  -- neither outward nor inward: only the history, the name of the peer or the holder changes
  · cases d with
    | note entry => exact sameInward_record now _ s
    | finishMessage message => exact sameInward_record now _ s
    | introduce peer => exact ⟨rfl, Iff.rfl, rfl, rfl, rfl⟩
    | hold held => exact ⟨rfl, Iff.rfl, rfl, rfl, rfl⟩
    | setFarewell program =>
      obtain ⟨_, _, _, h⟩ := does_setFarewell_eq now s program
      rw [h]
      exact ⟨rfl, Iff.rfl, rfl, rfl, rfl⟩
    | receive | pause | setHandler | deliver => cases hd
    | _ => cases ho
  · obtain ⟨_, _, _, _, _, _, _, h, hp⟩ :=
      does_outward_eq now s ho (by rintro rfl; cases hd) (by rintro rfl; cases hd)
    rw [h]
    exact ⟨rfl, hp, rfl, rfl, rfl⟩

/-- A session is gone when it is forgotten, and then for good. -/
theorem gone_does (now : Moment) (s : Session C) {d : Deed C} (hd : d ≠ .forget) :
    (s.does now d).gone = s.gone := by
  cases d with
  | forget => exact absurd rfl hd
  | depart =>
    obtain ⟨_, _, _, _, _, _, _, _, _, _, h⟩ := does_depart_eq now s
    rw [h]
  | stir | register | again | lose | beat | write =>
    exact (sameInward_does now s (by rfl)).gone
  | note | finishMessage | introduce | hold | receive | pause | setHandler | deliver
  | setFarewell =>
    exact (sameOutward_does now s (by rfl)).gone

/-- A session that is gone does not come back. -/
theorem gone_of_does {now : Moment} {s : Session C} {d : Deed C}
    (h : (s.does now d).gone = false) : s.gone = false := by
  by_cases hd : d = .forget
  · rw [hd] at h
    cases h
  · rwa [gone_does now s hd] at h

/-- What a session was made with stays as it is. -/
theorem made_does (now : Moment) (s : Session C) (d : Deed C) :
    (s.does now d).id = s.id ∧ (s.does now d).timing = s.timing ∧
      (s.does now d).onOpen = s.onOpen := by
  rcases ho : d.isOutward with - | -
  · obtain ⟨_, _, _, _, _, _, _, _, _, h, -⟩ := does_inward_eq now s ho
    rw [h]
    exact ⟨rfl, rfl, rfl⟩
  by_cases hforget : d = .forget
  · rw [hforget]
    exact ⟨rfl, rfl, rfl⟩
  by_cases hdepart : d = .depart
  · obtain ⟨_, _, _, _, _, _, _, _, _, _, h⟩ := does_depart_eq now s
    rw [hdepart, h]
    exact ⟨rfl, rfl, rfl⟩
  · obtain ⟨_, _, _, _, _, _, _, h, -⟩ := does_outward_eq now s ho hforget hdepart
    rw [h]
    exact ⟨rfl, rfl, rfl⟩

/-! ### The attached carrier is one of the session's -/

/-- The attached carrier is one that the session has. -/
def Seated (s : Session C) : Prop := ∀ n, s.attached = some n → n < s.carriers.length

omit [Carrier C] in
theorem IsNew.seated {s : Session C} (h : s.IsNew) : s.Seated := by
  obtain ⟨_, _, _, _, _, rfl⟩ := h
  intro n hn
  cases hn

omit [Carrier C] in
/-- The attached carrier may stay or be let go, as long as none is lost from the list. -/
theorem Seated.of_attached {s s' : Session C} (hs : s.Seated)
    (hl : s'.carriers.length = s.carriers.length)
    (ha : s'.attached = s.attached ∨ s'.attached = none) : s'.Seated := by
  intro n hn
  rw [hl]
  rcases ha with ha | ha
  · exact hs n (ha ▸ hn)
  · rw [ha] at hn
    cases hn

omit [Carrier C] in
theorem Seated.of_sameOutward {s s' : Session C} (hs : s.Seated) (h : SameOutward s s') :
    s'.Seated :=
  hs.of_attached (congrArg List.length h.carriers) (.inl h.attached)

theorem Seated.attach {s : Session C} (hs : s.Seated) {n : Nat} (hn : n < s.carriers.length)
    (now : Moment) : (s.attach now n).Seated := by
  obtain ⟨_, _, attached, _, _, _, _, h, hl, ha, -⟩ := attach_eq now n s
  intro i hi
  rw [h] at hi ⊢
  show i < List.length _
  rw [hl]
  rcases ha with ha | ha | ha
  · exact (Option.some.inj (ha.symm.trans hi)) ▸ hn
  · cases ha.symm.trans hi
  · exact hs i (ha.symm.trans hi)

theorem Seated.does {s : Session C} (hs : s.Seated) (now : Moment) (d : Deed C) :
    (s.does now d).Seated := by
  have h := change_does now s d
  generalize s.does now d = s' at h ⊢
  cases h with
  | inward ho => exact hs.of_sameOutward (sameOutward_does now s ho)
  | idle | forget => exact hs
  | stir n carrier => exact hs.of_attached (List.length_set ..) (.inl rfl)
  -- the new place is the last one, and the one that is taken
  | register carrier =>
    have hl : (s.addCarrier carrier).carriers.length = s.carriers.length + 1 :=
      List.length_append
    refine Seated.attach (s := s.addCarrier carrier) ?_ (hl ▸ Nat.lt_succ_self _) now
    intro n hn
    exact hl ▸ Nat.lt_succ_of_lt (hs n hn)
  | again n _ hn => exact hs.attach hn now
  -- the rest only uses the place that is taken, or leaves it
  | lose n =>
    obtain ⟨_, _, _, _, _, h, hl, ha⟩ := detach_eq now s
    rw [h]
    exact hs.of_attached hl ha
  | beat =>
    obtain ⟨_, _, _, _, _, h, hl, ha⟩ := beat_eq now s
    rw [h]
    exact hs.of_attached hl ha
  | write message =>
    obtain ⟨_, _, _, _, _, _, h, hl, ha⟩ := write_eq now message s
    rw [h]
    exact hs.of_attached hl ha
  | depart =>
    obtain ⟨-, h⟩ | ⟨-, _, _, hl, h⟩ := depart_cases now s
    · rw [h]
      exact hs
    · rw [h]
      exact hs.of_attached hl (.inr rfl)

/-! ### The tables -/

/-- The carrier that comes with a deed, if one does. -/
def comer? (s : Session C) : Deed C → Option Nat
  | .register _ => if s.gone then none else some s.carriers.length
  | .again n => if !s.gone && n < s.carriers.length then some n else none
  | _ => none

/-- How far a session has come after a deed. -/
def phaseAfter (s : Session C) : Deed C → Phase
  | .depart => if s.gone then s.phase else .closed
  | d => if (s.comer? d).isSome && s.phase != .closed then .live else s.phase

theorem phase_attach (now : Moment) (n : Nat) (s : Session C) :
    (s.attach now n).phase = if s.phase != .closed then .live else s.phase := by
  obtain ⟨_, _, _, _, _, _, _, h, -, -, hp⟩ := attach_eq now n s
  rw [h]
  refine hp.trans ?_
  by_cases hc : s.phase = .closed
  · simp [hc]
  · simp [hc]

/-- Every deed brings a session as far as the table says. -/
theorem phase_does (now : Moment) (s : Session C) (d : Deed C) :
    (s.does now d).phase = s.phaseAfter d := by
  cases d with
  | stir n carrier => rfl
  | forget => rfl
  -- a carrier that comes opens a fresh session
  | register carrier =>
    simp only [does, phaseAfter, comer?]
    by_cases hg : s.gone = true
    · simp [hg]
    · simp [hg, phase_attach, addCarrier]
  | again n =>
    simp only [does, phaseAfter, comer?]
    split
    · simp [phase_attach]
    · simp
  -- nothing else but its end changes the phase
  | lose n =>
    simp only [does]
    split
    · obtain ⟨_, _, _, _, _, h, -⟩ := detach_eq now s
      rw [h]
      rfl
    · rfl
  | beat =>
    simp only [does]
    split
    · obtain ⟨_, _, _, _, _, h, -⟩ := beat_eq now s
      rw [h]
      rfl
    · rfl
  | write message =>
    simp only [does]
    split
    · rfl
    · obtain ⟨_, _, _, _, _, _, h, -⟩ := write_eq now message s
      rw [h]
      rfl
  | depart =>
    simp only [does, phaseAfter]
    split
    · rfl
    · obtain ⟨hc, h⟩ | ⟨-, _, _, -, h⟩ := depart_cases now s
      · rw [h]
        exact hc
      · rw [h]
  | note | finishMessage | introduce | hold | receive | pause | setHandler | deliver
  | setFarewell =>
    exact (sameOutward_does now s (by rfl)).phase

/-- A closed session stays closed. -/
theorem closed_does {s : Session C} (hs : s.phase = .closed) (now : Moment) (d : Deed C) :
    (s.does now d).phase = .closed := by
  rw [phase_does]
  cases d with
  | depart => simp [phaseAfter, hs]
  | _ => simp [phaseAfter, hs]

/-- The frames that a deed hands over, each with the carrier that is handed it. -/
def hands (s : Session C) : Deed C → List (Nat × Frame)
  | .register _ => if s.gone then [] else s.greeting s.carriers.length
  | .again n => if !s.gone && n < s.carriers.length then s.greeting n else []
  | .beat => if s.nextBeat.isSome then s.attached.toList.map fun n => (n, .heartbeat) else []
  | .write message =>
    if s.gone ∨ s.phase = .closed then []
    else s.attached.toList.map fun n => (n, .batch (s.outbound ++ [message]))
  | .depart =>
    if s.gone ∨ s.phase = .closed then [] else s.attached.toList.map fun n => (n, .goAway)
  | _ => []

omit [Carrier C] in
/-- A carrier that comes is handed its greeting, and nothing else is handed over. -/
theorem hands_of_comer {s : Session C} {d : Deed C} {n : Nat} (h : s.comer? d = some n) :
    s.hands d = s.greeting n := by
  cases d with
  | register carrier =>
    simp only [comer?] at h
    split at h
    · cases h
    · rename_i hg
      rw [hands, if_neg hg, Option.some.inj h]
  | again m =>
    simp only [comer?] at h
    split at h
    · rename_i hm
      rw [hands, if_pos hm, Option.some.inj h]
    · cases h
  | _ => cases h

omit [Carrier C] in
/-- What is handed over is the greeting of a carrier that comes, or it goes to the attached one. -/
theorem mem_hands {s : Session C} {d : Deed C} {f : Nat × Frame} (h : f ∈ s.hands d) :
    (∃ n, s.comer? d = some n ∧ f ∈ s.greeting n) ∨
    ∃ n, s.attached = some n ∧
      ((d = .beat ∧ f = (n, .heartbeat)) ∨
        (∃ message, d = .write message ∧ s.phase ≠ .closed ∧
          f = (n, .batch (s.outbound ++ [message]))) ∨
        (d = .depart ∧ s.gone = false ∧ s.phase ≠ .closed ∧ f = (n, .goAway))) := by
  rcases hc : s.comer? d with - | n
  · right
    cases d with
    -- no carrier comes, so the frame is for the one that is attached
    | register | again =>
      simp only [comer?] at hc
      simp_all [hands]
    | beat =>
      simp only [hands] at h
      split at h
      · obtain ⟨n, hn, rfl⟩ := List.mem_map.mp h
        exact ⟨n, Option.mem_toList.mp hn, .inl ⟨rfl, rfl⟩⟩
      · cases h
    | write message =>
      simp only [hands] at h
      split at h
      · cases h
      · rename_i hp
        obtain ⟨n, hn, rfl⟩ := List.mem_map.mp h
        exact ⟨n, Option.mem_toList.mp hn, .inr (.inl ⟨message, rfl, mt .inr hp, rfl⟩)⟩
    | depart =>
      simp only [hands] at h
      split at h
      · cases h
      · rename_i hp
        obtain ⟨n, hn, rfl⟩ := List.mem_map.mp h
        have hg : s.gone = false := by simpa using mt .inl hp
        exact ⟨n, Option.mem_toList.mp hn, .inr (.inr ⟨rfl, hg, mt .inr hp, rfl⟩)⟩
    | _ => cases h
  · left
    rw [hands_of_comer hc] at h
    exact ⟨n, rfl, h⟩

/-- Every deed hands over what the table says. -/
theorem handed_does {s : Session C} (hs : s.Seated) (now : Moment) (d : Deed C) :
    (s.does now d).handed = s.handed ++ s.hands d := by
  cases d with
  | stir n carrier => exact (List.append_nil _).symm
  | forget => exact (List.append_nil _).symm
  -- a carrier that comes is greeted
  | register carrier =>
    simp only [does, hands]
    split
    · exact (List.append_nil _).symm
    · exact handed_attach (s := s.addCarrier carrier) (by simp [addCarrier]) now
  | again n =>
    simp only [does, hands]
    split
    · rename_i h
      exact handed_attach (by simp at h; exact h.2) now
    · exact (List.append_nil _).symm
  -- losing the carrier hands nothing over
  | lose n =>
    simp only [does, hands]
    split
    · rw [handed_detach, List.append_nil]
    · exact (List.append_nil _).symm
  -- the others push to the attached carrier, if there is one
  | beat =>
    simp only [does, hands]
    split
    · rcases ha : s.attached with - | n
      · rw [beat, push_of_none ha, ha]
        exact (List.append_nil _).symm
      · exact handed_beat ha (hs n ha) now
    · exact (List.append_nil _).symm
  | write message =>
    simp only [does, hands]
    by_cases hg : s.gone = true
    · simp [hg]
    by_cases hc : s.phase = .closed
    · simp [hg, hc, write_of_closed]
    rcases ha : s.attached with - | n
    · simp [hg, hc, write_of_detached hc ha, handed_enqueue]
    · have h := handed_flush (s := s.enqueue now message) ha (hs n ha) now
      rw [handed_enqueue] at h
      rw [write_of_attached hc ha, if_neg hg, if_neg (by simp [hg, hc])]
      exact h
  | depart =>
    simp only [does, hands]
    obtain ⟨_, -, hd⟩ := depart_eq now s
    by_cases hg : s.gone = true
    · simp [hg]
    by_cases hc : s.phase = .closed
    · simp [hg, hc, hd, shut_of_closed]
    · simpa [hg, hc, hd] using handed_shut hc hs now
  | note | finishMessage | introduce | hold | receive | pause | setHandler | deliver
  | setFarewell =>
    exact (sameOutward_does now s (by rfl)).handed.trans (List.append_nil _).symm

end Duplex.Session
