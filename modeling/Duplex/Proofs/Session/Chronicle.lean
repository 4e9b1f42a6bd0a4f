/-
Duplex/Proofs/Session/Chronicle.lean

The history of a session with its times.

What a deed leaves in the history bears the moment of the deed, all of it
(`Stamped`, `stamped_does`).  So what is known of the order of events is known
of their times as well: the dealings of a session, each with the time at which
it happened, are its *chronicle*, and a deed at a moment goes on with the
chronicle at that time (`chronicle_of_stamped`).
-/
import Duplex.Proofs.Session.Dealings

namespace Duplex.Session

variable {C : Type}

/-! ### Stamps -/

/-- The session goes on, and what is remembered of it bears that moment. -/
def Stamped (now : Moment) (s s' : Session C) : Prop :=
  ∃ es : List Event, s'.past = es.map (now, ·) ++ s.past

variable {now : Moment} {s s' s'' : Session C}

theorem Stamped.of_past (h : s'.past = s.past) : Stamped now s s' := ⟨[], h⟩

theorem Stamped.trans (h : Stamped now s s') (h' : Stamped now s' s'') : Stamped now s s'' := by
  obtain ⟨es, h⟩ := h
  obtain ⟨es', h'⟩ := h'
  exact ⟨es' ++ es, by rw [h', h, List.map_append, List.append_assoc]⟩

/-- The same with sessions of the same history before or after. -/
theorem Stamped.congr {s₀ s₁ : Session C} (h : Stamped now s s') (h₀ : s.past = s₀.past)
    (h₁ : s₁.past = s'.past) : Stamped now s₀ s₁ := by
  obtain ⟨es, h⟩ := h
  exact ⟨es, by rw [h₁, h, h₀]⟩

theorem stamped_record (now : Moment) (e : Event) (s : Session C) :
    Stamped now s (s.record now e) := ⟨[e], rfl⟩

variable [Carrier C]

theorem stamped_hand (now : Moment) (n : Nat) (f : Frame) (s : Session C) :
    Stamped now s (s.hand now n f).1 := by
  rcases hc : s.carriers[n]? with - | c
  · exact .of_past (by simp [hand, hc])
  · rw [hand_of_some hc]
    exact ⟨[.handed n f _], rfl⟩

theorem stamped_finish (now : Moment) (n : Nat) (s : Session C) :
    Stamped now s (s.finish now n) := ⟨[.finished n], rfl⟩

theorem stamped_detach (now : Moment) (s : Session C) : Stamped now s (s.detach now) := by
  unfold detach
  split
  · exact .of_past rfl
  · rename_i n _
    exact ⟨[.detached n, .finished n], rfl⟩

theorem stamped_push (now : Moment) (f : Frame) (s : Session C) :
    Stamped now s (s.push now f) := by
  rcases ha : s.attached with - | n
  · rw [push_of_none ha]
    exact .of_past rfl
  rcases hc : s.carriers[n]? with - | c
  · have h : s.push now f = s.detach now := by simp [push, ha, hand, hc]
    rw [h]
    exact stamped_detach now s
  · rcases push_cases ha hc now f with ⟨-, h⟩ | ⟨-, h⟩
    · rw [h]
      exact ⟨[.handed n f .more], rfl⟩
    · rw [h]
      exact ⟨[.detached n, .finished n, .handed n f _], rfl⟩

theorem stamped_flush (now : Moment) (s : Session C) : Stamped now s (s.flush now) :=
  stamped_push now _ { s with outbound := [] }

theorem stamped_seat (now : Moment) (n : Nat) (s : Session C) :
    Stamped now s (s.seat now n) := by
  rcases ha : s.attached with - | m
  · exact ⟨[.attached n], by simp [seat, displace, ha, record]⟩
  · exact ⟨[.attached n, .finished m], by simp [seat, displace, ha, record, finish]⟩

theorem stamped_attach (now : Moment) (n : Nat) (s : Session C) :
    Stamped now s (s.attach now n) := by
  rcases hp : s.phase
  · rw [attach_of_fresh hp]
    exact ((stamped_seat now n s).trans (stamped_push now _ _)).trans (stamped_record now _ _)
  · rw [attach_of_live hp]
    split
    · exact (stamped_seat now n s).congr rfl rfl
    · exact (stamped_seat now n s).trans (stamped_flush now _)
  · rw [attach_of_closed hp]
    exact ((stamped_record now _ s).trans (stamped_hand now n _ _)).trans (stamped_finish now n _)

theorem stamped_write (now : Moment) (message : String) (s : Session C) :
    Stamped now s (s.write now message).1 := by
  by_cases hp : s.phase = .closed
  · rw [write_of_closed hp]
    exact .of_past rfl
  have henqueue : Stamped now s (s.enqueue now message) := ⟨[.sent message], rfl⟩
  rcases ha : s.attached with - | n
  · rw [write_of_detached hp ha]
    exact henqueue
  · rw [write_of_attached hp ha]
    exact henqueue.trans (stamped_flush now _)

theorem stamped_beat (now : Moment) (s : Session C) : Stamped now s (s.beat now) := by
  rw [beat]
  split
  · exact (stamped_push now .heartbeat s).congr rfl rfl
  · exact stamped_push now .heartbeat s

theorem stamped_shut (now : Moment) (s : Session C) : Stamped now s (s.shut now) := by
  by_cases hp : s.phase = .closed
  · rw [shut_of_closed hp]
    exact .of_past rfl
  have hended : Stamped now s (s.ended now) := ⟨[.closed], rfl⟩
  rcases ha : s.attached with - | n
  · rw [shut_of_detached hp ha]
    exact hended.congr rfl rfl
  · rw [shut_of_attached hp ha]
    exact ((hended.trans (stamped_hand now n _ _)).trans (stamped_finish now n _)).congr rfl rfl

theorem stamped_depart (now : Moment) (s : Session C) : Stamped now s (s.depart now).1 := by
  unfold depart
  split
  · exact stamped_shut now s
  · exact (stamped_shut now s).trans (stamped_record now _ _)

/-- **What a deed leaves in the history bears the moment of the deed.** -/
theorem stamped_does (now : Moment) (s : Session C) (d : Deed C) :
    Stamped now s (s.does now d) := by
  have h := change_does now s d
  generalize s.does now d = s' at h ⊢
  cases h with
  | inward ho =>
    obtain ⟨_, _, _, _, _, _, _, _, es, h, -⟩ := does_inward_eq now s ho
    rw [h]
    exact ⟨es, rfl⟩
  | idle => exact .of_past rfl
  | forget => exact .of_past rfl
  | stir n carrier => exact .of_past rfl
  | register carrier _ => exact stamped_attach now _ (s.addCarrier carrier)
  | again n _ _ => exact stamped_attach now n s
  | lose n _ _ => exact stamped_detach now s
  | beat _ => exact stamped_beat now s
  | write message _ => exact stamped_write now message s
  | depart _ => exact stamped_depart now s

/-! ### Dealings and their times -/

omit [Carrier C]

/-- All that happened to carriers and when, in order of time. -/
def chronicle (s : Session C) : List (Nat × Event) :=
  ((s.past.filter (·.2.place?.isSome)).map fun e => (e.1.time, e.2)).reverse

/-- What passes at a moment goes into the chronicle with its time. -/
theorem chronicle_of_stamped {es : List Event} (h : Stamped now s s')
    (hd : s'.dealings = s.dealings ++ es) :
    s'.chronicle = s.chronicle ++ es.map (now.time, ·) := by
  obtain ⟨new, h⟩ := h
  have hes : es = (new.filter (·.place?.isSome)).reverse := by
    have he : s'.dealings = s.dealings ++ (new.filter (·.place?.isSome)).reverse := by
      simp [dealings, h, List.map_map, Function.comp_def]
    exact List.append_cancel_left (hd.symm.trans he)
  rw [hes]
  simp [chronicle, h, List.filter_map, Function.comp_def]

end Duplex.Session
