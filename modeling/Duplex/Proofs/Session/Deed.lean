/-
Duplex/Proofs/Session/Deed.lean

What can be done to a session, as data.

The operations of a session are functions of many shapes: some answer, some
run only while something keeps the session, some only if a message waits.
Here each of them is a *deed*, and `Session.does` carries a deed out.  The
sessions of a world only ever change by deeds (`World.sessions_move`), so what
deeds keep, every run of a world keeps.

A deed touches one side of a session only, unless it ends it:

* the outward side are the carriers, the two clocks and the outbound queue;
* the inward side are the handler, the pause and the inbound queue.

`SameOutward` and `SameInward` say that one side is left as it was, and
`sameOutward_does` and `sameInward_does` say of which deeds that is true.

What a deed comes to outwardly is said once, by `Change` and `change_does`:
nothing, or one operation of the session, under the conditions in which it
runs.  What every operation keeps, every deed keeps by cases on its change.
-/
import Duplex.World.Clock

namespace Duplex

/-- The carrier and the frame of an event at which one was handed over. -/
def Event.handed? : Event → Option (Nat × Frame)
  | .handed n frame _ => some (n, frame)
  | _ => none

/-- The carrier to which something happens. -/
def Event.place? : Event → Option Nat
  | .attached n | .handed n _ _ | .finished n => some n
  | _ => none

theorem Event.handed?_of_place? {e : Event} (h : e.place? = none) : e.handed? = none := by
  cases e with
  | handed n frame delivery => cases h
  | _ => rfl

/-- The event is between the session and its application, or the client sent something. -/
def Event.isInward : Event → Bool
  | .received _ | .handlerSet _ | .delivered .. | .returned _ | .farewellSet _ | .farewellRun _
  | .noted _ => true
  | _ => false

theorem Event.place?_of_isInward {e : Event} (h : e.isInward = true) : e.place? = none := by
  cases e with
  | attached | handed | finished => cases h
  | _ => rfl

namespace Session

variable {C : Type}

/-! ### Deeds -/

/-- Something that is done to a session. -/
inductive Deed (C : Type) where
  | note (entry : Note)
  /-- A handler is through with a message. -/
  | finishMessage (message : String)
  | introduce (peer : Peer)
  /-- Something outside the registry begins or ceases to keep it. -/
  | hold (held : Bool)
  | forget
  /-- A carrier changes by itself. -/
  | stir (n : Nat) (carrier : C)
  | register (carrier : C)
  /-- A carrier that it had before comes again. -/
  | again (n : Nat)
  /-- It is told that the connection of a carrier went away. -/
  | lose (n : Nat)
  | beat
  | write (message : String)
  | receive (messages : List String)
  | pause (paused : Bool)
  | setHandler (handler : String → Program)
  /-- The next message goes to the application, if it may. -/
  | deliver
  | setFarewell (program : Program)
  | depart

namespace Deed

/-- The deed may touch the outward side of a session. -/
def isOutward : Deed C → Bool
  | .forget | .stir .. | .register _ | .again _ | .lose _ | .beat | .write _ | .depart => true
  | _ => false

/-- The deed may touch the inward side of a session. -/
def isInward : Deed C → Bool
  | .forget | .receive _ | .pause _ | .setHandler _ | .deliver | .depart => true
  | _ => false

end Deed

theorem isClosed_eq_false {s : Session C} :
    s.isClosed = false ↔ s.phase ≠ .closed ∧ s.gone = false := by
  simp [isClosed]

/-- A session just made: nothing has happened to it. -/
def IsNew (s : Session C) : Prop :=
  ∃ id timing onOpen peer held, s = { id, timing, onOpen, peer, held }

/-- Carries out a deed.  Most deeds come to nothing when the session is gone. -/
def does [Carrier C] (now : Moment) (s : Session C) : Deed C → Session C
  | .note entry => s.record now (.noted entry)
  | .finishMessage message => s.record now (.returned message)
  | .introduce peer => s.introduce peer
  | .hold held => { s with held := held }
  | .forget => s.forget
  | .stir n carrier => { s with carriers := s.carriers.set n carrier }
  | .register carrier =>
    if s.gone then s else (s.addCarrier carrier).attach now s.carriers.length
  | .again n => if !s.gone && n < s.carriers.length then s.attach now n else s
  | .lose n => if !s.gone && s.attached == some n then s.detach now else s
  | .beat => if s.nextBeat.isSome then s.beat now else s
  | .write message => if s.gone then s else (s.write now message).1
  | .receive messages => if s.gone then s else s.receive now messages
  | .pause paused => if s.gone then s else { s with paused := paused }
  | .setHandler handler => if s.gone then s else s.setHandler now handler
  | .deliver => if s.gone then s else ((s.deliver? now).map (·.2.2)).getD s
  | .setFarewell program => if s.gone then s.passFarewell now else (s.setFarewell now program).1
  | .depart => if s.gone then s else (s.depart now).1

/-! ### What each inward deed leaves as it is -/

section Frames

variable [Carrier C] (now : Moment) (s : Session C)

theorem does_receive_eq (messages : List String) :
    ∃ inbound past, s.does now (.receive messages) = { s with inbound, past } := by
  simp only [does, receive]
  split
  · exact ⟨_, _, rfl⟩
  · split
    · exact ⟨_, _, rfl⟩
    · exact ⟨_, _, rfl⟩

theorem does_pause_eq (paused : Bool) :
    ∃ paused', s.does now (.pause paused) = { s with paused := paused' } := by
  simp only [does]
  split
  · exact ⟨_, rfl⟩
  · exact ⟨_, rfl⟩

theorem does_setHandler_eq (handler : String → Program) :
    ∃ handler' handlers past,
      s.does now (.setHandler handler) = { s with handler := handler', handlers, past } := by
  simp only [does, setHandler]
  split
  · exact ⟨_, _, _, rfl⟩
  · split
    · exact ⟨_, _, _, rfl⟩
    · exact ⟨_, _, _, rfl⟩

theorem does_deliver_eq :
    ∃ inbound past, s.does now .deliver = { s with inbound, past } := by
  simp only [does, deliver?]
  split
  · exact ⟨_, _, rfl⟩
  · split
    · exact ⟨_, _, rfl⟩
    · split
      · exact ⟨_, _, rfl⟩
      · exact ⟨_, _, rfl⟩

theorem does_setFarewell_eq (program : Program) :
    ∃ farewell farewells past,
      s.does now (.setFarewell program) = { s with farewell, farewells, past } := by
  simp only [does, setFarewell]
  split
  · exact ⟨_, _, _, rfl⟩
  · split
    · exact ⟨_, _, _, rfl⟩
    · exact ⟨_, _, _, rfl⟩

/-- Deeds about messages in leave the rest of the session as it is. -/
theorem does_inbound_eq {d : Deed C} (hi : d.isInward = true) (ho : d.isOutward = false) :
    ∃ inbound paused handler handlers past,
      s.does now d = { s with inbound, paused, handler, handlers, past } := by
  cases d with
  | receive messages =>
    obtain ⟨_, _, h⟩ := does_receive_eq now s messages
    exact ⟨_, _, _, _, _, h⟩
  | pause paused =>
    obtain ⟨_, h⟩ := does_pause_eq now s paused
    exact ⟨_, _, _, _, _, h⟩
  | setHandler handler =>
    obtain ⟨_, _, _, h⟩ := does_setHandler_eq now s handler
    exact ⟨_, _, _, _, _, h⟩
  | deliver =>
    obtain ⟨_, _, h⟩ := does_deliver_eq now s
    exact ⟨_, _, _, _, _, h⟩
  | forget | depart => cases ho
  | _ => cases hi

end Frames

/-! ### Frames in the history -/

/-- The frames that were handed over, each with its carrier, in order of time. -/
def handed (s : Session C) : List (Nat × Frame) := (s.past.filterMap (·.2.handed?)).reverse

/-- The frames that were handed over, in order of time. -/
def frames (s : Session C) : List Frame := s.handed.map (·.2)

@[simp] theorem handed_record (now : Moment) (e : Event) (s : Session C) :
    (s.record now e).handed = s.handed ++ e.handed?.toList := by
  cases e <;> simp [handed, record, Event.handed?]

/-- An event at which nothing is handed over leaves the frames as they are. -/
theorem handed_record_of_none {e : Event} (he : e.handed? = none) (now : Moment)
    (s : Session C) : (s.record now e).handed = s.handed := by
  rw [handed_record, he, Option.toList_none, List.append_nil]

theorem handed_congr {s s' : Session C} (h : s'.past = s.past) : s'.handed = s.handed := by
  unfold handed
  rw [h]

/-! ### The two sides of a session -/

/-- The outward side is the same: phase, carriers, clocks, queue and the frames handed over. -/
structure SameOutward (s s' : Session C) : Prop where
  gone : s'.gone = s.gone
  phase : s'.phase = s.phase
  carriers : s'.carriers = s.carriers
  attached : s'.attached = s.attached
  outbound : s'.outbound = s.outbound
  nextBeat : s'.nextBeat = s.nextBeat
  deadline : s'.deadline = s.deadline
  handed : s'.handed = s.handed

/-- The inward side is the same: handler, pause and queue, and whether it is all over. -/
structure SameInward (s s' : Session C) : Prop where
  gone : s'.gone = s.gone
  closed : s'.phase = .closed ↔ s.phase = .closed
  paused : s'.paused = s.paused
  handler : s'.handler = s.handler
  inbound : s'.inbound = s.inbound

theorem SameInward.refl (s : Session C) : SameInward s s := ⟨rfl, Iff.rfl, rfl, rfl, rfl⟩

/-- Remembering something that is no frame touches nothing outward. -/
theorem sameOutward_record {e : Event} (he : e.handed? = none) (now : Moment) (s : Session C) :
    SameOutward s (s.record now e) :=
  ⟨rfl, rfl, rfl, rfl, rfl, rfl, rfl, handed_record_of_none he now s⟩

theorem sameInward_record (now : Moment) (e : Event) (s : Session C) :
    SameInward s (s.record now e) := ⟨rfl, Iff.rfl, rfl, rfl, rfl⟩

section Carriers

variable [Carrier C]

/-- Deeds that are not outward change what is on the inward side, and so is what they leave in the
history. -/
theorem does_inward_events (now : Moment) (s : Session C) {d : Deed C} (hd : d.isOutward = false) :
    ∃ inbound paused handler handlers farewell farewells peer held, ∃ es : List Event,
      s.does now d =
        { s with
          inbound, paused, handler, handlers, farewell, farewells, peer, held
          past := es.map (now, ·) ++ s.past } ∧
      ∀ e ∈ es, e.isInward = true := by
  cases d with
  | note entry => exact ⟨_, _, _, _, _, _, _, _, [.noted entry], rfl, by simp [Event.isInward]⟩
  | finishMessage message =>
    exact ⟨_, _, _, _, _, _, _, _, [.returned message], rfl, by simp [Event.isInward]⟩
  | introduce | hold => exact ⟨_, _, _, _, _, _, _, _, [], rfl, by simp⟩
  -- the others do nothing to a session that is gone
  | pause paused =>
    simp only [does]
    split
    · exact ⟨_, _, _, _, _, _, _, _, [], rfl, by simp⟩
    · exact ⟨_, _, _, _, _, _, _, _, [], rfl, by simp⟩
  | receive messages =>
    simp only [does, receive]
    split
    · exact ⟨_, _, _, _, _, _, _, _, [], rfl, by simp⟩
    · split
      · exact ⟨_, _, _, _, _, _, _, _, [], rfl, by simp⟩
      · exact ⟨_, _, _, _, _, _, _, _, [.received messages], rfl, by simp [Event.isInward]⟩
  | setHandler handler =>
    simp only [does, setHandler]
    split
    · exact ⟨_, _, _, _, _, _, _, _, [], rfl, by simp⟩
    · split
      · exact ⟨_, _, _, _, _, _, _, _, [], rfl, by simp⟩
      · exact ⟨_, _, _, _, _, _, _, _, [.handlerSet s.handlers], rfl, by simp [Event.isInward]⟩
  | deliver =>
    simp only [does, deliver?]
    split
    · exact ⟨_, _, _, _, _, _, _, _, [], rfl, by simp⟩
    · split
      · exact ⟨_, _, _, _, _, _, _, _, [], rfl, by simp⟩
      · split
        · exact ⟨_, _, _, _, _, _, _, _, [.delivered _ _], rfl, by simp [Event.isInward]⟩
        · exact ⟨_, _, _, _, _, _, _, _, [], rfl, by simp⟩
  -- a farewell that comes too late is run as it is set
  | setFarewell program =>
    have hpass : ∀ e ∈ [Event.farewellRun s.farewells, .farewellSet s.farewells],
        e.isInward = true := by simp [Event.isInward]
    simp only [does, setFarewell]
    split
    · exact ⟨_, _, _, _, _, _, _, _, _, rfl, hpass⟩
    · split
      · exact ⟨_, _, _, _, _, _, _, _, _, rfl, hpass⟩
      · exact ⟨_, _, _, _, _, _, _, _, [.farewellSet s.farewells], rfl, by simp [Event.isInward]⟩
  | forget | stir | register | again | lose | beat | write | depart => cases hd

/-- What deeds that are not outward leave in the history is not about carriers. -/
theorem does_inward_eq (now : Moment) (s : Session C) {d : Deed C} (hd : d.isOutward = false) :
    ∃ inbound paused handler handlers farewell farewells peer held, ∃ es : List Event,
      s.does now d =
        { s with
          inbound, paused, handler, handlers, farewell, farewells, peer, held
          past := es.map (now, ·) ++ s.past } ∧
      ∀ e ∈ es, e.place? = none := by
  obtain ⟨_, _, _, _, _, _, _, _, es, h, hes⟩ := does_inward_events now s hd
  exact ⟨_, _, _, _, _, _, _, _, es, h, fun e he => Event.place?_of_isInward (hes e he)⟩

/-- Deeds that are not outward leave the outward side as it is. -/
theorem sameOutward_does (now : Moment) (s : Session C) {d : Deed C} (hd : d.isOutward = false) :
    SameOutward s (s.does now d) := by
  obtain ⟨_, _, _, _, _, _, _, _, es, h, hes⟩ := does_inward_eq now s hd
  have hnil : (es.map (now, ·)).filterMap (·.2.handed?) = [] := by
    rw [List.filterMap_map]
    exact List.filterMap_eq_nil_iff.mpr fun e he => Event.handed?_of_place? (hes e he)
  rw [h]
  refine ⟨rfl, rfl, rfl, rfl, rfl, rfl, rfl, ?_⟩
  simp only [handed, List.filterMap_append, hnil, List.nil_append]

/-! ### What a deed comes to -/

/-- What a deed comes to outwardly: nothing, or one operation of the session. -/
inductive Change (now : Moment) (s : Session C) : Deed C → Session C → Prop
  | inward {d} : d.isOutward = false → Change now s d (s.does now d)
  | idle {d} : Change now s d s
  | forget : Change now s .forget s.forget
  | stir (n : Nat) (carrier : C) :
      Change now s (.stir n carrier) { s with carriers := s.carriers.set n carrier }
  | register (carrier : C) : s.gone = false →
      Change now s (.register carrier) ((s.addCarrier carrier).attach now s.carriers.length)
  | again (n : Nat) : s.gone = false → n < s.carriers.length →
      Change now s (.again n) (s.attach now n)
  | lose (n : Nat) : s.gone = false → s.attached = some n → Change now s (.lose n) (s.detach now)
  | beat : s.nextBeat.isSome → Change now s .beat (s.beat now)
  | write (message : String) : s.gone = false →
      Change now s (.write message) (s.write now message).1
  | depart : s.gone = false → Change now s .depart (s.depart now).1

/-- Every deed comes to a change. -/
theorem change_does (now : Moment) (s : Session C) (d : Deed C) :
    Change now s d (s.does now d) := by
  cases d with
  | forget => exact .forget
  | stir n carrier => exact .stir n carrier
  -- what is outward changes the session, or finds it gone and changes nothing
  | register carrier =>
    simp only [does]
    split
    · exact .idle
    · rename_i hg
      exact .register carrier (by simpa using hg)
  | again n =>
    simp only [does]
    split
    · rename_i h
      simp only [Bool.and_eq_true, Bool.not_eq_true', decide_eq_true_eq] at h
      exact .again n h.1 h.2
    · exact .idle
  | lose n =>
    simp only [does]
    split
    · rename_i h
      simp only [Bool.and_eq_true, Bool.not_eq_true', beq_iff_eq] at h
      exact .lose n h.1 h.2
    · exact .idle
  | beat =>
    simp only [does]
    split
    · rename_i hb
      exact .beat hb
    · exact .idle
  | write message =>
    simp only [does]
    split
    · exact .idle
    · rename_i hg
      exact .write message (by simpa using hg)
  | depart =>
    simp only [does]
    split
    · exact .idle
    · rename_i hg
      exact .depart (by simpa using hg)
  | note | finishMessage | introduce | hold | receive | pause | setHandler | deliver
  | setFarewell =>
    exact .inward rfl

end Carriers

end Session

end Duplex
