/-
Duplex/Proofs/Session/Closed.lean

Sessions that are over.

A session that closes drops everything at once: its carrier, both queues, both
clocks, and what the application said to do (`Emptied`).  A handler may be set
again afterwards, and is kept for nothing; the rest stays away (`Spent`).  A
closed session of any run is spent (`spent_of_run`), also in runs in which the
application writes to sessions that never opened.

What can still be done to a spent session is little, and `remains_does` says
what: new carriers come, are told and are finished, and the history goes on.
-/
import Duplex.Proofs.Session.Ledger

namespace Duplex

variable {C : Type}

namespace Session

/-- Nothing is attached, nothing waits and nothing is due. -/
structure Spent (s : Session C) : Prop where
  attached : s.attached = none
  outbound : s.outbound = []
  inbound : s.inbound = []
  farewell : s.farewell = none
  nextBeat : s.nextBeat = none
  deadline : s.deadline = none

/-- Besides, no handler is kept. -/
structure Emptied (s : Session C) : Prop extends Spent s where
  handler : s.handler = none

/-- A spent session does nothing by itself. -/
theorem Spent.due? {s : Session C} (h : s.Spent) : s.due? = none := by
  simp [Session.due?, h.nextBeat, h.deadline]

/-- The same session, but for its carriers, its history, what keeps it, and what makes no difference
to it when it is over. -/
def Remains (s s' : Session C) : Prop :=
  ∃ carriers paused handler handlers farewells peer held gone past,
    s' = { s with carriers, paused, handler, handlers, farewells, peer, held, gone, past }

theorem remains_refl (s : Session C) : s.Remains s := ⟨_, _, _, _, _, _, _, _, _, rfl⟩

theorem Remains.trans {s s' s'' : Session C} (h : s.Remains s') (h' : s'.Remains s'') :
    s.Remains s'' := by
  obtain ⟨_, _, _, _, _, _, _, _, _, rfl⟩ := h
  obtain ⟨_, _, _, _, _, _, _, _, _, rfl⟩ := h'
  exact ⟨_, _, _, _, _, _, _, _, _, rfl⟩

theorem Spent.of_remains {s s' : Session C} (hs : s.Spent) (h : s.Remains s') : s'.Spent := by
  obtain ⟨_, _, _, _, _, _, _, _, _, rfl⟩ := h
  exact ⟨hs.attached, hs.outbound, hs.inbound, hs.farewell, hs.nextBeat, hs.deadline⟩

/-- A closed session keeps a handler that is set, but says nothing of it. -/
theorem setHandler_of_closed {s : Session C} (hp : s.phase = .closed) (now : Moment)
    (handler : String → Program) :
    s.setHandler now handler =
      { s with handler := some (s.handlers, handler), handlers := s.handlers + 1 } := if_pos hp

/-- A closed session does not keep a farewell that is set, but has it run. -/
theorem setFarewell_of_closed {s : Session C} (hp : s.phase = .closed) (now : Moment)
    (p : Program) : s.setFarewell now p = (s.passFarewell now, some p) := if_pos hp

variable [Carrier C]

/-- A session that closes is emptied. -/
theorem emptied_depart {s : Session C} (hp : s.phase ≠ .closed) (now : Moment) :
    (s.depart now).1.Emptied := by
  obtain ⟨hc, -⟩ | ⟨-, _, _, -, h⟩ := depart_cases now s
  · exact absurd hc hp
  · rw [h]
    exact ⟨⟨rfl, rfl, rfl, rfl, rfl, rfl⟩, rfl⟩

/-- The session with carrier `c`, in place `n`, told to go away and finished, and as it was but for
that. -/
def turnAway (now : Moment) (n : Nat) (c : C) (s : Session C) : Session C :=
  { s with
    carriers := s.carriers.set n (Carrier.finish (Carrier.take c .goAway).1)
    past := (now, .finished n) :: (now, .handed n .goAway (Carrier.take c .goAway).2) ::
      (now, .attached n) :: s.past }

/-- A closed session turns a carrier away that comes. -/
theorem attach_closed_eq {s : Session C} (hp : s.phase = .closed) {n : Nat} {c : C}
    (hc : s.carriers[n]? = some c) (now : Moment) : s.attach now n = s.turnAway now n c := by
  have hset : (s.carriers.set n (Carrier.take c .goAway).1).modify n Carrier.finish =
      s.carriers.set n (Carrier.finish (Carrier.take c .goAway).1) := by
    apply List.ext_getElem?
    intro i
    rw [List.getElem?_modify, List.getElem?_set, List.getElem?_set]
    split <;> simp [*]
  rw [attach_of_closed hp, hand_of_some (s := s.record now (.attached n)) hc]
  simp only [finish, record, hset, turnAway]

/-- **A session that is over remains what it is**, whatever is done to it. -/
theorem remains_does {s : Session C} (hp : s.phase = .closed) (hs : s.Spent) (now : Moment)
    (d : Deed C) : s.Remains (s.does now d) := by
  have same (h : s.does now d = s) : s.Remains (s.does now d) :=
    ⟨_, _, _, _, _, _, _, _, _, h⟩
  cases d with
  | note | finishMessage | introduce | hold | stir => exact ⟨_, _, _, _, _, _, _, _, _, rfl⟩
  | pause paused =>
    simp only [does]
    split
    · exact remains_refl s
    · exact ⟨_, _, _, _, _, _, _, _, _, rfl⟩
  | forget =>
    refine ⟨s.carriers, s.paused, none, s.handlers, s.farewells, s.peer, s.held, true, s.past, ?_⟩
    simp [does, forget, hs.nextBeat, hs.deadline, hs.farewell]
  -- a carrier that comes is told to go away
  | register carrier =>
    simp only [does]
    split
    · exact remains_refl s
    · have hc : (s.addCarrier carrier).carriers[s.carriers.length]? = some carrier := by
        simp [addCarrier]
      rw [attach_closed_eq (s := s.addCarrier carrier) hp hc]
      exact ⟨_, _, _, _, _, _, _, _, _, rfl⟩
  | again n =>
    simp only [does]
    split
    · rename_i h
      have hn : n < s.carriers.length := by
        simp only [Bool.and_eq_true, decide_eq_true_eq] at h
        exact h.2
      rw [attach_closed_eq hp (List.getElem?_eq_getElem hn)]
      exact ⟨_, _, _, _, _, _, _, _, _, rfl⟩
    · exact remains_refl s
  -- what is set now comes too late: a handler is kept for nothing, a farewell is not kept
  | setHandler handler =>
    simp only [does, setHandler_of_closed hp]
    split
    · exact remains_refl s
    · exact ⟨_, _, _, _, _, _, _, _, _, rfl⟩
  | setFarewell program =>
    simp only [does, setFarewell_of_closed hp, ite_self]
    exact ⟨_, _, _, _, _, _, _, _, _, rfl⟩
  -- for the rest there is nothing left to do it to
  | lose n => exact same (by simp [does, hs.attached])
  | beat => exact same (by simp [does, hs.nextBeat])
  | write message => exact same (by simp [does, write_of_closed hp])
  | receive messages => exact same (by simp [does, receive, hp])
  | deliver => exact same (by simp [does, deliver?, hp])
  | depart => exact same (by simp [does, depart_of_closed hp])

theorem Spent.does {s : Session C} (hs : s.Spent) (hp : s.phase = .closed) (now : Moment)
    (d : Deed C) : (s.does now d).Spent := hs.of_remains (remains_does hp hs now d)

/-- Only an open session closes, by the deed made for it. -/
theorem Turn.open_of_closing {t : Turn C} (hp : t.before.phase ≠ .closed)
    (hp' : t.after.phase = .closed) : t.deed = .depart ∧ t.before.isClosed = false := by
  have hd := Turn.deed_of_closing hp hp'
  refine ⟨hd, ?_⟩
  by_contra hc
  have hg : t.before.gone = true := by simpa [isClosed, hp] using hc
  rw [Turn.after, hd, does, if_pos hg] at hp'
  exact hp hp'

/-- What is left of a session that closes is what `depart` makes of it. -/
theorem Turn.after_of_closing {t : Turn C} (hp : t.before.phase ≠ .closed)
    (hp' : t.after.phase = .closed) : t.after = (t.before.depart t.now).1 := by
  obtain ⟨hd, hc⟩ := Turn.open_of_closing hp hp'
  have hg : t.before.gone = false := by simpa [isClosed, hp] using hc
  rw [Turn.after, hd, does, if_neg (by simp [hg])]

theorem Turn.emptied_of_closing {t : Turn C} (hp : t.before.phase ≠ .closed)
    (hp' : t.after.phase = .closed) : t.after.Emptied := by
  rw [Turn.after_of_closing hp hp']
  exact emptied_depart hp t.now

end Session

namespace World

open Session

variable [Carrier C]

/-- **A closed session is spent**, in every run. -/
theorem spent_of_run (ms : List (Move C)) {k : Nat} {s : Session C}
    (hs : (({} : World C).after ms).sessions[k]? = some s) (hp : s.phase = .closed) :
    s.Spent := by
  refine session_run (P := fun _ s => s.phase = .closed → s.Spent) ?_ ?_ ms hs hp
  · intro s hnew hp
    obtain ⟨_, _, _, _, _, rfl⟩ := hnew
    cases hp
  · intro _ t ih hp'
    by_cases hp : t.before.phase = .closed
    · exact (ih hp).does hp t.now t.deed
    · exact (Turn.emptied_of_closing hp hp').toSpent

end World

end Duplex
