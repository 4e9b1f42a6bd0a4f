/-
Duplex/Proofs/Session/Stages.lean

The four stages of a session.

Phase, attached carrier, clocks and queues of a session are separate fields,
but they do not vary independently.  A session that something keeps is at one
of four stages, and each stage fixes them:

* fresh, without a carrier, without clocks, with nothing to send;
* attached, with a heartbeat ahead and nothing to send;
* detached, with a deadline ahead;
* closed, without a carrier, without clocks, with nothing to send or to give.

`Staged.does` is the step: every deed ends at a stage again, whatever the
carriers answer.  The one condition is that nothing is written to a fresh
session, which is so in every run in which the application writes to its own
sockets only.  `exists_unique_stage` follows for every run.
-/
import Duplex.Proofs.World.Sockets

namespace Duplex

variable {C : Type}

/-! ### Stages -/

/-- How a session stands. -/
inductive Stage where
  | fresh
  | attached
  | detached
  | closed
  deriving DecidableEq, Repr

/-- What is so at a stage. -/
def Stage.Holds : Stage → Session C → Prop
  | .fresh, s => s.phase = .fresh ∧ s.attached = none ∧ s.nextBeat = none ∧ s.deadline = none ∧
      s.outbound = []
  | .attached, s => s.phase = .live ∧ s.attached.isSome ∧ s.nextBeat.isSome ∧ s.deadline = none ∧
      s.outbound = []
  | .detached, s => s.phase = .live ∧ s.attached = none ∧ s.nextBeat = none ∧ s.deadline.isSome
  | .closed, s => s.phase = .closed ∧ s.attached = none ∧ s.nextBeat = none ∧ s.deadline = none ∧
      s.outbound = [] ∧ s.inbound = []

namespace Session

/-- The session is at one of the stages. -/
def Staged (s : Session C) : Prop := ∃ stage : Stage, stage.Holds s

/-- The only stage at which a session can be. -/
def stage (s : Session C) : Stage :=
  match s.phase with
  | .fresh => .fresh
  | .live => if s.attached.isSome then .attached else .detached
  | .closed => .closed

theorem stage_eq_of_holds {s : Session C} {stage : Stage} (h : stage.Holds s) :
    stage = s.stage := by
  cases stage with
  | fresh => simp [Session.stage, h.1]
  | attached => simp [Session.stage, h.1, h.2.1]
  | detached => simp [Session.stage, h.1, h.2.1]
  | closed => simp [Session.stage, h.1]

/-- A session is at most at one stage. -/
theorem Staged.existsUnique {s : Session C} (h : s.Staged) : ∃! stage : Stage, stage.Holds s := by
  obtain ⟨stage, h⟩ := h
  refine ⟨stage, h, ?_⟩
  intro stage' h'
  rw [stage_eq_of_holds h', stage_eq_of_holds h]

/-! ### What the stage tells -/

theorem Staged.holds_fresh {s : Session C} (h : s.Staged) (hs : s.phase = .fresh) :
    Stage.fresh.Holds s := by
  obtain ⟨stage, h⟩ := h
  obtain rfl : stage = .fresh := by rw [stage_eq_of_holds h, Session.stage, hs]
  exact h

theorem Staged.holds_closed {s : Session C} (h : s.Staged) (hs : s.phase = .closed) :
    Stage.closed.Holds s := by
  obtain ⟨stage, h⟩ := h
  obtain rfl : stage = .closed := by rw [stage_eq_of_holds h, Session.stage, hs]
  exact h

/-- Only an open session with nothing to send has a carrier. -/
theorem Staged.holds_attached {s : Session C} (h : s.Staged) {n : Nat} (ha : s.attached = some n) :
    Stage.attached.Holds s := by
  obtain ⟨stage, h⟩ := h
  cases stage with
  | attached => exact h
  | fresh | closed => cases ha.symm.trans h.2.1
  | detached => cases ha.symm.trans h.2.1

/-- Only a session with a carrier has a heartbeat ahead. -/
theorem Staged.attached_of_nextBeat {s : Session C} (h : s.Staged) (hb : s.nextBeat.isSome) :
    ∃ n, s.attached = some n := by
  obtain ⟨stage, h⟩ := h
  cases stage with
  | attached => exact Option.isSome_iff_exists.mp h.2.1
  | fresh | closed => simp [h.2.2.1] at hb
  | detached => simp [h.2.2.1] at hb

/-! ### One deed -/

theorem IsNew.staged {s : Session C} (h : s.IsNew) : s.Staged := by
  obtain ⟨_, _, _, _, _, rfl⟩ := h
  exact ⟨.fresh, rfl, rfl, rfl, rfl, rfl⟩

/-- Where a session stands does not depend on what its carriers are. -/
theorem Staged.withCarriers {s : Session C} (hs : s.Staged) (carriers : List C) :
    ({ s with carriers } : Session C).Staged := by
  obtain ⟨stage, h⟩ := hs
  exact ⟨stage, by cases stage <;> exact h⟩

/-- What touches neither the outward side nor the inbound queue of a closed session leaves the
session at its stage. -/
theorem Staged.of_sameOutward {s s' : Session C} (hs : s.Staged) (h : SameOutward s s')
    (hi : s.phase = .closed → s'.inbound = s.inbound) : s'.Staged := by
  obtain ⟨stage, hs⟩ := hs
  refine ⟨stage, ?_⟩
  cases stage with
  | fresh => simpa [Stage.Holds, h.phase, h.attached, h.nextBeat, h.deadline, h.outbound] using hs
  | attached =>
    simpa [Stage.Holds, h.phase, h.attached, h.nextBeat, h.deadline, h.outbound] using hs
  | detached => simpa [Stage.Holds, h.phase, h.attached, h.nextBeat, h.deadline] using hs
  | closed =>
    simpa [Stage.Holds, h.phase, h.attached, h.nextBeat, h.deadline, h.outbound, hi hs.1] using hs

section Carriers

variable [Carrier C]

/-- A frame to the attached carrier: it stays and the heartbeat is ahead, or it is let go and the
deadline is ahead. -/
theorem staged_push {s : Session C} {n : Nat} (hp : s.phase = .live) (ha : s.attached = some n)
    (hn : n < s.carriers.length) (hd : s.deadline = none) (ho : s.outbound = []) (now : Moment)
    (f : Frame) : (s.push now f).Staged := by
  rcases push_cases ha (List.getElem?_eq_getElem hn) now f with ⟨-, h⟩ | ⟨-, h⟩
  · rw [h]
    exact ⟨.attached, hp, by simp [ha], rfl, hd, ho⟩
  · rw [h]
    exact ⟨.detached, hp, rfl, rfl, rfl⟩

theorem staged_flush {s : Session C} {n : Nat} (hp : s.phase = .live) (ha : s.attached = some n)
    (hn : n < s.carriers.length) (hd : s.deadline = none) (now : Moment) :
    (s.flush now).Staged :=
  staged_push (s := { s with outbound := [] }) hp ha hn hd rfl now _

theorem Staged.attach {s : Session C} (hs : s.Staged) {n : Nat} (hn : n < s.carriers.length)
    (now : Moment) : (s.attach now n).Staged := by
  obtain ⟨_, _, hseat, hl⟩ := seat_eq now n s
  have hlt : n < (s.seat now n).carriers.length := by rwa [length_carriers_seat]
  rcases hp : s.phase
  -- it opens: one frame is pushed with an empty queue
  · rw [attach_of_fresh hp]
    have ho : (s.seat now n).outbound = [] := by
      rw [outbound_seat]
      exact (hs.holds_fresh hp).2.2.2.2
    have hpush : ((s.seat now n).push now .opening).Staged :=
      staged_push (by rw [hseat]) (by rw [hseat]) hlt (by rw [hseat]) ho now _
    exact hpush.of_sameOutward (sameOutward_record rfl now _) fun _ => rfl
  -- it is open: the heartbeat is armed, or the queue is pushed and so emptied
  · rw [attach_of_live hp]
    split
    · rename_i ho
      rw [hseat]
      exact ⟨.attached, rfl, rfl, rfl, rfl, ho⟩
    · exact staged_flush (by rw [hseat]) (by rw [hseat]) hlt (by rw [hseat]) now
  -- it is over: the carrier is told on its own, and never attached
  · obtain ⟨-, ha, hb, hd, ho, hi⟩ := hs.holds_closed hp
    rw [attach_of_closed hp]
    obtain ⟨_, _, hh, -⟩ := hand_eq now n .goAway (s.record now (.attached n))
    rw [finish, hh]
    exact ⟨.closed, hp, ha, hb, hd, ho, hi⟩

omit [Carrier C] in
/-- A message that waits is in the queue of a detached session. -/
theorem Staged.enqueue {s : Session C} (hs : s.Staged) (hf : s.phase ≠ .fresh)
    (hc : s.phase ≠ .closed) (ha : s.attached = none) (now : Moment) (message : String) :
    (s.enqueue now message).Staged := by
  obtain ⟨stage, h⟩ := hs
  cases stage with
  | fresh => exact absurd h.1 hf
  | attached => simp [ha, Stage.Holds] at h
  | detached => exact ⟨.detached, h⟩
  | closed => exact absurd h.1 hc

theorem Staged.write {s : Session C} (hs : s.Staged) (hn : s.Seated) (hf : s.phase ≠ .fresh)
    (now : Moment) (message : String) : (s.write now message).1.Staged := by
  by_cases hc : s.phase = .closed
  · rwa [write_of_closed hc]
  rcases ha : s.attached with - | n
  · rw [write_of_detached hc ha]
    exact hs.enqueue hf hc ha now message
  · rw [write_of_attached hc ha]
    obtain ⟨hp, -, -, hd, -⟩ := hs.holds_attached ha
    exact staged_flush (s := s.enqueue now message) hp ha (hn n ha) hd now

theorem Staged.beat {s : Session C} (hs : s.Staged) (hn : s.Seated) (hb : s.nextBeat.isSome)
    (now : Moment) : (s.beat now).Staged := by
  obtain ⟨n, ha⟩ := hs.attached_of_nextBeat hb
  obtain ⟨hp, -, -, hd, ho⟩ := hs.holds_attached ha
  have hpush : (s.push now .heartbeat).Staged := staged_push hp ha (hn n ha) hd ho now _
  simp only [Session.beat]
  split
  -- the carrier stayed, and only the time of the next heartbeat is set again
  · rename_i ha'
    obtain ⟨m, ha'⟩ := Option.isSome_iff_exists.mp ha'
    obtain ⟨hp, ha, -, hd, ho⟩ := hpush.holds_attached ha'
    exact ⟨.attached, hp, ha, rfl, hd, ho⟩
  · exact hpush

theorem Staged.detach {s : Session C} (hs : s.Staged) (now : Moment) :
    (s.detach now).Staged := by
  unfold Session.detach
  split
  · exact hs
  · rename_i n ha
    exact ⟨.detached, (hs.holds_attached ha).1, rfl, rfl, rfl⟩

theorem Staged.depart {s : Session C} (hs : s.Staged) (now : Moment) :
    (s.depart now).1.Staged := by
  obtain ⟨hc, h⟩ | ⟨-, _, _, -, h⟩ := depart_cases now s
  · rw [h]
    exact ⟨.closed, hs.holds_closed hc⟩
  · rw [h]
    exact ⟨.closed, rfl, rfl, rfl, rfl, rfl, rfl⟩

/-- A closed session keeps its inbound queue as it is. -/
theorem inbound_does_of_closed {s : Session C} (hc : s.phase = .closed) (now : Moment)
    {d : Deed C} (hd : d.isOutward = false) : (s.does now d).inbound = s.inbound := by
  cases d with
  | receive messages => simp [does, receive, hc]
  | deliver => simp [does, deliver?, hc]
  | forget => cases hd
  | setHandler handler =>
    obtain ⟨_, _, _, h⟩ := does_setHandler_eq now s handler
    rw [h]
  | pause paused =>
    obtain ⟨_, h⟩ := does_pause_eq now s paused
    rw [h]
  | stir | register | again | lose | beat | write | depart => cases hd
  | note | finishMessage | introduce | hold | setFarewell =>
    exact (sameInward_does now s (by rfl)).inbound

/-- **Every deed ends at a stage**, whatever the carriers answer. -/
theorem Staged.does {s : Session C} (hs : s.Staged) (hn : s.Seated) (now : Moment) {d : Deed C}
    (hw : ∀ message, d = .write message → s.phase ≠ .fresh)
    (hg : (s.does now d).gone = false) : (s.does now d).Staged := by
  have h := change_does now s d
  generalize s.does now d = s' at h hg ⊢
  cases h with
  | inward ho =>
    exact hs.of_sameOutward (sameOutward_does now s ho) fun hc => inbound_does_of_closed hc now ho
  | idle => exact hs
  | forget => cases hg
  | stir n carrier => exact hs.withCarriers _
  | register carrier =>
    have hs' : (s.addCarrier carrier).Staged := hs.withCarriers _
    exact hs'.attach (by simp [addCarrier]) now
  | again n _ h => exact hs.attach h now
  | lose n => exact hs.detach now
  | beat hb => exact hs.beat hn hb now
  | write message => exact hs.write hn (hw message rfl) now message
  | depart => exact hs.depart now

/-- The session is at a stage as long as something keeps it, and silent when nothing does. -/
structure Sound (s : Session C) : Prop where
  seated : s.Seated
  staged : s.gone = false → s.Staged
  quiet : s.gone = true → s.nextBeat = none

omit [Carrier C] in
theorem IsNew.sound {s : Session C} (h : s.IsNew) : s.Sound := by
  refine ⟨h.seated, fun _ => h.staged, ?_⟩
  intro hg
  obtain ⟨_, _, _, _, _, rfl⟩ := h
  cases hg

/-- Nothing sets the clocks of a session that is gone. -/
theorem nextBeat_does_of_gone {s : Session C} (hg : s.gone = true) (hb : s.nextBeat = none)
    (now : Moment) (d : Deed C) : (s.does now d).nextBeat = none := by
  cases d with
  | stir n carrier => exact hb
  | forget => rfl
  | register | again | lose | write | depart => simpa [Session.does, hg] using hb
  | beat => simp [Session.does, hb]
  | note | finishMessage | introduce | hold | receive | pause | setHandler | deliver
  | setFarewell =>
    rw [(sameOutward_does now s (by rfl)).nextBeat]
    exact hb

theorem Sound.does {s : Session C} (hs : s.Sound) (now : Moment) {d : Deed C}
    (hw : ∀ message, d = .write message → s.phase ≠ .fresh) : (s.does now d).Sound := by
  refine ⟨hs.seated.does now d, ?_, ?_⟩
  · intro hg
    have hd : d ≠ .forget := by
      rintro rfl
      cases hg
    have hg' : s.gone = false := by rwa [gone_does now s hd] at hg
    exact (hs.staged hg').does hs.seated now hw hg
  · intro hg
    by_cases hd : d = .forget
    -- forgetting a session is what stops its clocks
    · rw [hd]
      rfl
    · have hg' : s.gone = true := by rwa [gone_does now s hd] at hg
      exact nextBeat_does_of_gone hg' (hs.quiet hg') now d

end Carriers

end Session

/-! ### Runs -/

namespace World

variable [Carrier C]

/-- In a run in which only sockets are written to, every session is sound. -/
theorem sound_of_run {ms : List (Move C)} (he : Entitled {} ms) {k : Nat} {s : Session C}
    (hs : (({} : World C).after ms).sessions[k]? = some s) : s.Sound := by
  refine session_run_of_turns (P := fun _ s => s.Sound) ?_ ?_ ms (not_fresh_of_write he k) hs
  · intro s hnew
    exact hnew.sound
  · intro _ t hw hsound
    exact hsound.does t.now hw

/-- Every turn finds its session sound. -/
theorem sound_of_turn {ms : List (Move C)} (he : Entitled {} ms) {k : Nat} {t : Session.Turn C}
    (ht : t ∈ turns k {} ms) : t.before.Sound := by
  obtain ⟨pre, m, post, hms, ht'⟩ := mem_turns.mp ht
  rw [hms] at he
  exact sound_of_run (entitled_of_append he) (mem_turnOf.mp ht').1

/-- **The stages of a session.**  After every run, with carriers of any kind and at every point at
which code of the application runs, a session that something keeps is at exactly one stage. -/
theorem exists_unique_stage {ms : List (Move C)} (he : Entitled {} ms) {k : Nat} {s : Session C}
    (hs : (({} : World C).after ms).sessions[k]? = some s) (hg : s.gone = false) :
    ∃! stage : Stage, stage.Holds s :=
  ((sound_of_run he hs).staged hg).existsUnique

theorem exists_unique_stage_greeted :
    ∃ s, (({} : World Conduit).after greeted).sessions[0]? = some s ∧ s.gone = false ∧
      ∃! stage : Stage, stage.Holds s :=
  ⟨_, rfl, rfl, exists_unique_stage (k := 0) entitled_greeted rfl rfl⟩

end World

end Duplex
