/-
Duplex/Proofs/World/Run.lean

Runs of a world: moves, one after another, from the empty world.

A *move* is anything that may happen to a world: its next task is done, time
passes, a carrier comes, changes or loses its connection, a client says
something, a clock runs out, application code is called.  Moves come in any
order and at any time, also while tasks are waiting, so whatever holds after
every run holds at every point at which a handler of the application runs.

`sessions_move` says what a move does to the sessions: it does one deed to one
of them, or makes a new one.  `Move.deed?` tells which deed, from the tasks
alone.  The *turns* of a session in a run are the deeds that were done to it,
each with the session as it was before; `session_run` is the induction over
turns that every property of a session in a run goes through, and
`session_run_of_turns` the same where something is known of every turn.

Runs are not another machine beside the world's own clock: what `settle` does
is a run (`exists_settle_eq_after`), and one that forgets no session that is
kept (`Mindful`).
-/
import Duplex.Proofs.Session.Deed
import Duplex.World.Shutdown
import Mathlib.Data.List.Induction

namespace Duplex

open Session (Deed)

variable {C : Type}

/-! ### Moves -/

/-- Something that may happen to a world. -/
inductive Move (C : Type) where
  | next
  | pass (time : Nat)
  | step
  /-- Application code is called from outside. -/
  | call (program : Program)
  /-- A session is made, and entered in the registry or not. -/
  | make (id : String) (timing : Timing) (onOpen : Nat → Program) (peer : Option Peer)
    (held entered : Bool)
  /-- Something outside the registry begins or ceases to keep a session. -/
  | hold (k : Nat) (held : Bool)
  | introduce (k : Nat) (peer : Peer)
  | register (k : Nat) (carrier : C)
  /-- A carrier that the session had before comes again. -/
  | again (k n : Nat)
  /-- A carrier changes by itself. -/
  | stir (k n : Nat) (carrier : C)
  /-- The connection of a carrier is found to have gone away. -/
  | lose (k n : Nat)
  | feed (k : Nat) (payload : String)
  | close (k : Nat)
  | elapse (k : Nat)
  | closeAll
  | shutdown
  | forget (k : Nat)

/-! ### Which deed a move does -/

/-- The session that the first action of a program touches, and the deed done to it. -/
def Program.deed? : Program → Option (Nat × Deed C)
  | .note k entry _ => some (k, .note entry)
  | .write k message _ => some (k, .write message)
  | .onMessage k handler _ => some (k, .setHandler handler)
  | .onClose k handler _ => some (k, .setFarewell handler)
  | .pause k _ => some (k, .pause true)
  | .resume k _ => some (k, .pause false)
  | .feed k payload _ => (Payload.messages? payload).map fun messages => (k, .receive messages)
  | .done | .close .. | .look .. => none

/-- The session that a task touches, and the deed done to it. -/
def Task.deed? : Task → Option (Nat × Deed C)
  | .act program => program.deed?
  | .drain k => some (k, .deliver)
  | .returned k message => some (k, .finishMessage message)
  | .close k => some (k, .depart)

/-- The session that a move touches while these tasks wait, and the deed done to it. -/
def Move.deed? (tasks : List Task) : Move C → Option (Nat × Deed C)
  | .step => tasks.head?.bind Task.deed?
  | .hold k held => some (k, .hold held)
  | .introduce k peer => some (k, .introduce peer)
  | .register k carrier => some (k, .register carrier)
  | .again k n => some (k, .again n)
  | .stir k n carrier => some (k, .stir n carrier)
  | .lose k n => some (k, .lose n)
  | .feed k payload => (Payload.messages? payload).map fun messages => (k, .receive messages)
  | .elapse k => some (k, .beat)
  | .forget k => some (k, .forget)
  | .next | .pass _ | .call _ | .make .. | .close _ | .closeAll | .shutdown => none

/-- A step does the deed of the task on top. -/
theorem Move.deed?_step {tasks : List Task} {k : Nat} {d : Deed C} :
    Move.deed? tasks .step = some (k, d) ↔
      ∃ t rest, tasks = t :: rest ∧ t.deed? = some (k, d) := by
  cases tasks with
  | nil => simp [Move.deed?]
  | cons t rest =>
    constructor
    · intro h
      exact ⟨t, rest, rfl, h⟩
    · rintro ⟨t', rest', he, h⟩
      obtain ⟨rfl, -⟩ := List.cons.inj he
      exact h

/-- The move makes a session. -/
def Move.isMaking : Move C → Bool
  | .make .. => true
  | _ => false

/-- The deed is only done by a task. -/
def Session.Deed.isTask : Deed C → Bool
  | .note _ | .finishMessage _ | .write _ | .pause _ | .setHandler _ | .deliver | .setFarewell _
  | .depart => true
  | _ => false

/-- Such a deed is done by a step, with the task for it on top. -/
theorem Move.step_of_isTask {tasks : List Task} {m : Move C} {k : Nat} {d : Deed C}
    (hm : m.deed? tasks = some (k, d)) (hd : d.isTask = true) :
    m = .step ∧ ∃ t rest, tasks = t :: rest ∧ t.deed? = some (k, d) := by
  cases m with
  | step => exact ⟨rfl, Move.deed?_step.mp hm⟩
  | feed j payload =>
    obtain ⟨messages, -, he⟩ := Option.map_eq_some_iff.mp hm
    cases he
    cases hd
  | hold | introduce | register | again | stir | lose | elapse | forget =>
    cases hm
    cases hd
  | next | pass | call | make | close | closeAll | shutdown => cases hm

namespace World

section Sessions

/-- Changes the session that a deed is for, if there is one. -/
def doneTo [Carrier C] (w : World C) (deed : Option (Nat × Deed C)) : List (Session C) :=
  match deed with
  | none => w.sessions
  | some (k, d) => w.sessions.modify k (·.does w.now d)

@[simp] theorem sessions_push (w : World C) (t : Task) : (w.push t).sessions = w.sessions := rfl

@[simp] theorem sessions_act (w : World C) (p : Program) : (w.act p).sessions = w.sessions := rfl

@[simp] theorem sessions_actIf (w : World C) (p : Option Program) :
    (w.actIf p).sessions = w.sessions := by
  cases p <;> rfl

@[simp] theorem sessions_unregister (w : World C) (k : Nat) :
    (w.unregister k).sessions = w.sessions := rfl

@[simp] theorem sessions_modify (w : World C) (k : Nat) (f : Session C → Session C) :
    (w.modify k f).sessions = w.sessions.modify k f := rfl

theorem live?_eq_some {w : World C} {k : Nat} {s : Session C} :
    w.live? k = some s ↔ w.sessions[k]? = some s ∧ s.gone = false := by
  simp [live?, Option.filter_eq_some_iff]

theorem live?_eq_none {w : World C} {k : Nat} :
    w.live? k = none ↔ ∀ s, w.sessions[k]? = some s → s.gone = true := by
  simp [live?, Option.filter_eq_none_iff]

/-- A session that is there is found, unless it is gone. -/
theorem live?_cases {w : World C} {k : Nat} {s : Session C} (hs : w.sessions[k]? = some s) :
    w.live? k = none ∨ w.live? k = some s := by
  rcases hl : w.live? k with - | s'
  · exact .inl rfl
  · obtain rfl := Option.some.inj (hs.symm.trans (live?_eq_some.mp hl).1)
    exact .inr rfl

/-- Changes that agree on the session in place `k` come to the same. -/
theorem modify_congr {l : List (Session C)} {k : Nat} {f g : Session C → Session C}
    (h : ∀ s, l[k]? = some s → f s = g s) : l.modify k f = l.modify k g := by
  apply List.ext_getElem?
  intro j
  rw [List.getElem?_modify, List.getElem?_modify]
  by_cases hk : k = j
  · subst hk
    rcases hs : l[k]? with - | s
    · rfl
    · simp [h s hs]
  · simp [hk]

theorem modify_congr_of_some {l : List (Session C)} {k : Nat} {s : Session C}
    (hk : l[k]? = some s) {f g : Session C → Session C} (h : f s = g s) :
    l.modify k f = l.modify k g := by
  apply modify_congr
  intro s' hs'
  obtain rfl := Option.some.inj (hk.symm.trans hs')
  exact h

/-- A change that leaves the session as it is does nothing. -/
theorem modify_eq_of_fixed {l : List (Session C)} {k : Nat} {f : Session C → Session C}
    (h : ∀ s, l[k]? = some s → f s = s) : l.modify k f = l :=
  (modify_congr h).trans (List.modify_id k l)

theorem modify_eq_of_fixed_some {l : List (Session C)} {k : Nat} {s : Session C}
    (hk : l[k]? = some s) {f : Session C → Session C} (h : f s = s) : l.modify k f = l :=
  (modify_congr_of_some hk h).trans (List.modify_id k l)

/-- What a change keeps of every session is kept when one is changed. -/
theorem forall_modify {Q : Session C → Prop} {f : Session C → Session C} {l : List (Session C)}
    (kept : ∀ s, Q s → Q (f s)) (h : ∀ s ∈ l, Q s) (k : Nat) : ∀ s ∈ l.modify k f, Q s := by
  intro s hs
  obtain ⟨i, hi⟩ := List.mem_iff_getElem?.mp hs
  rw [List.getElem?_modify] at hi
  obtain ⟨s₀, hs₀, rfl⟩ := Option.map_eq_some_iff.mp hi
  have hold := h s₀ (List.mem_of_getElem? hs₀)
  split
  · exact kept s₀ hold
  · exact hold

end Sessions

variable [Carrier C]

/-! ### What each operation does to the sessions -/

omit [Carrier C] in
/-- An operation that asks for the session first does nothing when it is gone. -/
theorem sessions_of_live {w w' : World C} {k : Nat} {f : Session C → Session C}
    (none : w.live? k = none → w'.sessions = w.sessions)
    (some : ∀ s, w.live? k = some s → w'.sessions = w.sessions.modify k f) :
    w'.sessions = w.sessions.modify k fun s => if s.gone then s else f s := by
  rcases h : w.live? k with - | s
  -- the session is gone or was never there
  · rw [none h]
    refine (modify_eq_of_fixed ?_).symm
    intro s hs
    rw [if_pos (live?_eq_none.mp h s hs)]
  -- `live?` found the session in place `k`, so both changes start from it
  · rw [some s h]
    obtain ⟨hk, hg⟩ := live?_eq_some.mp h
    apply modify_congr_of_some hk
    rw [hg, if_neg (by decide)]

theorem sessions_attach (w : World C) (k n : Nat) :
    (w.attach k n).sessions =
      w.sessions.modify k fun s => if s.gone then s else s.attach w.now n := by
  apply sessions_of_live
  · intro h
    simp [attach, h]
  · intro s h
    simp only [attach, h]
    split <;> rfl

theorem sessions_register (w : World C) (k : Nat) (c : C) :
    (w.register k c).sessions = w.doneTo (some (k, .register c)) := by
  apply sessions_of_live
  · intro h
    simp [register, h]
  · intro s h
    obtain ⟨hk, hg⟩ := live?_eq_some.mp h
    simp only [register, h, sessions_attach, sessions_modify, List.modify_modify_eq]
    apply modify_congr_of_some hk
    exact if_neg (by simp [Session.addCarrier, hg])

theorem sessions_close (w : World C) (k : Nat) :
    (w.close k).sessions = w.doneTo (some (k, .depart)) := by
  apply sessions_of_live
  · intro h
    simp [close, h]
  · intro s h
    obtain ⟨hk, -⟩ := live?_eq_some.mp h
    by_cases hp : s.phase = .closed
    -- a closed session is left alone, which is what `depart` comes to there
    · simp only [close, h, if_pos hp]
      exact (modify_eq_of_fixed_some hk (by simp [Session.depart, Session.shut, hp])).symm
    · simp only [close, h, if_neg hp, sessions_actIf, sessions_unregister, sessions_modify]
      apply modify_congr_of_some hk
      rfl

theorem sessions_drain (w : World C) (k : Nat) :
    (w.drain k).sessions = w.doneTo (some (k, .deliver)) := by
  apply sessions_of_live
  · intro h
    simp [drain, h]
  · intro s h
    obtain ⟨hk, -⟩ := live?_eq_some.mp h
    rcases hd : s.deliver? w.now with - | ⟨message, p, s'⟩
    · simp only [drain, h, Option.bind_some, hd]
      refine (modify_eq_of_fixed_some hk ?_).symm
      rw [hd]
      rfl
    · simp only [drain, h, Option.bind_some, hd, sessions_act, sessions_push, sessions_modify]
      apply modify_congr_of_some hk
      rw [hd]
      rfl

theorem sessions_elapse (w : World C) (k : Nat) :
    (w.elapse k).sessions = w.doneTo (some (k, .beat)) := by
  rcases hb : (w.sessions[k]?).bind (·.nextBeat) with - | t
  · simp only [elapse, hb, sessions_push]
    refine (modify_eq_of_fixed ?_).symm
    intro s hs
    rw [hs, Option.bind_some] at hb
    simp [Session.does, hb]
  · simp only [elapse, hb, sessions_modify]
    apply modify_congr
    intro s hs
    rw [hs, Option.bind_some] at hb
    simp [Session.does, hb]

/-- A payload is taken in by a session that something keeps. -/
theorem sessions_receive (w : World C) {k : Nat} {s : Session C} (h : w.live? k = some s)
    (messages : Option (List String)) :
    (w.receive k messages).sessions = w.doneTo (messages.map fun ms => (k, .receive ms)) := by
  cases messages with
  | none => rfl
  | some ms =>
    obtain ⟨hk, hg⟩ := live?_eq_some.mp h
    simp only [receive, sessions_push, sessions_modify]
    apply modify_congr_of_some hk
    simp [Session.does, hg]

/-- A payload for a session that is gone changes nothing. -/
theorem doneTo_receive_of_none {w : World C} {k : Nat} (h : w.live? k = none)
    (messages : Option (List String)) :
    w.doneTo (messages.map fun ms => (k, .receive ms)) = w.sessions := by
  cases messages with
  | none => rfl
  | some ms =>
    apply modify_eq_of_fixed
    intro s hs
    exact if_pos (live?_eq_none.mp h s hs)

theorem sessions_perform (w : World C) (p : Program) :
    (w.perform p).sessions = w.doneTo p.deed? := by
  cases p with
  | done => rfl
  -- a note is left with any session, all else asks whether something keeps it
  | note k entry rest => rfl
  | onMessage k handler rest =>
    apply sessions_of_live
    · intro h
      simp [perform, h]
    · intro s h
      simp [perform, h]
  | pause k rest =>
    apply sessions_of_live
    · intro h
      simp [perform, h]
    · intro s h
      simp [perform, h]
  | resume k rest =>
    apply sessions_of_live
    · intro h
      simp [perform, h]
    · intro s h
      simp [perform, h]
  | close k rest => rfl
  | look k next => rfl
  | write k message next =>
    apply sessions_of_live
    · intro h
      simp [perform, h]
    · intro s h
      obtain ⟨hk, -⟩ := live?_eq_some.mp h
      simp only [perform, h, sessions_act, sessions_modify]
      apply modify_congr_of_some hk
      rfl
  -- a farewell is for a session that nothing keeps as well
  | onClose k handler rest =>
    rcases h : w.live? k with - | s
    · simp only [perform, h, sessions_act, sessions_modify]
      apply modify_congr
      intro s hs
      exact (if_pos (live?_eq_none.mp h s hs)).symm
    · obtain ⟨hk, hg⟩ := live?_eq_some.mp h
      simp only [perform, h, sessions_actIf, sessions_act, sessions_modify]
      apply modify_congr_of_some hk
      simp [Session.does, hg]
  | feed k payload next =>
    rcases h : w.live? k with - | s
    · simp only [perform, h, sessions_act]
      exact (doneTo_receive_of_none h _).symm
    · simp only [perform, h]
      exact sessions_receive (w.act _) (k := k) (s := s) h _

theorem sessions_step (w : World C) :
    w.step.sessions = w.doneTo (w.tasks.head?.bind Task.deed?) := by
  rcases ht : w.tasks with - | ⟨t, rest⟩
  · simp [step, ht, doneTo]
  · simp only [step, ht, List.head?_cons, Option.bind_some]
    cases t with
    | act p => exact sessions_perform { w with tasks := rest } p
    | drain k => exact sessions_drain { w with tasks := rest } k
    | returned k message => rfl
    | close k => exact sessions_close { w with tasks := rest } k

/-! ### What operations leave as it is -/

theorem attach_frame (w : World C) (k n : Nat) :
    ∃ sessions sockets tasks, w.attach k n = { w with sessions, sockets, tasks } := by
  unfold attach
  split
  · exact ⟨_, _, _, rfl⟩
  · split
    · exact ⟨_, _, _, rfl⟩
    · exact ⟨_, _, _, rfl⟩

theorem register_frame (w : World C) (k : Nat) (c : C) :
    ∃ sessions sockets tasks, w.register k c = { w with sessions, sockets, tasks } := by
  unfold register
  split
  · exact ⟨_, _, _, rfl⟩
  · obtain ⟨_, _, _, h⟩ := attach_frame (w.modify k (·.addCarrier c)) k _
    exact ⟨_, _, _, h⟩

omit [Carrier C] in
theorem receive_frame (w : World C) (k : Nat) (messages : Option (List String)) :
    ∃ sessions tasks, w.receive k messages = { w with sessions, tasks } := by
  cases messages with
  | none => exact ⟨_, _, rfl⟩
  | some messages => exact ⟨_, _, rfl⟩

omit [Carrier C] in
theorem actIf_frame (w : World C) (p : Option Program) :
    ∃ tasks, w.actIf p = { w with tasks } := by
  cases p with
  | none => exact ⟨_, rfl⟩
  | some p => exact ⟨_, rfl⟩

theorem perform_frame (w : World C) (p : Program) :
    ∃ sessions tasks, w.perform p = { w with sessions, tasks } := by
  cases p with
  | done | note | close | look => exact ⟨_, _, rfl⟩
  | write | onMessage | pause | resume =>
    simp only [perform]
    split
    · exact ⟨_, _, rfl⟩
    · exact ⟨_, _, rfl⟩
  | onClose k handler rest =>
    simp only [perform]
    split
    · exact ⟨_, _, rfl⟩
    · rename_i s _
      obtain ⟨_, h⟩ := actIf_frame ((w.modify k fun _ => (s.setFarewell w.now handler).1).act rest)
        (s.setFarewell w.now handler).2
      exact ⟨_, _, h⟩
  | feed k payload next =>
    simp only [perform]
    split
    · exact ⟨_, _, rfl⟩
    · obtain ⟨_, _, h⟩ := receive_frame (w.act (next (verdict (Payload.messages? payload)))) k
        (Payload.messages? payload)
      exact ⟨_, _, h⟩

/-- A step changes sessions, tasks and the registry. -/
theorem step_frame (w : World C) :
    ∃ sessions registry tasks, w.step = { w with sessions, registry, tasks } := by
  rcases ht : w.tasks with - | ⟨t, rest⟩
  · exact ⟨_, _, _, by simp [step, ht]; rfl⟩
  · simp only [step, ht]
    cases t with
    | act p =>
      obtain ⟨_, _, h⟩ := perform_frame { w with tasks := rest } p
      exact ⟨_, _, _, h⟩
    | drain k =>
      simp only [drain]
      split
      · exact ⟨_, _, _, rfl⟩
      · exact ⟨_, _, _, rfl⟩
    | returned k message => exact ⟨_, _, _, rfl⟩
    | close k =>
      simp only [close]
      split
      · exact ⟨_, _, _, rfl⟩
      · rename_i s _
        split
        · exact ⟨_, _, _, rfl⟩
        -- closing takes the entry away, and may leave the farewell to run
        · obtain ⟨_, h⟩ := actIf_frame
            ((({ w with tasks := rest } : World C).modify k fun _ =>
              (s.depart w.now).1).unregister k) (s.depart w.now).2
          exact ⟨_, _, _, h⟩

/-! ### Moves of a world -/

/-- Does a move.  Clients and carriers only reach sessions that something keeps. -/
def move (w : World C) : Move C → World C
  | .next => w.next
  | .pass time => w.reach time
  | .step => w.step
  | .call program => w.act program
  | .make id timing onOpen peer held entered =>
    let s : Session C := { id, timing, onOpen, peer, held }
    if entered then (w.ensure id s).2 else w.add s
  | .hold k held => w.modify k fun s => { s with held := held }
  | .introduce k peer => w.modify k (·.introduce peer)
  | .register k carrier => w.register k carrier
  | .again k n =>
    match w.live? k with
    | none => w
    | some s => if n < s.carriers.length then w.attach k n else w
  | .stir k n carrier => w.modify k fun s => { s with carriers := s.carriers.set n carrier }
  | .lose k n =>
    match w.live? k with
    | none => w
    | some s => if s.attached = some n then w.modify k (·.detach w.now) else w
  | .feed k payload =>
    match w.live? k with
    | none => w
    | some _ => (w.feed k payload).1
  | .close k => w.push (.close k)
  | .elapse k => w.elapse k
  | .closeAll => w.closeAll.2
  | .shutdown => w.shutdown.2
  | .forget k => w.modify k Session.forget

/-- Only the moves made for it change the moment, or stop a world. -/
theorem move_frame (w : World C) {m : Move C} (next : m ≠ .next) (pass : ∀ time, m ≠ .pass time)
    (shutdown : m ≠ .shutdown) :
    ∃ sessions sockets registry tasks,
      w.move m = { w with sessions, sockets, registry, tasks } := by
  cases m with
  | next => exact absurd rfl next
  | pass time => exact absurd rfl (pass time)
  | shutdown => exact absurd rfl shutdown
  | step =>
    obtain ⟨_, _, _, h⟩ := step_frame w
    exact ⟨_, _, _, _, h⟩
  | register k carrier =>
    obtain ⟨_, _, _, h⟩ := register_frame w k carrier
    exact ⟨_, _, _, _, h⟩
  -- these ask whether something keeps the session
  | again k n =>
    simp only [move]
    split
    · exact ⟨_, _, _, _, rfl⟩
    · split
      · obtain ⟨_, _, _, h⟩ := attach_frame w k n
        exact ⟨_, _, _, _, h⟩
      · exact ⟨_, _, _, _, rfl⟩
  | lose k n =>
    simp only [move]
    split
    · exact ⟨_, _, _, _, rfl⟩
    · split
      · exact ⟨_, _, _, _, rfl⟩
      · exact ⟨_, _, _, _, rfl⟩
  | feed k payload =>
    simp only [move]
    split
    · exact ⟨_, _, _, _, rfl⟩
    · obtain ⟨_, _, h⟩ := receive_frame w k (Payload.messages? payload)
      exact ⟨_, _, _, _, h⟩
  | elapse k =>
    simp only [move, elapse]
    split
    · exact ⟨_, _, _, _, rfl⟩
    · exact ⟨_, _, _, _, rfl⟩
  -- a session is made, or found by its name
  | make id timing onOpen peer held entered =>
    simp only [move, ensure]
    split
    · split
      · exact ⟨_, _, _, _, rfl⟩
      · exact ⟨_, _, _, _, rfl⟩
    · exact ⟨_, _, _, _, rfl⟩
  | call | hold | introduce | stir | close | closeAll | forget => exact ⟨_, _, _, _, rfl⟩

theorem sessions_again (w : World C) (k n : Nat) :
    (w.move (.again k n)).sessions = w.doneTo (some (k, .again n)) := by
  rcases h : w.live? k with - | s
  · simp only [move, h]
    refine (modify_eq_of_fixed ?_).symm
    intro s hs
    simp [Session.does, live?_eq_none.mp h s hs]
  · obtain ⟨hk, hg⟩ := live?_eq_some.mp h
    by_cases hn : n < s.carriers.length
    · simp only [move, h, hn, if_true, sessions_attach]
      apply modify_congr_of_some hk
      simp [Session.does, hg, hn]
    · simp only [move, h, hn, if_false]
      refine (modify_eq_of_fixed_some hk ?_).symm
      simp [Session.does, hn]

theorem sessions_lose (w : World C) (k n : Nat) :
    (w.move (.lose k n)).sessions = w.doneTo (some (k, .lose n)) := by
  rcases h : w.live? k with - | s
  · simp only [move, h]
    refine (modify_eq_of_fixed ?_).symm
    intro s hs
    simp [Session.does, live?_eq_none.mp h s hs]
  · obtain ⟨hk, hg⟩ := live?_eq_some.mp h
    by_cases hn : s.attached = some n
    · simp only [move, h, hn, if_true, sessions_modify]
      apply modify_congr_of_some hk
      simp [Session.does, hg, hn]
    · simp only [move, h, hn, if_false]
      refine (modify_eq_of_fixed_some hk ?_).symm
      simp [Session.does, hn]

/-- Nobody hears of the connection of a carrier that is not attached. -/
theorem lose_of_not_attached {w : World C} {k n : Nat} {s : Session C}
    (hs : w.sessions[k]? = some s) (hn : s.attached ≠ some n) : w.move (.lose k n) = w := by
  rcases live?_cases hs with hl | hl
  · simp [move, hl]
  · simp [move, hl, hn]

theorem sessions_feed (w : World C) (k : Nat) (payload : String) :
    (w.move (.feed k payload)).sessions =
      w.doneTo ((Payload.messages? payload).map fun ms => (k, .receive ms)) := by
  rcases h : w.live? k with - | s
  · simp only [move, h]
    exact (doneTo_receive_of_none h _).symm
  · simp only [move, h, feed]
    exact sessions_receive w h _

/-- **A move that makes no session does one deed to one session.** -/
theorem sessions_of_not_making (w : World C) {m : Move C} (hm : m.isMaking = false) :
    (w.move m).sessions = w.doneTo (m.deed? w.tasks) := by
  cases m with
  | step => exact sessions_step w
  | register k carrier => exact sessions_register w k carrier
  | again k n => exact sessions_again w k n
  | lose k n => exact sessions_lose w k n
  | feed k payload => exact sessions_feed w k payload
  | elapse k => exact sessions_elapse w k
  | make => cases hm
  | next | pass | call | hold | introduce | stir | close | closeAll | shutdown | forget => rfl

/-- **A move does one deed to one session, or makes new ones.** -/
theorem sessions_move (w : World C) (m : Move C) :
    ∃ made : List (Session C), (∀ s ∈ made, s.IsNew) ∧
      (w.move m).sessions = w.doneTo (m.deed? w.tasks) ++ made := by
  have old {l : List (Session C)} (h : l = w.doneTo (m.deed? w.tasks)) :
      ∃ made : List (Session C), (∀ s ∈ made, s.IsNew) ∧
        l = w.doneTo (m.deed? w.tasks) ++ made :=
    ⟨[], by simp, by rw [h, List.append_nil]⟩
  -- only `make` adds a session, and only when no session of that name is registered
  cases m with
  | make id timing onOpen peer held entered =>
    have new : Session.IsNew ({ id, timing, onOpen, peer, held } : Session C) :=
      ⟨_, _, _, _, _, rfl⟩
    cases entered with
    | false => exact ⟨[_], by simpa using new, rfl⟩
    | true =>
      rcases hf : w.find? id with - | k
      · exact ⟨[_], by simpa using new, by simp [move, ensure, hf]; rfl⟩
      · exact old (by simp [move, ensure, hf, Move.deed?, doneTo])
  | _ => exact old (sessions_of_not_making w rfl)

/-! ### Runs -/

/-- The world after these moves. -/
def after (w : World C) (ms : List (Move C)) : World C := ms.foldl move w

@[simp] theorem after_nil (w : World C) : w.after [] = w := rfl

@[simp] theorem after_cons (w : World C) (m : Move C) (ms : List (Move C)) :
    w.after (m :: ms) = (w.move m).after ms := rfl

@[simp] theorem after_append (w : World C) (ms ms' : List (Move C)) :
    w.after (ms ++ ms') = (w.after ms).after ms' := List.foldl_append

end World

/-- A deed that was done to a session: when it was done, and the session before. -/
structure Session.Turn (C : Type) where
  now : Moment
  before : Session C
  deed : Deed C

variable [Carrier C]

/-- The session after a turn. -/
def Session.Turn.after (t : Session.Turn C) : Session C := t.before.does t.now t.deed

namespace World

/-- The turn that a move is for session `k`, if it is one. -/
def turnOf (k : Nat) (w : World C) (m : Move C) : List (Session.Turn C) :=
  match w.sessions[k]?, m.deed? w.tasks with
  | some s, some (j, d) => if j = k then [⟨w.now, s, d⟩] else []
  | _, _ => []

omit [Carrier C] in
/-- A turn of a session is the deed of its move, done to the session as it is. -/
theorem mem_turnOf {k : Nat} {w : World C} {m : Move C} {t : Session.Turn C} :
    t ∈ turnOf k w m ↔
      w.sessions[k]? = some t.before ∧ t.now = w.now ∧ m.deed? w.tasks = some (k, t.deed) := by
  obtain ⟨now, s, d⟩ := t
  unfold turnOf
  rcases hk : w.sessions[k]? with - | s'
  · simp
  rcases hd : m.deed? w.tasks with - | ⟨j, d'⟩
  · simp
  by_cases hj : j = k
  · simp only [hj, if_true, List.mem_singleton, Session.Turn.mk.injEq, Option.some.injEq,
      Prod.mk.injEq, true_and]
    constructor
    · rintro ⟨rfl, rfl, rfl⟩
      exact ⟨rfl, rfl, rfl⟩
    · rintro ⟨rfl, rfl, rfl⟩
      exact ⟨rfl, rfl, rfl⟩
  · simp [hj]

omit [Carrier C] in
/-- A move is at most one turn. -/
theorem turnOf_eq_of_mem {k : Nat} {w : World C} {m : Move C} {t : Session.Turn C}
    (ht : t ∈ turnOf k w m) : turnOf k w m = [t] := by
  unfold turnOf at ht ⊢
  split at ht
  · split at ht
    · rename_i hj
      rw [List.mem_singleton.mp ht]
      simp [hj]
    · cases ht
  · cases ht

section Along

variable {α : Type}

/-- Everything that moves give along a run. -/
def along (f : World C → Move C → List α) : World C → List (Move C) → List α
  | _, [] => []
  | w, m :: ms => f w m ++ along f (w.move m) ms

variable (f : World C → Move C → List α)

theorem along_append (w : World C) (ms ms' : List (Move C)) :
    along f w (ms ++ ms') = along f w ms ++ along f (w.after ms) ms' := by
  induction ms generalizing w with
  | nil => rfl
  | cons m ms ih =>
    rw [List.cons_append, along, along, ih, List.append_assoc]
    rfl

theorem along_concat (w : World C) (ms : List (Move C)) (m : Move C) :
    along f w (ms ++ [m]) = along f w ms ++ f (w.after ms) m := by
  rw [along_append, along, along, List.append_nil]

theorem mem_along {w : World C} {ms : List (Move C)} {a : α} :
    a ∈ along f w ms ↔ ∃ pre m post, ms = pre ++ m :: post ∧ a ∈ f (w.after pre) m := by
  induction ms generalizing w with
  | nil => simp [along]
  | cons m ms ih =>
    rw [along, List.mem_append, ih]
    constructor
    · rintro (h | ⟨pre, m', post, rfl, h⟩)
      · exact ⟨[], m, ms, rfl, h⟩
      · exact ⟨m :: pre, m', post, rfl, h⟩
    · rintro ⟨pre, m', post, he, h⟩
      rcases pre with - | ⟨m'', pre⟩
      · obtain ⟨rfl, rfl⟩ := List.cons.inj he
        exact .inl h
      · obtain ⟨rfl, rfl⟩ := List.cons.inj he
        exact .inr ⟨pre, m', post, rfl, h⟩

end Along

/-- The turns of session `k` along these moves. -/
def turns (k : Nat) : World C → List (Move C) → List (Session.Turn C) := along (turnOf k)

theorem turns_append (k : Nat) (w : World C) (ms ms' : List (Move C)) :
    turns k w (ms ++ ms') = turns k w ms ++ turns k (w.after ms) ms' := along_append _ w ms ms'

theorem turns_concat (k : Nat) (w : World C) (ms : List (Move C)) (m : Move C) :
    turns k w (ms ++ [m]) = turns k w ms ++ turnOf k (w.after ms) m := along_concat _ w ms m

/-- The turns along a run are the turns that its moves are. -/
theorem mem_turns {k : Nat} {w : World C} {ms : List (Move C)} {t : Session.Turn C} :
    t ∈ turns k w ms ↔ ∃ pre m post, ms = pre ++ m :: post ∧ t ∈ turnOf k (w.after pre) m :=
  mem_along _

/-- A session after a move was there before and has had its turn, if any, or it is new. -/
theorem session_move {w : World C} {m : Move C} {k : Nat} {s' : Session C}
    (h : (w.move m).sessions[k]? = some s') :
    (∃ s, w.sessions[k]? = some s ∧
      (turnOf k w m = [] ∧ s' = s ∨ ∃ d, turnOf k w m = [⟨w.now, s, d⟩] ∧ s' = s.does w.now d)) ∨
    (w.sessions[k]? = none ∧ turnOf k w m = [] ∧ s'.IsNew) := by
  obtain ⟨made, new, hm⟩ := sessions_move w m
  rw [hm] at h
  have hl : (w.doneTo (m.deed? w.tasks)).length = w.sessions.length := by
    unfold doneTo
    split
    · rfl
    · exact List.length_modify ..
  rcases hk : w.sessions[k]? with - | s
  -- the session is one of those just made
  · rw [List.getElem?_append_right (hl ▸ List.getElem?_eq_none_iff.mp hk)] at h
    exact .inr ⟨rfl, by simp [turnOf, hk], new s' (List.mem_of_getElem? h)⟩
  -- the session was there before, and the deed is for it or for another one
  · have hlt : k < w.sessions.length := (List.getElem?_eq_some_iff.mp hk).1
    rw [List.getElem?_append_left (hl ▸ hlt)] at h
    refine .inl ⟨s, rfl, ?_⟩
    rcases hd : m.deed? w.tasks with - | ⟨j, d⟩
    · rw [hd, doneTo, hk] at h
      exact .inl ⟨by simp [turnOf, hk, hd], (Option.some.inj h).symm⟩
    · rw [hd, doneTo, List.getElem?_modify, hk] at h
      by_cases hj : j = k
      · simp only [hj, if_true, Option.map_eq_map, Option.map_some, Option.some.injEq] at h
        exact .inr ⟨d, by simp [turnOf, hk, hd, hj], h.symm⟩
      · simp only [hj, if_false, Option.map_eq_map, Option.map_some, Option.some.injEq] at h
        exact .inl ⟨by simp [turnOf, hk, hd, hj], h.symm⟩

/-- Sessions are never taken away. -/
theorem session_of_move {w : World C} {m : Move C} {k : Nat}
    (h : (w.move m).sessions[k]? = none) : w.sessions[k]? = none ∧ turnOf k w m = [] := by
  obtain ⟨made, -, hm⟩ := sessions_move w m
  have hl : w.sessions.length ≤ (w.move m).sessions.length := by
    rw [hm, List.length_append]
    unfold doneTo
    split
    · exact Nat.le_add_right ..
    · rw [List.length_modify]
      exact Nat.le_add_right ..
  have hk : w.sessions[k]? = none :=
    List.getElem?_eq_none_iff.mpr (Nat.le_trans hl (List.getElem?_eq_none_iff.mp h))
  exact ⟨hk, by simp [turnOf, hk]⟩

/-- What a turn makes of a session is what the world has after the move. -/
theorem session_of_turn {w : World C} {m : Move C} {k : Nat} {t : Session.Turn C}
    (ht : t ∈ turnOf k w m) : (w.move m).sessions[k]? = some t.after := by
  obtain ⟨hk, hnow, -⟩ := mem_turnOf.mp ht
  have hturn := turnOf_eq_of_mem ht
  rcases hs : (w.move m).sessions[k]? with - | s'
  · rw [(session_of_move hs).2] at hturn
    cases hturn
  · rcases session_move hs with ⟨s, -, ⟨hn, -⟩ | ⟨d, hd, rfl⟩⟩ | ⟨hn, -, -⟩
    · rw [hn] at hturn
      cases hturn
    · rw [← List.singleton_inj.mp (hd.symm.trans hturn)]
      rfl
    · cases hk.symm.trans hn

/-- What becomes of a session with a move: it has its turn, or stays as it is. -/
theorem session_of_before {w : World C} {k : Nat} {s : Session C} (hs : w.sessions[k]? = some s)
    (m : Move C) :
    turnOf k w m = [] ∧ (w.move m).sessions[k]? = some s ∨
      ∃ d, turnOf k w m = [⟨w.now, s, d⟩] ∧ (w.move m).sessions[k]? = some (s.does w.now d) := by
  rcases hs' : (w.move m).sessions[k]? with - | s'
  · cases hs.symm.trans (session_of_move hs').1
  rcases session_move hs' with ⟨s₀, hk, h⟩ | ⟨hk, -, -⟩
  · obtain rfl := Option.some.inj (hs.symm.trans hk)
    rcases h with ⟨ht, rfl⟩ | ⟨d, ht, rfl⟩
    · exact .inl ⟨ht, rfl⟩
    · exact .inr ⟨d, ht, rfl⟩
  · cases hs.symm.trans hk

/-- **Induction over the turns of a session.**  What holds of a new session without turns, and
goes on to hold with every turn, holds of every session after every run. -/
theorem session_run {P : List (Session.Turn C) → Session C → Prop}
    (new : ∀ s, s.IsNew → P [] s)
    (turn : ∀ ts t, P ts t.before → P (ts ++ [t]) t.after)
    (ms : List (Move C)) {k : Nat} {s : Session C}
    (hs : (({} : World C).after ms).sessions[k]? = some s) : P (turns k {} ms) s := by
  -- by induction on the moves from the last one back; a session that is yet to be made must be
  -- known to have had no turns
  have key : ∀ ms : List (Move C),
      ((({} : World C).after ms).sessions[k]? = none → turns k ({} : World C) ms = []) ∧
      ∀ s, (({} : World C).after ms).sessions[k]? = some s → P (turns k {} ms) s := by
    intro ms
    induction ms using List.reverseRecOn with
    | nil => exact ⟨fun _ => rfl, fun s h => by cases h⟩
    | append_singleton ms m ih =>
      obtain ⟨ihn, ihs⟩ := ih
      rw [turns_concat, after_append, after_cons, after_nil]
      constructor
      · intro h
        obtain ⟨hk, ht⟩ := session_of_move h
        rw [ihn hk, ht, List.append_nil]
      · intro s' h
        rcases session_move h with ⟨s, hk, ⟨ht, rfl⟩ | ⟨d, ht, rfl⟩⟩ | ⟨hk, ht, hnew⟩
        · rw [ht, List.append_nil]
          exact ihs _ hk
        · rw [ht]
          exact turn _ ⟨_, s, d⟩ (ihs s hk)
        · rw [ihn hk, ht]
          exact new s' hnew
  exact (key ms).2 s hs

/-- What every deed keeps, a session keeps for ever. -/
theorem session_after_of_kept {Q : Session C → Prop} (kept : ∀ s now d, Q s → Q (s.does now d))
    {w : World C} {k : Nat} {s : Session C} (hs : w.sessions[k]? = some s) (h : Q s)
    (ms : List (Move C)) : ∃ s', (w.after ms).sessions[k]? = some s' ∧ Q s' := by
  induction ms generalizing w s with
  | nil => exact ⟨s, hs, h⟩
  | cons m ms ih =>
    rcases session_of_before hs m with ⟨-, hs'⟩ | ⟨d, -, hs'⟩
    · exact ih hs' h
    · exact ih hs' (kept s w.now d h)

/-- The same for turns of which something is known. -/
theorem session_run_of_turns {Q : Session.Turn C → Prop}
    {P : List (Session.Turn C) → Session C → Prop} (new : ∀ s, s.IsNew → P [] s)
    (turn : ∀ ts t, Q t → P ts t.before → P (ts ++ [t]) t.after)
    (ms : List (Move C)) {k : Nat} {s : Session C} (hq : ∀ t ∈ turns k {} ms, Q t)
    (hs : (({} : World C).after ms).sessions[k]? = some s) : P (turns k {} ms) s := by
  refine session_run (P := fun ts s => (∀ t ∈ ts, Q t) → P ts s) ?_ ?_ ms hs hq
  · intro s hnew _
    exact new s hnew
  · intro ts t ih hq
    have hold : P ts t.before := ih fun t' ht' => hq t' (List.mem_append_left _ ht')
    exact turn ts t (hq t (List.mem_append_right _ (List.mem_singleton_self t))) hold

/-! ### Forgetting -/

/-- The move forgets a session only if nothing keeps it. -/
def IsMindful (w : World C) : Move C → Prop
  | .forget k => ∀ s, w.sessions[k]? = some s → w.isKept k s = false
  | _ => True

/-- Along these moves only sessions are forgotten that nothing keeps. -/
def Mindful : World C → List (Move C) → Prop
  | _, [] => True
  | w, m :: ms => w.IsMindful m ∧ Mindful (w.move m) ms

theorem mindful_append (w : World C) (ms ms' : List (Move C)) :
    Mindful w (ms ++ ms') ↔ Mindful w ms ∧ Mindful (w.after ms) ms' := by
  induction ms generalizing w with
  | nil => simp [Mindful]
  | cons m ms ih => simp [Mindful, ih, and_assoc]

/-! ### The world's own clock -/

omit [Carrier C] in
/-- A session that nothing keeps any more is found among the sessions. -/
theorem of_unkept? {w : World C} {k : Nat} (h : w.unkept? = some k) :
    ∃ s, w.sessions[k]? = some s ∧ s.gone = false ∧ w.isKept k s = false := by
  obtain ⟨⟨s, j⟩, hf, rfl⟩ := Option.map_eq_some_iff.mp h
  have hp := List.find?_some hf
  simp only [Bool.and_eq_true, Bool.not_eq_true'] at hp
  exact ⟨s, List.mem_zipIdx_iff_getElem?.mp (List.mem_of_find?_eq_some hf), hp.1, hp.2⟩

/-- What a world does by itself at the present moment is a move. -/
theorem exists_stir?_eq_move {w w' : World C} (h : w.stir? = some w') :
    ∃ m, w' = w.move m ∧ w.IsMindful m := by
  unfold stir? at h
  split at h
  -- a task is waiting
  · exact ⟨.step, (Option.some.inj h).symm, trivial⟩
  · split at h
    -- nothing keeps session `k` any more
    · rename_i k hk
      refine ⟨.forget k, (Option.some.inj h).symm, ?_⟩
      obtain ⟨s, hs, -, hkept⟩ := of_unkept? hk
      intro s' hs'
      exact Option.some.inj (hs.symm.trans hs') ▸ hkept
    -- the connection of an attached carrier went away
    · obtain ⟨k, hk, rfl⟩ := Option.map_eq_some_iff.mp h
      obtain ⟨hlt, hs, -⟩ := List.findIdx?_eq_some_iff_getElem.mp hk
      simp only [Bool.and_eq_true, Bool.not_eq_true'] at hs
      obtain ⟨hg, hst⟩ := hs
      rcases ha : w.sessions[k].attached with - | n
      · simp [Session.isStranded, ha] at hst
      · have hlive : w.live? k = some w.sessions[k] :=
          live?_eq_some.mpr ⟨List.getElem?_eq_getElem hlt, hg⟩
        exact ⟨.lose k n, by simp [move, hlive, ha], trivial⟩

/-- What a world does in one step of its clock is a run. -/
theorem exists_tick?_eq_after {w w' : World C} {limit : Nat} (h : w.tick? limit = some w') :
    ∃ ms, w' = w.after ms ∧ Mindful w ms := by
  unfold tick? at h
  split at h
  · rename_i hs
    obtain ⟨m, hm, hmind⟩ := exists_stir?_eq_move hs
    exact ⟨[.next, m], by rw [← Option.some.inj h, hm]; rfl, trivial, hmind, trivial⟩
  · unfold fire? at h
    split at h
    · cases h
    · rename_i t k _
      split at h
      · exact ⟨[.next, .pass t, .elapse k], (Option.some.inj h).symm, trivial, trivial, trivial,
          trivial⟩
      · cases h

/-- **What a world does by itself until it is at rest is a run**, and a mindful one. -/
theorem exists_settle_eq_after (limit fuel : Nat) (w : World C) :
    ∃ ms, w.settle limit fuel = w.after ms ∧ Mindful w ms := by
  induction fuel generalizing w with
  | zero => exact ⟨[], rfl, trivial⟩
  | succ fuel ih =>
    unfold settle
    split
    · rename_i w' h
      obtain ⟨ms, rfl, hms⟩ := exists_tick?_eq_after h
      obtain ⟨ms', h', hms'⟩ := ih (w.after ms)
      exact ⟨ms ++ ms', by rw [h', after_append], (mindful_append w ms ms').mpr ⟨hms, hms'⟩⟩
    · exact ⟨[.pass limit], rfl, trivial, trivial⟩

end World

end Duplex
