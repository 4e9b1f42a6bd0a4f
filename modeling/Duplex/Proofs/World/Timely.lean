/-
Duplex/Proofs/World/Timely.lean

Runs on the world's own clock.

What is to be done at the present moment is done before anything else happens,
time passes no further than to what is due first, and a session does something
by itself exactly when that is due.  Such runs are *timely*.  Whatever else
happens, and when, is free: carriers come and go, clients send, applications
are called, and the clock may go on in pieces of any length.

In a timely run no clock of a session ever shows a time that has passed
(`InTime`), so what a session does by itself, it does at the very time that it
was to be done.  `timely_run` is induction over such runs: time goes on, and a
session has its turns.  A world that is left to itself goes on in time
(`exists_settle_eq_timely`).
-/
import Duplex.Proofs.World.Rest

namespace Duplex.World

open Session (Deed Turn)

variable {C : Type}

/-! ### Timely moves -/

/-- Nothing is due in the world before that time. -/
def Quiet (w : World C) (time : Nat) : Prop :=
  ∀ s ∈ w.sessions, ∀ t, s.due? = some t → time ≤ t

/-- The move is made in time: tasks come first, time stops at what is due, and what is due is done
when it is. -/
def IsTimely (w : World C) : Move C → Prop
  | .next | .step => True
  | .pass time => w.tasks = [] ∧ w.Quiet time
  | .elapse k => w.tasks = [] ∧ ∃ s, w.sessions[k]? = some s ∧ s.due? = some w.now.time
  | _ => w.tasks = []

variable [Carrier C]

/-- All these moves are made in time. -/
def Timely : World C → List (Move C) → Prop
  | _, [] => True
  | w, m :: ms => w.IsTimely m ∧ Timely (w.move m) ms

theorem timely_append (w : World C) (ms ms' : List (Move C)) :
    Timely w (ms ++ ms') ↔ Timely w ms ∧ Timely (w.after ms) ms' := by
  induction ms generalizing w with
  | nil => simp [Timely]
  | cons m ms ih => simp [Timely, ih, and_assoc]

theorem Timely.before {w : World C} {pre post : List (Move C)} {m : Move C}
    (h : Timely w (pre ++ m :: post)) : Timely w pre ∧ (w.after pre).IsTimely m := by
  obtain ⟨hpre, hm, -⟩ := (timely_append w pre (m :: post)).mp h
  exact ⟨hpre, hm⟩

/-! ### Clocks never show the past -/

/-- No clock of the world shows a time that has passed, and one at most is set in a session. -/
def InTime (w : World C) : Prop := ∀ s ∈ w.sessions, s.Wound ∧ s.Ahead w.now.time

omit [Carrier C] in
theorem InTime.empty : ({} : World C).InTime := by
  intro s hs
  cases hs

/-- Time only changes when it passes. -/
theorem time_move (w : World C) {m : Move C} (pass : ∀ time, m ≠ .pass time) :
    (w.move m).now.time = w.now.time := by
  by_cases next : m = .next
  · rw [next]
    rfl
  by_cases shutdown : m = .shutdown
  · rw [shutdown]
    rfl
  · obtain ⟨_, _, _, _, h⟩ := move_frame w next pass shutdown
    rw [h]

/-- Time does not go back. -/
theorem time_le_move (w : World C) (m : Move C) : w.now.time ≤ (w.move m).now.time := by
  by_cases pass : ∃ time, m = .pass time
  · obtain ⟨time, rfl⟩ := pass
    exact Nat.le_max_left _ _
  · exact Nat.le_of_eq (time_move w fun time h => pass ⟨time, h⟩).symm

/-- Sessions after a move, each with its turn if it has one, at the time of the move. -/
theorem InTime.move {w : World C} (h : w.InTime) {m : Move C} (hm : w.IsTimely m) :
    (w.move m).InTime := by
  by_cases pass : ∃ time, m = .pass time
  · obtain ⟨time, rfl⟩ := pass
    intro s hs
    obtain ⟨hw, ha⟩ := h s hs
    refine ⟨hw, hw.ahead fun t ht => Nat.max_le.mpr ⟨ha.due ht, hm.2 s hs t ht⟩⟩
  · intro s' hs'
    rw [time_move w fun time he => pass ⟨time, he⟩]
    obtain ⟨k, hk⟩ := List.mem_iff_getElem?.mp hs'
    rcases session_move hk with ⟨s, hs, ⟨-, rfl⟩ | ⟨d, -, rfl⟩⟩ | ⟨-, -, hnew⟩
    · exact h _ (List.mem_of_getElem? hs)
    · obtain ⟨hw, ha⟩ := h s (List.mem_of_getElem? hs)
      exact ⟨hw.does w.now d, ha.does hw d⟩
    · have hw := hnew.wound
      obtain ⟨_, _, _, _, _, rfl⟩ := hnew
      exact ⟨hw, hw.ahead fun t ht => by cases ht⟩

theorem InTime.after {w : World C} (h : w.InTime) {ms : List (Move C)} (hms : Timely w ms) :
    (w.after ms).InTime := by
  induction ms generalizing w with
  | nil => exact h
  | cons m ms ih => exact ih (h.move hms.1) hms.2

/-! ### Turns in time -/

omit [Carrier C] in
/-- Heartbeats are sent by sessions that do something by themselves, and by nothing else. -/
theorem elapse_of_beat {tasks : List Task} {m : Move C} {k : Nat}
    (hm : m.deed? tasks = some (k, .beat)) : m = .elapse k := by
  cases m with
  | elapse j =>
    obtain ⟨rfl, -⟩ := Prod.mk.inj (Option.some.inj hm)
    rfl
  | step =>
    obtain ⟨task, rest, -, htask⟩ := Move.deed?_step.mp hm
    cases task with
    | act p =>
      cases p with
      | feed j payload next =>
        obtain ⟨messages, -, he⟩ := Option.map_eq_some_iff.mp htask
        cases he
      | done | close | look => cases htask
      | note | write | onMessage | onClose | pause | resume => cases htask
    | drain | returned | close => cases htask
  | feed j payload =>
    obtain ⟨messages, -, he⟩ := Option.map_eq_some_iff.mp hm
    cases he
  | hold | introduce | register | again | stir | lose | forget => cases hm
  | next | pass | call | make | close | closeAll | shutdown => cases hm

/-- The turn comes in time: no clock shows the past, and a heartbeat is sent when it is due. -/
structure TurnInTime (t : Turn C) : Prop where
  wound : t.before.Wound
  ahead : t.before.Ahead t.now.time
  beat : t.deed = .beat → ∀ b, t.before.nextBeat = some b → b = t.now.time

omit [Carrier C] in
theorem InTime.turn {w : World C} (h : w.InTime) {m : Move C} (hm : w.IsTimely m) {k : Nat}
    {t : Turn C} (ht : t ∈ turnOf k w m) : TurnInTime t := by
  obtain ⟨hk, hnow, hd⟩ := mem_turnOf.mp ht
  obtain ⟨hw, ha⟩ := h _ (List.mem_of_getElem? hk)
  refine ⟨hw, by rw [hnow]; exact ha, fun hbeat b hb => ?_⟩
  rw [hbeat] at hd
  obtain rfl := elapse_of_beat hd
  obtain ⟨-, s, hs, hdue⟩ := hm
  obtain rfl := Option.some.inj (hs.symm.trans hk)
  rw [hnow]
  simpa [Session.due?, hb] using hdue

theorem turn_of_timely {ms : List (Move C)} (hms : Timely ({} : World C) ms) {k : Nat} {t : Turn C}
    (ht : t ∈ turns k {} ms) : TurnInTime t := by
  obtain ⟨pre, m, post, rfl, hturn⟩ := mem_turns.mp ht
  obtain ⟨hpre, hm⟩ := hms.before
  exact (InTime.empty.after hpre).turn hm hturn

/-- **Induction over timely runs.**  Time goes on, up to what is due first, and a session has its
turns. -/
theorem timely_run {P : Nat → Session C → Prop} (new : ∀ time s, s.IsNew → P time s)
    (later : ∀ time time' s, time ≤ time' → s.Ahead time' → P time s → P time' s)
    (turn : ∀ t : Turn C, TurnInTime t → P t.now.time t.before → P t.now.time t.after)
    {ms : List (Move C)} (hms : Timely ({} : World C) ms) {k : Nat} {s : Session C}
    (hs : (({} : World C).after ms).sessions[k]? = some s) :
    P (({} : World C).after ms).now.time s := by
  induction ms using List.reverseRecOn generalizing s with
  | nil => cases hs
  | append_singleton ms m ih =>
    obtain ⟨hpre, hm, -⟩ := (timely_append _ ms [m]).mp hms
    have hin := InTime.empty.after hpre
    have hin' := hin.move hm
    rw [after_append, after_cons, after_nil] at hs ⊢
    -- the session has its turn at the time before, and then time goes on
    have htime := time_le_move (({} : World C).after ms) m
    have hahead := (hin' s (List.mem_of_getElem? hs)).2
    rcases session_move hs with ⟨s₀, hs₀, ⟨-, rfl⟩ | ⟨d, hd, rfl⟩⟩ | ⟨-, -, hnew⟩
    · exact later _ _ _ htime hahead (ih hpre hs₀)
    · refine later _ _ _ htime hahead ?_
      exact turn ⟨_, s₀, d⟩ (hin.turn hm (by rw [hd]; exact List.mem_singleton_self _))
        (ih hpre hs₀)
    · exact new _ s hnew

/-! ### The world left to itself -/

/-- The world has nothing to do at this time. -/
def AtRest (w : World C) : Prop := w.tick? w.now.time = none

theorem tick?_eq_go? (w : World C) (limit : Nat) : w.tick? limit = w.next.go? limit := rfl

/-- At rest no task waits, and what is due is still to come. -/
theorem AtRest.due {w : World C} (h : w.AtRest) :
    w.tasks = [] ∧ ∀ s ∈ w.sessions, ∀ t, s.due? = some t → w.now.time < t := by
  have hgo : w.next.go? w.now.time = none := h
  obtain ⟨hstir, hdue⟩ := go?_eq_none.mp hgo
  exact ⟨(stir?_eq_none.mp hstir).1, hdue⟩

/-- The next thing that a world does by itself. -/
theorem moves_of_go? {w w' : World C} {limit : Nat} (hw : w.InTime) (h : w.go? limit = some w') :
    w' = w.move .step ∨
    (∃ k, w.tasks = [] ∧ w.IsMindful (.forget k) ∧ w' = w.move (.forget k)) ∨
    (∃ k n s, w.tasks = [] ∧ w.sessions[k]? = some s ∧ s.isStranded = true ∧
      w' = w.move (.lose k n)) ∨
    ∃ t k, Timely w [.pass t, .elapse k] ∧ w' = w.after [.pass t, .elapse k] := by
  by_cases ht : w.tasks = []
  · rcases go?_cases ht h with ⟨k, s, hs, -, hkept, rfl⟩ | ⟨k, s, n, hs, hg, hst, ha, -, rfl⟩ |
      ⟨k, s, t, hs, hd, -, hmin, -, rfl⟩
    · refine .inr (.inl ⟨k, ht, fun s' hs' => ?_, rfl⟩)
      exact Option.some.inj (hs.symm.trans hs') ▸ hkept
    · have hlive : w.live? k = some s := live?_eq_some.mpr ⟨hs, hg⟩
      exact .inr (.inr (.inl ⟨k, n, s, ht, hs, hst, by simp [move, hlive, ha]⟩))
    · have hle : w.now.time ≤ t := (hw s (List.mem_of_getElem? hs)).2.due hd
      refine .inr (.inr (.inr ⟨t, k, ⟨⟨ht, hmin⟩, ⟨ht, s, hs, ?_⟩, trivial⟩, rfl⟩))
      rw [hd]
      exact congrArg some (Nat.max_eq_right hle).symm
  · rw [go?_of_tasks ht] at h
    exact .inl (Option.some.inj h).symm

/-- **A world that is left to itself goes on in time.** -/
theorem exists_settle_eq_timely (limit fuel : Nat) {w : World C} (hw : w.InTime) :
    ∃ ms, w.settle limit fuel = w.after ms ∧ Timely w ms := by
  induction fuel generalizing w with
  | zero => exact ⟨[], rfl, trivial⟩
  | succ fuel ih =>
    unfold settle
    have hnext : w.next.InTime := hw
    split
    -- one step more, whichever it is, made of moves in time
    · rename_i w₁ htick
      obtain ⟨ms, rfl, hms⟩ : ∃ ms, w₁ = w.after ms ∧ Timely w ms := by
        rw [tick?_eq_go?] at htick
        rcases moves_of_go? hnext htick with h | ⟨k, ht, -, h⟩ | ⟨k, n, s, ht, -, -, h⟩ |
          ⟨t, k, htimely, h⟩
        · exact ⟨[.next, .step], h, trivial, trivial, trivial⟩
        · exact ⟨[.next, .forget k], h, trivial, ht, trivial⟩
        · exact ⟨[.next, .lose k n], h, trivial, ht, trivial⟩
        · exact ⟨[.next, .pass t, .elapse k], h, trivial, htimely⟩
      obtain ⟨ms', h', hms'⟩ := ih (hw.after hms)
      exact ⟨ms ++ ms', by rw [h', after_append], (timely_append w ms ms').mpr ⟨hms, hms'⟩⟩
    -- at rest, and time passes up to the limit
    · rename_i htick
      rw [tick?_eq_go?] at htick
      obtain ⟨hstir, hdue⟩ := go?_eq_none.mp htick
      exact ⟨[.pass limit], rfl, ⟨(stir?_eq_none.mp hstir).1,
        fun s hs t ht => Nat.le_of_lt (hdue s hs t ht)⟩, trivial⟩

end Duplex.World
