/-
Duplex/Proofs/Server/Resting.lean

How a message socket comes to rest.

A link is at rest when there is nothing to do for it and no task waits.  Then an
open link has an open session with all its frames on the wire
(`open_of_rests`), so one that has a reason to be left is left (`left_of_rests`).
A link whose session is closed is left when it was looked after twice at most
(`left_of_closed`).  So from any moment on, the tasks that wait and looking after
the link bring it to rest (`exists_rests`).
-/
import Duplex.Proofs.Server.Following
import Duplex.Proofs.World.Rest

namespace Duplex

/-! ### Rest -/

namespace Talk

/-- Nothing is to be done at the moment, neither in the world nor for the link. -/
def Rests (c : Talk) : Prop := c.1.tasks = [] ∧ c.2.pump? c.1 = none

variable {c : Talk} {w : World Conduit} {l : Link} {q : MessageQueue} {s : Session Conduit}

theorem pump?_of_left (ho : l.isOpen = false) : l.pump? w = none := by
  rw [Link.pump?, ho]
  rfl

/-- **A link that is at rest and open has an open session**, and all frames are on the wire. -/
theorem open_of_rests (here : w.sessions[l.session]? = some s) (isOpen : l.isOpen = true)
    (place : l.place = 0) (joined : s.Joined l q) (hrest : l.pump? w = none) :
    w.stopping = false ∧ s.phase ≠ .closed ∧ q.waiting = [] := by
  rw [Link.pump?, if_neg (by simp [isOpen]), live?_of_joined here joined,
    queue?_of_joined here place joined] at hrest
  simp only at hrest
  split at hrest
  · cases hrest
  rename_i hstop
  split at hrest
  · cases hrest
  rename_i hwait
  split at hrest
  · cases hrest
  rename_i hwrite
  have hp : s.phase ≠ .closed := joined.writable.mp (by simpa using hwrite)
  refine ⟨?_, hp, by simpa using hwait⟩
  simpa [hp] using hstop

/-- Looking after a link whose session is closed, what waits goes to the wire, and then the link
is left. -/
theorem pump?_of_closed (here : w.sessions[l.session]? = some s) (isOpen : l.isOpen = true)
    (place : l.place = 0) (joined : s.Joined l q) (hp : s.phase = .closed) :
    l.pump? w = some (if q.waiting.isEmpty then ((l.put .close).put .over).leave w else
      (l.setQueue w { q with waiting := [] }, l.flushed q.waiting)) := by
  have hwritable : q.writable = false := by
    rw [← Bool.not_eq_true, joined.writable]
    simpa using hp
  rw [Link.pump?, if_neg (by simp [isOpen]), live?_of_joined here joined,
    queue?_of_joined here place joined]
  by_cases hq : q.waiting.isEmpty = true
  · simp [hp, hq, hwritable]
  · simp [hp, hq, Link.flushed]

/-- Leaving a closed session is over with the task to close it. -/
theorem tasks_of_leave (here : w.sessions[l.session]? = some s) (place : l.place = 0)
    (joined : s.Joined l q) (hp : s.phase = .closed) (ht : w.tasks = []) :
    ((l.leave w).1.move .step).tasks = [] := by
  have hq := queue?_of_joined here place joined
  have hclose (w' : World Conduit) (s' : Session Conduit)
      (hs : w'.sessions[l.session]? = some s') (hp : s'.phase = .closed) (ht : w'.tasks = []) :
      ((w'.push (.close l.session)).move .step).tasks = [] := by
    show (World.close { w' with tasks := w'.tasks } l.session).tasks = []
    rw [World.close_of_closed hs hp, ht]
  rw [Link.leave, hq]
  refine hclose _ { s with carriers := [.queue { q.drop with ended := true }], held := false } ?_
    hp ht
  simp [Link.setQueue, World.modify, here, place, joined.carriers]

/-- **A link whose session is over is left** when it was looked after twice at most, and then
nothing remains to be done. -/
theorem left_of_closed (hstands : Stands c.1 c.2) (ht : c.1.tasks = [])
    (hs : c.1.sessions[c.2.session]? = some s) (hp : s.phase = .closed) :
    (c.after [.pump, .pump, .world .step]).1.tasks = [] ∧
      (c.after [.pump, .pump, .world .step]).2.isOpen = false := by
  obtain ⟨w, l⟩ := c
  have ht : w.tasks = [] := ht
  have still {w : World Conduit} {l : Link} (h : l.isOpen = false) :
      act (w, l) .pump = (w, l) := by rw [act, pump?_of_left h]; rfl
  have finished {w : World Conduit} {l : Link} : (l.leave w).2.isOpen = false := by
    rw [Link.leave_eq]
  show ((act (act (w, l) .pump) .pump).1.move .step).tasks = [] ∧
    (act (act (w, l) .pump) .pump).2.isOpen = false
  cases hstands with
  | left _ _ isOpen =>
    rw [still isOpen, still isOpen]
    exact ⟨by simp [World.move, World.step, ht], isOpen⟩
  | joined s' q here isOpen place joined =>
    obtain rfl := Option.some.inj (here.symm.trans hs)
    have hpump := pump?_of_closed here isOpen place joined hp
    -- the first pump flushes what is waiting, if anything is; the next one takes leave
    by_cases hq : q.waiting.isEmpty = true
    · have hact : act (w, l) .pump = ((l.put .close).put .over).leave w := by
        rw [act, hpump, if_pos hq]
        rfl
      rw [hact, still finished]
      exact ⟨tasks_of_leave (l := (l.put .close).put .over) here place
        (joined_put (joined_put joined rfl) rfl) hp ht, finished⟩
    · have hact : act (w, l) .pump =
          (l.setQueue w { q with waiting := [] }, l.flushed q.waiting) := by
        rw [act, hpump, if_neg hq]
        rfl
      have here' := here_flushed here place joined
      have joined' := joined_flushed joined
      rw [hact, act, pump?_of_closed (l := l.flushed q.waiting) here' isOpen place joined' hp]
      exact ⟨tasks_of_leave (l := ((l.flushed q.waiting).put .close).put .over) here' place
        (joined_put (joined_put joined' rfl) rfl) hp ht, finished⟩

/-- At rest, a link that has a reason to be left is left. -/
theorem left_of_rests (h : Stands c.1 c.2) (hrest : c.Rests)
    (hcause : c.2.IsDeaf ∨ c.1.stopping = true ∨
      ∃ s, c.1.sessions[c.2.session]? = some s ∧ s.isClosed = true) : c.2.isOpen = false := by
  cases h with
  | left _ _ isOpen => exact isOpen
  | joined s q here isOpen place joined quiet deaf =>
    obtain ⟨hrunning, hp, -⟩ := open_of_rests here isOpen place joined hrest.2
    rcases hcause with hdeaf | hstopping | ⟨s', hs', hc⟩
    · rcases hdeaf with ho | hl
      · exact ho
      · rcases deaf hl with hclosed | ⟨hmem, -⟩
        · exact absurd hclosed hp
        · rw [hrest.1] at hmem
          cases hmem
    · cases hrunning.symm.trans hstopping
    · obtain rfl := Option.some.inj (here.symm.trans hs')
      simp [Session.isClosed, hp, joined.gone] at hc

/-! ### What ends a session -/

/-- When the last was heard, the task to close the session is on top, if any. -/
theorem tasks_of_last {a : Act} {m : ClientMessage} (ha : a.voice? = some m) (hm : m.isLast = true)
    (ht : c.1.tasks = []) :
    (c.act a).1.tasks = [] ∨ (c.act a).1.tasks = [.close c.2.session] := by
  have left : (c.1.after (c.2.leaving c.1)).tasks = [.close c.2.session] := by
    rw [Link.leaving]
    rcases c.2.queue? c.1 with - | q
    · simp [World.after, World.move, World.modify, World.push, ht]
    · simp [World.after, World.move, World.modify, World.push, ht]
  rw [fst_act]
  have h := does_act c a
  generalize c.movesOf a = ms, (c.act a).2 = l' at h ⊢
  cases h with
  | world | rests | stops | flushes | dismisses => cases ha
  | deaf | idle | answers | late | gone => exact .inl ht
  | ends | abandons => exact .inr left
  | rejects => exact .inr (by simp [World.after, World.move, World.push, ht])
  -- a payload that cannot be read gives the session up, if it is there
  | refuses value full _ shaped unread =>
    simp only [World.after_cons, World.after_nil, World.move]
    split
    · exact .inl ht
    · exact .inr (by simp [World.feed, unread, World.receive, World.push, ht])
  -- this is not the last to be heard
  | takes value full shaped messages read =>
    obtain rfl := Option.some.inj ha
    simp [ClientMessage.isLast, shaped, read] at hm

/-- A deaf link has a session that is closed or about to. -/
theorem closing_of_deaf (h : Stands c.1 c.2) (hdeaf : c.2.IsDeaf) :
    ∃ s, c.1.sessions[c.2.session]? = some s ∧ c.1.IsClosing c.2.session s := by
  rcases h with ⟨s, q, here, isOpen, -, -, -, deaf⟩ | ⟨s, here, -, -, closing⟩
  · refine ⟨s, here, deaf (hdeaf.resolve_left ?_)⟩
    rw [isOpen]
    decide
  · exact ⟨s, here, closing⟩

/-- **The session is closed with the next step when the last was heard.** -/
theorem closed_at_once (h : Stands c.1 c.2) {ms : List (Move Conduit)}
    (hrun : c.1 = ({} : World Conduit).after ms) {a : Act} (hproper : c.IsProper a)
    {m : ClientMessage} (ha : a.voice? = some m) (hm : m.isLast = true) :
    ∃ s, (c.after [a, .world .step]).1.sessions[c.2.session]? = some s ∧ s.phase = .closed := by
  have ht := hproper.tasks ha
  obtain ⟨s, hs, hclosing⟩ := closing_of_deaf (h.act ⟨ms, hrun⟩ hproper) (deaf_of_last ha hm)
  rw [session_act] at hs hclosing
  show ∃ s, ((c.act a).1.move .step).sessions[c.2.session]? = some s ∧ s.phase = .closed
  rcases hclosing with hp | ⟨hmem, hg⟩
  · exact World.session_after_of_kept (Q := fun s => s.phase = .closed)
      (fun _ now d hp => Session.closed_does hp now d) hs hp [.step]
  · rcases tasks_of_last ha hm ht with ht' | ht'
    · rw [ht'] at hmem
      cases hmem
    · exact World.closed_of_top hs hg (by rw [ht']; rfl)

/-- A session that was asked to close is over between tasks. -/
theorem closed_of_asks {w : World Conduit} {k : Nat} (hs : w.sessions[k]? = some s)
    {m : Move Conduit} {pre post : List (Move Conduit)} (hm : m.Asks k (w.after pre))
    (ht : (w.after (pre ++ m :: post)).tasks = []) :
    ∃ s', (w.after (pre ++ m :: post)).sessions[k]? = some s' ∧ s'.isClosed = true := by
  obtain ⟨s₁, hs₁, -⟩ := World.session_after_of_kept (Q := fun _ => True)
    (fun _ _ _ _ => trivial) hs trivial pre
  have kept (s : Session Conduit) (now : Moment) (d : Session.Deed Conduit)
      (hc : s.isClosed = true) : (s.does now d).isClosed = true := Session.isClosed_does hc now d
  rw [World.after_append] at ht ⊢
  rcases hg : s₁.gone with - | -
  · obtain ⟨above, rest, htasks, -⟩ := World.tasks_of_asks (World.live?_eq_some.mpr ⟨hs₁, hg⟩) hm
    obtain ⟨s₂, hs₂, -⟩ := World.session_after_of_kept (Q := fun _ => True)
      (fun _ _ _ _ => trivial) hs₁ trivial [m]
    have hmem : .close k ∈ ((w.after pre).after [m]).tasks := by
      rw [World.after_cons, World.after_nil, htasks]
      simp
    rcases World.close_waits hs₂ hmem post with h | h
    · rw [World.after_cons] at ht
      rw [World.after_cons, World.after_nil, ht] at h
      cases h
    · exact h
  · exact World.session_after_of_kept kept hs₁ (by simp [Session.isClosed, hg]) _

/-! ### Coming to rest -/

theorem exists_steps_of_runs {w' : World Conduit} (h : World.Runs id w w') :
    ∃ n, w' = w.after (List.replicate n .step) := by
  induction h with
  | refl => exact ⟨0, rfl⟩
  | step _ _ ih =>
    obtain ⟨n, hn⟩ := ih
    exact ⟨n + 1, hn⟩

/-- What is done to come to rest: the tasks that wait, and looking after the link. -/
def IsSettling (a : Act) : Prop := a = .pump ∨ a = .world .step

/-- Such acts are always there to be done. -/
theorem proper_of_settling {rest : List Act} (h : ∀ a ∈ rest, IsSettling a) : c.Proper rest := by
  induction rest generalizing c with
  | nil => trivial
  | cons a rest ih =>
    refine ⟨?_, ih fun a' ha => h a' (List.mem_cons_of_mem _ ha)⟩
    rcases h a List.mem_cons_self with rfl | rfl
    · trivial
    · exact ⟨trivial, trivial, rfl⟩

theorem after_steps (c : Talk) (n : Nat) :
    c.after (List.replicate n (.world .step)) = (c.1.after (List.replicate n .step), c.2) := by
  induction n generalizing c with
  | zero => rfl
  | succ n ih => exact ih (c.act (.world .step))

/-- Tasks come to an end. -/
theorem exists_steps (h : c.1.Orderly) : ∃ n,
    (c.after (List.replicate n (.world .step))).1.tasks = [] ∧
      (c.after (List.replicate n (.world .step))).1.Orderly := by
  obtain ⟨w', hruns, ht, horderly, -⟩ : ∃ w', World.Runs id c.1 w' ∧ _ := h.ends 0
  obtain ⟨n, rfl⟩ := exists_steps_of_runs hruns
  exact ⟨n, by rw [after_steps]; exact ht, by rw [after_steps]; exact horderly⟩

/-- The acts from here on bring the link to rest. -/
def Settles (c : Talk) : Prop := ∃ rest, (∀ a ∈ rest, IsSettling a) ∧ (c.after rest).Rests

theorem Settles.of_after {first : List Act} (hfirst : ∀ a ∈ first, IsSettling a)
    (h : (c.after first).Settles) : c.Settles := by
  obtain ⟨rest, hrest, h⟩ := h
  refine ⟨first ++ rest, fun a ha => ?_, ?_⟩
  · exact (List.mem_append.mp ha).elim (hfirst a) (hrest a)
  · rw [after, List.foldl_append]
    exact h

theorem Settles.of_closed (hstands : Stands c.1 c.2) (ht : c.1.tasks = [])
    (hs : c.1.sessions[c.2.session]? = some s) (hp : s.phase = .closed) : c.Settles := by
  obtain ⟨ht', ho⟩ := left_of_closed hstands ht hs hp
  refine ⟨[.pump, .pump, .world .step], ?_, ht', pump?_of_left ho⟩
  simp [IsSettling]

/-- Between tasks, the server goes on and the session is open: what waits goes to the wire. -/
theorem Settles.of_running {w : World Conduit} {l : Link} (ht : w.tasks = [])
    (here : w.sessions[l.session]? = some s) (isOpen : l.isOpen = true) (place : l.place = 0)
    (joined : s.Joined l q) (hp : s.phase ≠ .closed) (running : w.stopping = false) :
    Settles (w, l) := by
  -- while the server runs, a pump does nothing but flush
  have hpump {w : World Conduit} {l : Link} {q : MessageQueue} {s : Session Conduit}
      (here : w.sessions[l.session]? = some s) (isOpen : l.isOpen = true) (place : l.place = 0)
      (joined : s.Joined l q) (hp : s.phase ≠ .closed) (running : w.stopping = false) :
      l.pump? w = if q.waiting.isEmpty then none else
        some (l.setQueue w { q with waiting := [] }, l.flushed q.waiting) := by
    rw [Link.pump?, if_neg (by simp [isOpen]), live?_of_joined here joined,
      queue?_of_joined here place joined]
    by_cases hq : q.waiting.isEmpty = true
    · simp [running, hq, joined.writable.mpr hp]
    · simp [running, hq, Link.flushed]
  have hfirst := hpump here isOpen place joined hp running
  by_cases hq : q.waiting.isEmpty = true
  · exact ⟨[], by simp, ht, by rw [Talk.after, List.foldl_nil, hfirst, if_pos hq]⟩
  · rw [if_neg hq] at hfirst
    refine ⟨[.pump], by simp [IsSettling], ?_⟩
    show Rests (act (w, l) .pump)
    rw [act, hfirst]
    refine ⟨ht, ?_⟩
    show (l.flushed q.waiting).pump? (l.setQueue w { q with waiting := [] }) = none
    have here' := here_flushed here place joined
    rw [hpump (l := l.flushed q.waiting) here' isOpen place (joined_flushed joined) hp running]
    rfl

/-- When the server is shut down, the session is told to close, and what it leaves to do is done. -/
theorem Settles.of_stopping {w : World Conduit} {l : Link}
    (hrun : ∃ ms, w = ({} : World Conduit).after ms) (horderly : w.Orderly) (hstands : Stands w l)
    (here : w.sessions[l.session]? = some s) (isOpen : l.isOpen = true) (place : l.place = 0)
    (joined : s.Joined l q) (hp : s.phase ≠ .closed) (stopping : w.stopping = true) :
    Settles (w, l) := by
  obtain ⟨ms, hrun⟩ := hrun
  -- the pump asks the session to close
  have hpump : act (w, l) .pump = (w.push (.close l.session), l) := by
    rw [act, Link.pump?, if_neg (by simp [isOpen]), live?_of_joined here joined]
    simp [queue?_of_joined here place joined, stopping, hp]
  -- the tasks that this leads to are run to the end
  obtain ⟨n, ht', -⟩ := exists_steps (c := (w.push (.close l.session), l))
    ⟨horderly.wound, horderly.tame, fun t hmem => by
      rcases List.mem_cons.mp hmem with rfl | hmem
      · trivial
      · exact horderly.tasks t hmem⟩
  have hfirst : ∀ a ∈ .pump :: List.replicate n (.world .step), IsSettling a := by
    intro a ha
    rcases List.mem_cons.mp ha with rfl | ha
    · exact .inl rfl
    · exact .inr (List.eq_of_mem_replicate ha)
  refine .of_after hfirst ?_
  have hafter : (Talk.after (w, l) (.pump :: List.replicate n (.world .step))) =
      ((w.push (.close l.session)).after (List.replicate n .step), l) := by
    show Talk.after (act (w, l) .pump) _ = _
    rw [hpump, after_steps]
  have hstands' := hstands.after (c := (w, l)) hrun (proper_of_settling hfirst)
  rw [after_steps] at ht'
  rw [hafter] at hstands' ⊢
  obtain ⟨s', hs', hc⟩ : ∃ s', ((w.push (.close l.session)).after
      (List.replicate n .step)).sessions[l.session]? = some s' ∧ s'.isClosed = true := by
    rcases World.close_waits (w := w.push (.close l.session)) here List.mem_cons_self
      (List.replicate n .step) with hmem | h
    · rw [ht'] at hmem
      cases hmem
    · exact h
  -- the session is closed then, and the link takes leave of it
  have hstands₁ := hstands'
  cases hstands₁ with
  | left _ _ ho => cases ho.symm.trans isOpen
  | joined s₁ q₁ here₁ _ _ joined₁ =>
    obtain rfl := Option.some.inj (here₁.symm.trans hs')
    have hp₁ : s₁.phase = .closed := by simpa [Session.isClosed, joined₁.gone] using hc
    exact .of_closed hstands' ht' hs' hp₁

/-- **Every connection comes to rest**, when applications use nothing but sockets. -/
theorem exists_rests {ms : List (Move Conduit)} (hstands : Stands c.1 c.2)
    (hrun : c.1 = ({} : World Conduit).after ms) (horderly : c.1.Orderly) : c.Settles := by
  -- first the tasks that wait
  obtain ⟨n, ht, horderly'⟩ := exists_steps horderly
  have hfirst : ∀ a ∈ List.replicate n (.world .step), IsSettling a := fun a ha =>
    .inr (List.eq_of_mem_replicate ha)
  refine .of_after hfirst ?_
  have hstands' := hstands.after hrun (proper_of_settling hfirst)
  have hrun' := run_after hrun (List.replicate n (.world .step))
  generalize c.after (List.replicate n (.world .step)) = c' at *
  have still := hstands'
  cases still with
  | left _ _ ho => exact ⟨[], by simp, ht, pump?_of_left ho⟩
  | joined s q here isOpen place joined =>
    by_cases hp : s.phase = .closed
    · exact .of_closed hstands' ht here hp
    rcases hstop : c'.1.stopping with - | -
    · exact .of_running ht here isOpen place joined hp hstop
    · exact .of_stopping ⟨_, hrun'⟩ horderly' hstands' here isOpen place joined hp hstop

end Talk

end Duplex
