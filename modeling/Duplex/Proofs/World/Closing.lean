/-
Duplex/Proofs/World/Closing.lean

Closing happens once, and for good.

There are many causes: the server or the application closes the session, at any
depth of handlers; a payload cannot be read; no carrier comes in time; all
sessions are closed.  Each of them puts the same task on top of the others
(`tasks_of_asks`), and that task waits until the session is closed
(`close_waits`).  `move_of_closing` says what the task does the first time, and
`Over` what is left to do with the session afterwards: nothing that a task or a
move does to it makes any difference, but to the carriers that still come.

`closing_of_run` puts this together with the farewells of the session.
-/
import Duplex.Proofs.Session.Dealings
import Duplex.Proofs.Session.Farewell
import Duplex.Proofs.Session.Inbound
import Duplex.Proofs.World.Registered

namespace Duplex

variable {C : Type}

namespace World

open Session

variable [Carrier C]

/-! ### Causes -/

/-- **Every cause puts the task to close the session on top**, or under those that close others. -/
theorem tasks_of_asks {w : World C} {m : Move C} {k : Nat} {s : Session C}
    (hl : w.live? k = some s) (h : m.Asks k w) :
    ∃ above rest, (w.move m).tasks = above.map .close ++ .close k :: rest ∧
      (m.isGeneral = false → above = []) := by
  cases m with
  | close j =>
    obtain rfl : j = k := h
    exact ⟨[], w.tasks, rfl, fun _ => rfl⟩
  | feed j payload =>
    obtain ⟨rfl, hm⟩ := h
    exact ⟨[], w.tasks, by simp [move, hl, feed, hm, receive, push], fun _ => rfl⟩
  | elapse j =>
    obtain ⟨rfl, hb⟩ := h
    exact ⟨[], w.tasks, by simp [move, elapse, hb, push], fun _ => rfl⟩
  -- an action of a program asks, and leaves the rest of the program below
  | step =>
    obtain ⟨p, rest, ht, h⟩ := h
    have hl' : ({ w with tasks := rest } : World C).live? k = some s := hl
    cases p with
    | close j next =>
      obtain rfl : j = k := h
      exact ⟨[], .act next :: rest, by simp [move, step, ht, perform, act, push], fun _ => rfl⟩
    | feed j payload next =>
      obtain ⟨rfl, hm⟩ := h
      refine ⟨[], .act (next (some .malformedFrame)) :: rest, ?_, fun _ => rfl⟩
      simp [move, step, ht, perform, hl', hm, receive, act, push, verdict]
    | _ => exact absurd h (by simp [Program.Asks])
  -- the session has its task among those of the other registered ones
  | closeAll | shutdown =>
    obtain ⟨id, he⟩ := h
    obtain ⟨before, after, hr⟩ := List.append_of_mem he
    refine ⟨before.map (·.2), after.map (fun e => .close e.2) ++ w.tasks, ?_, fun hg => by cases hg⟩
    simp [move, shutdown, closeAll, hr]
  | _ => exact absurd h (by simp [Move.Asks])

/-- A session that something keeps is closed by the task made for it. -/
theorem isClosed_of_close {w : World C} {k : Nat} {s : Session C} (hs : w.sessions[k]? = some s)
    (ht : w.tasks.head? = some (.close k)) :
    ∃ s', (w.move .step).sessions[k]? = some s' ∧ s'.isClosed = true := by
  have hd : Move.deed? w.tasks (.step : Move C) = some (k, .depart) := by
    simp [Move.deed?, ht, Task.deed?]
  have hturn : ⟨w.now, s, .depart⟩ ∈ turnOf k w .step := mem_turnOf.mpr ⟨hs, rfl, hd⟩
  refine ⟨_, session_of_turn hturn, ?_⟩
  rcases hg : s.gone with - | -
  · simp [Turn.after, isClosed, phase_does, phaseAfter, hg]
  · simp [Turn.after, Session.does, isClosed, hg]

/-- **A task to close a session waits until the session is over.** -/
theorem close_waits {w : World C} {k : Nat} {s : Session C} (hs : w.sessions[k]? = some s)
    (ht : .close k ∈ w.tasks) (ms : List (Move C)) :
    .close k ∈ (w.after ms).tasks ∨
      ∃ s', (w.after ms).sessions[k]? = some s' ∧ s'.isClosed = true := by
  induction ms generalizing w s with
  | nil => exact .inl ht
  | cons m ms ih =>
    by_cases htop : m = .step ∧ w.tasks.head? = some (.close k)
    · obtain ⟨rfl, htop⟩ := htop
      obtain ⟨s', hs', hc⟩ := isClosed_of_close hs htop
      have kept (s : Session C) (now : Moment) (d : Deed C) (hc : s.isClosed = true) :
          (s.does now d).isClosed = true := isClosed_does hc now d
      exact .inr (session_after_of_kept kept hs' hc ms)
    · obtain ⟨s', hs', -⟩ := session_after_of_kept (Q := fun _ => True) (fun _ _ _ _ => trivial) hs
        trivial [m]
      exact ih hs' (mem_move ht fun hm h => htop ⟨hm, h⟩)

/-! ### After closing -/

omit [Carrier C] in
theorem modify_eq_modify {w : World C} {k : Nat} {s : Session C} (hs : w.sessions[k]? = some s)
    {f g : Session C → Session C} (h : f s = g s) : w.modify k f = w.modify k g := by
  rw [modify, modify, modify_congr_of_some hs h]

omit [Carrier C] in
/-- To change a session into itself is to change nothing. -/
theorem modify_eq_self {w : World C} {k : Nat} {s : Session C} (hs : w.sessions[k]? = some s)
    {f : Session C → Session C} (hf : f s = s) : w.modify k f = w := by
  rw [modify, modify_eq_of_fixed_some hs hf]

variable {w : World C} {k : Nat} {s : Session C}

omit [Carrier C] in
/-- A closed session gives nothing out. -/
theorem drain_of_closed (hs : w.sessions[k]? = some s) (hp : s.phase = .closed) :
    w.drain k = w := by
  have hnone : (w.live? k).bind (·.deliver? w.now) = none := by
    rcases live?_cases hs with hl | hl
    · simp [hl]
    · simp [hl, deliver?, hp]
  simp [drain, hnone]

/-- What is written is refused, and the program goes on with the refusal. -/
theorem step_write_of_closed (hs : w.sessions[k]? = some s) (hp : s.phase = .closed)
    {message : String} {next : Option WriteError → Program} {rest : List Task}
    (ht : w.tasks = .act (.write k message next) :: rest) :
    w.step = { w with tasks := .act (next (some .closed)) :: rest } := by
  simp only [step, ht, perform]
  rcases live?_cases (w := { w with tasks := rest }) hs with hl | hl
  · simp only [hl]
    rfl
  · simp only [hl, write_of_closed hp]
    rw [modify_eq_self (w := { w with tasks := rest }) hs rfl]
    rfl

/-- What a payload sets off is over with the next step, whether it can be read or not. -/
theorem step_receive_of_closed (hs : w.sessions[k]? = some s) (hp : s.phase = .closed)
    (messages : Option (List String)) : (w.receive k messages).step = w := by
  cases messages with
  | none => exact close_of_closed hs hp
  | some messages =>
    have hsame : w.modify k (·.receive w.now messages) = w :=
      modify_eq_self hs (by simp [Session.receive, hp])
    rw [receive, hsame]
    exact drain_of_closed hs hp

/-- A carrier that comes to a closed session is turned away, and the application is not told. -/
theorem attach_of_closed (hl : w.live? k = some s) (hp : s.phase = .closed) {n : Nat} {c : C}
    (hc : s.carriers[n]? = some c) : w.attach k n = w.modify k (·.turnAway w.now n c) := by
  have hnot : s.phase ≠ .fresh := by simp [hp]
  simp only [attach, hl, if_neg hnot]
  exact modify_eq_modify (live?_eq_some.mp hl).1 (attach_closed_eq hp hc w.now)

theorem register_of_closed (hl : w.live? k = some s) (hp : s.phase = .closed) (c : C) :
    w.register k c =
      w.modify k fun s => (s.addCarrier c).turnAway w.now s.carriers.length c := by
  obtain ⟨hs, hg⟩ := live?_eq_some.mp hl
  have hl' : (w.modify k (·.addCarrier c)).live? k = some (s.addCarrier c) :=
    live?_eq_some.mpr ⟨by simp [hs], hg⟩
  have hc : (s.addCarrier c).carriers[s.carriers.length]? = some c := by simp [addCarrier]
  have hboth : (w.modify k (·.addCarrier c)).modify k
      (·.turnAway w.now s.carriers.length c) =
      w.modify k fun s' => (s'.addCarrier c).turnAway w.now s.carriers.length c := by
    simp only [modify, List.modify_modify_eq]
    rfl
  simp only [register, hl]
  rw [attach_of_closed hl' hp hc]
  exact hboth.trans (modify_eq_modify hs rfl)

/-- Session `s`, the `k`th one of a world, is over. -/
structure Over (k : Nat) (w : World C) (s : Session C) : Prop where
  /-- Nothing is attached, nothing waits and nothing is due. -/
  spent : s.Spent
  /-- It cannot be found any more. -/
  entry : ∀ e ∈ w.registry, e.2 ≠ k
  /-- It does nothing by itself, and hears of no connection that goes away. -/
  quiet : s.due? = none
  lose : ∀ n, w.move (.lose k n) = w
  /-- It remains what it is, whatever happens. -/
  still : ∀ ms, ∃ s', (w.after ms).sessions[k]? = some s' ∧ s.Remains s'
  /-- No message is given to the application. -/
  silent : ∀ ms, given (turns k w ms) = []
  /-- Writing is refused, and that is all. -/
  written : ∀ message next rest, w.tasks = .act (.write k message next) :: rest →
    w.step = { w with tasks := .act (next (some .closed)) :: rest }
  /-- A payload is refused if it cannot be read; it changes nothing. -/
  fed : ∀ payload, (w.feed k payload).1.step = w ∧
    (w.feed k payload).2 =
      if (Payload.messages? payload).isSome then none else some .malformedFrame
  /-- The same when the application feeds it. -/
  fedInside : s.gone = false → ∀ payload next rest, w.tasks = .act (.feed k payload next) :: rest →
    w.step.step = { w with tasks := .act (next (w.feed k payload).2) :: rest }
  /-- Closing again changes nothing. -/
  closed : (w.move (.close k)).step = w
  closedInside : ∀ next rest, w.tasks = .act (.close k next) :: rest →
    w.step.step = { w with tasks := .act next :: rest }
  /-- A carrier that comes is told to go away and finished; the application is not told. -/
  register : s.gone = false → ∀ c, w.move (.register k c) =
    w.modify k fun s => (s.addCarrier c).turnAway w.now s.carriers.length c
  again : s.gone = false → ∀ n c, s.carriers[n]? = some c →
    w.move (.again k n) = w.modify k (·.turnAway w.now n c)

/-- **A closed session without an entry is over.** -/
theorem over_of_closed (hs : w.sessions[k]? = some s) (hp : s.phase = .closed) (hspent : s.Spent)
    (he : ∀ e ∈ w.registry, e.2 ≠ k) : Over k w s := by
  have live (hg : s.gone = false) : w.live? k = some s := live?_eq_some.mpr ⟨hs, hg⟩
  refine ⟨hspent, he, hspent.due?, ?lose, ?still, ?silent, ?written, ?fed, ?fedInside, ?closed,
    ?closedInside, ?register, ?again⟩
  case lose =>
    intro n
    exact lose_of_not_attached hs (by simp [hspent.attached])
  case still =>
    intro ms
    refine session_after_of_kept (Q := s.Remains) ?_ hs (remains_refl s) ms
    intro s' now d h
    refine h.trans (remains_does ?_ (hspent.of_remains h) now d)
    obtain ⟨_, _, _, _, _, _, _, _, _, rfl⟩ := h
    exact hp
  case silent =>
    intro ms
    exact given_of_closed ms hs hp
  case written =>
    intro message next rest ht
    exact step_write_of_closed hs hp ht
  case fed =>
    intro payload
    refine ⟨step_receive_of_closed hs hp _, ?_⟩
    rcases hm : Payload.messages? payload with - | messages
    · simp [feed, hm, verdict]
    · simp [feed, hm, verdict]
  case fedInside =>
    intro hg payload next rest ht
    have hl : ({ w with tasks := rest } : World C).live? k = some s := live hg
    simp only [step, ht, perform, hl]
    exact step_receive_of_closed (w := ({ w with tasks := rest } : World C).act _) hs hp _
  case closed =>
    exact close_of_closed (w := { w with tasks := w.tasks }) hs hp
  case closedInside =>
    intro next rest ht
    simp only [step, ht, perform]
    exact close_of_closed (w := ({ w with tasks := rest } : World C).act next) hs hp
  case register =>
    intro hg c
    exact register_of_closed (live hg) hp c
  case again =>
    intro hg n c hc
    have hn := (List.getElem?_eq_some_iff.mp hc).1
    simp only [move, live hg, hn, if_true]
    exact attach_of_closed (live hg) hp hc

/-! ### Farewells as tasks -/

omit [Carrier C] in
/-- Farewells are set by programs. -/
theorem onClose_of_setFarewell {m : Move C} {p : Program}
    (hm : m.deed? w.tasks = some (k, .setFarewell p)) :
    m = .step ∧ ∃ next rest, w.tasks = .act (.onClose k p next) :: rest := by
  obtain ⟨rfl, t, rest, htasks, ht⟩ := Move.step_of_isTask hm rfl
  cases t with
  | act q =>
    cases q with
    | onClose j handler next =>
      cases ht
      exact ⟨rfl, next, rest, htasks⟩
    | feed j payload next =>
      obtain ⟨_, -, he⟩ := Option.map_eq_some_iff.mp ht
      cases he
    | _ => cases ht
  | _ => cases ht

/-- **The first close**: the world after it. -/
structure Closes (k : Nat) (w : World C) (m : Move C) (t : Turn C) : Prop where
  /-- The attached carrier is told to go away, once, and finished; nothing else passes. -/
  told : ∃ d, Deals t.before
    (t.before.attached.toList.flatMap fun n => [.handed n .goAway d, .finished n]) t.after
  /-- Queues, clocks and handlers are dropped. -/
  emptied : t.after.Emptied
  /-- Its own entry goes, and its farewell is the next task. -/
  world : m = .step ∧ ∃ rest, w.tasks = .close k :: rest ∧
    w.move m = { w with
      sessions := w.sessions.modify k fun _ => t.after
      registry := w.registry.filter (·.2 != k)
      tasks := (t.before.farewell.toList.map fun f => .act f.2) ++ rest }

theorem closes_of_closing {m : Move C} {t : Turn C} (ht : t ∈ turnOf k w m)
    (hs : t.before.Seated) (hp : t.before.phase ≠ .closed) (hp' : t.after.phase = .closed) :
    Closes k w m t := by
  refine ⟨?_, Turn.emptied_of_closing hp hp', ?_⟩
  · rw [Turn.after_of_closing hp hp']
    exact deals_depart hs hp t.now
  · obtain ⟨hm, rest, htasks, hw⟩ := move_of_closing ht hp hp'
    refine ⟨hm, rest, htasks, ?_⟩
    rw [hw, depart_snd hp]
    rcases t.before.farewell with - | f
    · rfl
    · rfl

omit [Carrier C] in
theorem tasks_actIf (w : World C) (f : Option (Nat × Program)) :
    (w.actIf (f.map (·.2))).tasks = (f.toList.map fun f => .act f.2) ++ w.tasks := by
  cases f <;> rfl

/-- **What is run at the end is the next task**, and nothing else is. -/
theorem tasks_of_depart {m : Move C} {t : Turn C} (ht : t ∈ turnOf k w m)
    (hd : t.deed = .depart) :
    ∃ rest, w.tasks = .close k :: rest ∧
      (w.move m).tasks = (t.parting?.toList.map fun f => .act f.2) ++ rest := by
  obtain ⟨hs, -, hdeed⟩ := mem_turnOf.mp ht
  rw [hd] at hdeed
  obtain ⟨rfl, rest, htasks⟩ := close_of_depart hdeed
  refine ⟨rest, htasks, ?_⟩
  simp only [move, step, htasks]
  rcases hg : t.before.gone with - | -
  · have hl : ({ w with tasks := rest } : World C).live? k = some t.before :=
      live?_eq_some.mpr ⟨hs, hg⟩
    by_cases hp : t.before.phase = .closed
    · have hnone : t.parting? = none := by simp [Turn.parting?, hd, isClosed, hp]
      simp [close, hl, hp, hnone]
    · rw [close_of_live hl hp, t.depart_snd hd hg, tasks_actIf]
      rfl
  -- nobody is left to close it
  · have hl : ({ w with tasks := rest } : World C).live? k = none := by
      simp [live?, hs, hg]
    have hnone : t.parting? = none := by simp [Turn.parting?, hd, isClosed, hg]
    simp [close, hl, hnone]

/-- **A farewell that comes too late is the next task**, before the rest of the program. -/
theorem tasks_of_setFarewell {m : Move C} {t : Turn C} (ht : t ∈ turnOf k w m) {p : Program}
    (hd : t.deed = .setFarewell p) :
    ∃ next rest, w.tasks = .act (.onClose k p next) :: rest ∧
      (w.move m).tasks = (t.parting?.toList.map fun f => .act f.2) ++ .act next :: rest := by
  obtain ⟨hs, -, hdeed⟩ := mem_turnOf.mp ht
  rw [hd] at hdeed
  obtain ⟨rfl, next, rest, htasks⟩ := onClose_of_setFarewell hdeed
  refine ⟨next, rest, htasks, ?_⟩
  simp only [move, step, htasks, perform]
  rcases hg : t.before.gone with - | -
  · have hl : ({ w with tasks := rest } : World C).live? k = some t.before :=
      live?_eq_some.mpr ⟨hs, hg⟩
    simp only [hl]
    rw [t.setFarewell_snd hd hg, tasks_actIf]
    rfl
  -- nothing keeps the session: what is set is run at once
  · have hl : ({ w with tasks := rest } : World C).live? k = none := by
      simp [live?, hs, hg]
    have hrun : t.parting? = some (t.before.farewells, p) := by
      simp [Turn.parting?, hd, isClosed, hg]
    simp [hl, hrun, act, push, modify]

/-! ### Runs -/

/-- The end of session `s`, the `k`th one of a run. -/
structure Closing (k : Nat) (ms : List (Move C)) (s : Session C) : Prop where
  /-- Every cause puts the task to close the session on top, or under those that close others. -/
  asked : ∀ pre m post, ms = pre ++ m :: post →
    ∀ s₀, (({} : World C).after pre).live? k = some s₀ → m.Asks k (({} : World C).after pre) →
    ∃ above rest, (({} : World C).after (pre ++ [m])).tasks = above.map .close ++ .close k :: rest ∧
      (m.isGeneral = false → above = [])
  /-- The task waits until the session is over. -/
  waits : ∀ pre post, ms = pre ++ post →
    ∀ s₀, (({} : World C).after pre).sessions[k]? = some s₀ →
    .close k ∈ (({} : World C).after pre).tasks →
    .close k ∈ (({} : World C).after ms).tasks ∨ s.isClosed = true
  /-- When it is on top, the next step closes the session. -/
  obeyed : (({} : World C).after ms).tasks.head? = some (.close k) →
    ∃ s', ((({} : World C).after ms).move .step).sessions[k]? = some s' ∧ s'.isClosed = true
  /-- What the first close does. -/
  closes : ∀ pre m post, ms = pre ++ m :: post → ∀ t ∈ turnOf k (({} : World C).after pre) m,
    t.before.phase ≠ .closed → t.after.phase = .closed → Closes k (({} : World C).after pre) m t
  /-- It closes at one turn, and what is run is the farewell set last before that, and every one set
  since. -/
  once : s.phase = .closed → ∃ pre t post, turns k {} ms = pre ++ t :: post ∧
    (∀ t' ∈ pre, t'.after.phase ≠ .closed) ∧ t.before.phase ≠ .closed ∧ t.after.phase = .closed ∧
    (∀ t' ∈ post, t'.before.phase = .closed) ∧
    partings (turns k {} ms) = (farewellsSet pre).getLast?.toList ++ farewellsSet post
  /-- Nothing is run while it is open. -/
  unparted : s.isClosed = false → partings (turns k {} ms) = []
  /-- No farewell is run twice: each has a number of its own, and those run are some of those set,
  in order. -/
  numbered : ((farewellsSet (turns k {} ms)).map (·.1)).Nodup
  within : (partings (turns k {} ms)).Sublist (farewellsSet (turns k {} ms))
  /-- What is run when a session closes is the next task, and nothing else is. -/
  run : ∀ pre m post, ms = pre ++ m :: post → ∀ t ∈ turnOf k (({} : World C).after pre) m,
    t.deed = .depart → ∃ rest, (({} : World C).after pre).tasks = .close k :: rest ∧
      (({} : World C).after (pre ++ [m])).tasks =
        (t.parting?.toList.map fun f => .act f.2) ++ rest
  /-- What is run when it is set is the next task, before the rest of the program. -/
  atOnce : ∀ pre m post, ms = pre ++ m :: post → ∀ t ∈ turnOf k (({} : World C).after pre) m,
    ∀ p, t.deed = .setFarewell p →
    ∃ next rest, (({} : World C).after pre).tasks = .act (.onClose k p next) :: rest ∧
      (({} : World C).after (pre ++ [m])).tasks =
        (t.parting?.toList.map fun f => .act f.2) ++ .act next :: rest
  /-- From then on and for ever it is over. -/
  terminal : s.phase = .closed → ∀ ms', ∃ s',
    (({} : World C).after (ms ++ ms')).sessions[k]? = some s' ∧ s.Remains s' ∧
    Over k (({} : World C).after (ms ++ ms')) s'

/-- **Closing happens once, and for good**, in every run, with carriers of any kind and from any
cause, at every depth of handlers. -/
theorem closing_of_run (ms : List (Move C)) {k : Nat} {s : Session C}
    (hs : (({} : World C).after ms).sessions[k]? = some s) : Closing k ms s := by
  have hfare := farewells_of_run ms hs
  refine ⟨?asked, ?waits, ?obeyed, ?closes, hfare.done, fun hc => (hfare.waiting hc).1, hfare.nodup,
    hfare.once, ?run, ?atOnce, ?terminal⟩
  case asked =>
    intro pre m post _ s₀ hl h
    rw [after_append]
    exact tasks_of_asks hl h
  case waits =>
    rintro pre post rfl s₀ hs₀ ht
    rw [after_append] at hs ⊢
    refine (close_waits hs₀ ht post).imp_right ?_
    rintro ⟨s', hs', hc⟩
    obtain rfl := Option.some.inj (hs.symm.trans hs')
    exact hc
  case obeyed =>
    intro ht
    exact isClosed_of_close hs ht
  case closes =>
    intro pre m post _ t ht hp hp'
    exact closes_of_closing ht (balanced_of_run pre (mem_turnOf.mp ht).1).1 hp hp'
  case run =>
    intro pre m post _ t ht hd
    rw [after_append]
    exact tasks_of_depart ht hd
  case atOnce =>
    intro pre m post _ t ht p hd
    rw [after_append]
    exact tasks_of_setFarewell ht hd
  case terminal =>
    intro hp ms'
    -- what holds of a session that is over holds after any further moves
    have hover := over_of_closed hs hp (spent_of_run ms hs hp) (not_entered_of_closed ms hs hp)
    obtain ⟨s', hs', hr⟩ := hover.still ms'
    have hp' : s'.phase = .closed := by
      obtain ⟨_, _, _, _, _, _, _, _, _, rfl⟩ := hr
      exact hp
    rw [← after_append] at hs'
    exact ⟨s', hs', hr, over_of_closed hs' hp' (spent_of_run _ hs' hp')
      (not_entered_of_closed _ hs' hp')⟩

/-- The application sets two farewells and closes; the second one closes again and sets a third. -/
def parted : List (Move Conduit) :=
  [.make "s" (.polling {}) (fun k =>
      .onClose k (.note k (.parting "first") .done)
        (.onClose k (.close k (.onClose k (.note k (.parting "third") .done) .done))
          (.close k .done))) none true true,
    .register 0 (.queue {}), .step, .step, .step, .step, .step, .step, .step, .step]

theorem closing_of_parted :
    ∃ s, (({} : World Conduit).after parted).sessions[0]? = some s ∧ s.phase = .closed ∧
      (partings (turns 0 {} parted)).map (·.1) = [1, 2] ∧ Closing 0 parted s := by
  have h : ((({} : World Conduit).after parted).sessions[0]?).map (·.phase) = some .closed := by
    decide +kernel
  obtain ⟨s, hs, hp⟩ := Option.map_eq_some_iff.mp h
  exact ⟨s, hs, hp, by decide +kernel, closing_of_run parted hs⟩

end World

end Duplex
