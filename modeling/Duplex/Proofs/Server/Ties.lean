/-
Duplex/Proofs/Server/Ties.lean

A message socket and its session, from the upgrade to the end.

While the link is open, session and link are joined.  When it is left, the
session is closed, or the task to close it waits (`IsClosing`); and the link is left
with a message that says so only when all that the session ever handed over is
on the wire.  `Stands` says all this of one moment, every proper act keeps it
(`Stands.act`), and it holds when the connection was upgraded (`stands_talk`).
-/
import Duplex.Proofs.Server.Acts
import Duplex.Proofs.World.Entries

namespace Duplex

open Session (Deed Wound Joined)

/-! ### What reaches a session that the link keeps to itself -/

section Moves

variable {w : World Conduit} {m : Move Conduit} {k : Nat} {s s' : Session Conduit}
  {d : Deed Conduit} {l : Link} {q : MessageQueue}

theorem World.isForeign_of_step (h : Move.deed? w.tasks .step = some (k, d)) :
    d.isForeign = false := by
  obtain ⟨task, rest, -, ht⟩ := Move.deed?_step.mp h
  cases task with
  | act p =>
    cases p with
    | feed j payload next =>
      obtain ⟨_, -, he⟩ := Option.map_eq_some_iff.mp ht
      cases he
      rfl
    | done | close | look => cases ht
    | note | write | onMessage | onClose | pause | resume =>
      cases ht
      rfl
  | drain | returned | close =>
    cases ht
    rfl

/-- A move that spares the session does no foreign deed to it, unless it forgets it. -/
theorem World.isForeign_of_spares (hm : m.spares k = true)
    (h : m.deed? w.tasks = some (k, d)) : d.isForeign = false ∨ m = .forget k := by
  cases m with
  | step => exact .inl (World.isForeign_of_step h)
  | feed j payload =>
    obtain ⟨_, -, he⟩ := Option.map_eq_some_iff.mp h
    cases he
    exact .inl rfl
  | introduce | elapse =>
    cases h
    exact .inl rfl
  | forget =>
    cases h
    exact .inr rfl
  | hold | register | again | stir | lose =>
    cases h
    simp [Move.spares] at hm
  | next | pass | call | make | close | closeAll | shutdown => cases h

theorem World.deed_of_turn {now : Moment}
    (h : turnOf k w m = [⟨now, s, d⟩]) : m.deed? w.tasks = some (k, d) :=
  (mem_turnOf.mp (h ▸ List.mem_singleton_self _)).2.2

/-- Without foreign deeds the session stays joined with its link. -/
theorem Session.Joined.move (h : s.Joined l q) (hs : w.sessions[k]? = some s) (hw : s.Wound)
    (hm : ∀ d, m.deed? w.tasks = some (k, d) → d.isForeign = false) :
    ∃ s' q', (w.move m).sessions[k]? = some s' ∧ s'.Joined l q' := by
  rcases World.session_of_before hs m with ⟨-, hs'⟩ | ⟨d, ht, hs'⟩
  · exact ⟨s, q, hs', h⟩
  · obtain ⟨q', h'⟩ := h.does hw w.now (hm d (World.deed_of_turn ht))
    exact ⟨_, q', hs', h'⟩

/-- The session is closed, or the task to close it waits. -/
def World.IsClosing (k : Nat) (w : World Conduit) (s : Session Conduit) : Prop :=
  s.phase = .closed ∨ .close k ∈ w.tasks ∧ s.gone = false

/-- The task on top closes the session. -/
theorem World.closed_of_top (hs : w.sessions[k]? = some s) (hg : s.gone = false)
    (htop : w.tasks.head? = some (.close k)) :
    ∃ s', (w.move .step).sessions[k]? = some s' ∧ s'.phase = .closed := by
  have hd : Move.deed? w.tasks (.step : Move Conduit) = some (k, .depart) := by
    simp [Move.deed?, htop, Task.deed?]
  have hturn : ⟨w.now, s, .depart⟩ ∈ turnOf k w .step := mem_turnOf.mpr ⟨hs, rfl, hd⟩
  refine ⟨_, session_of_turn hturn, ?_⟩
  simp [Session.Turn.after, Session.phase_does, Session.phaseAfter, hg]

/-- A session is not forgotten before the task to close it is done. -/
theorem World.IsClosing.move (h : w.IsClosing k s) (hs : w.sessions[k]? = some s)
    (hm : m = .forget k → w.tasks = []) (hs' : (w.move m).sessions[k]? = some s') :
    (w.move m).IsClosing k s' := by
  rcases h with hp | ⟨ht, hg⟩
  · rcases session_of_before hs m with ⟨-, he⟩ | ⟨d, -, he⟩
    · obtain rfl := Option.some.inj (hs'.symm.trans he)
      exact .inl hp
    · obtain rfl := Option.some.inj (hs'.symm.trans he)
      exact .inl (Session.closed_does hp w.now d)
  -- it is asked to close, and closes when that task is on top
  by_cases htop : m = .step ∧ w.tasks.head? = some (.close k)
  · obtain ⟨rfl, htop⟩ := htop
    obtain ⟨s₁, hs₁, hp⟩ := closed_of_top hs hg htop
    obtain rfl := Option.some.inj (hs'.symm.trans hs₁)
    exact .inl hp
  · refine .inr ⟨mem_move ht fun hstep hhead => htop ⟨hstep, hhead⟩, ?_⟩
    rcases session_of_before hs m with ⟨-, he⟩ | ⟨d, hturn, he⟩
    · obtain rfl := Option.some.inj (hs'.symm.trans he)
      exact hg
    · obtain rfl := Option.some.inj (hs'.symm.trans he)
      rw [Session.gone_does w.now s ?_]
      · exact hg
      · rintro rfl
        rw [hm (forget_of_deed (deed_of_turn hturn))] at ht
        cases ht

/-- Nothing is handed over any more by a closed session to which no carrier comes. -/
theorem Session.handed_of_closed (hw : s.Wound) (hp : s.phase = .closed) (now : Moment)
    (hd : d.isForeign = false ∨ d = .forget) : (s.does now d).handed = s.handed := by
  have hc := change_does now s d
  generalize s.does now d = s' at hc ⊢
  cases hc with
  | inward ho => exact (sameOutward_does now s ho).handed
  | idle | forget => rfl
  | beat hb =>
    rw [(hw.silent (by simp [isClosed, hp])).1] at hb
    cases hb
  | write message _ => rw [write_of_closed hp]
  | depart _ => rw [depart_of_closed hp]
  | stir | register | again | lose =>
    rcases hd with hd | hd
    · cases hd
    · cases hd

end Moves

/-! ### Standing -/

/-- The link was left with a message that says so, and all frames of the session went out before. -/
structure Link.Dismissed (l : Link) (s : Session Conduit) : Prop where
  wire : ∃ wire, l.wire = .over :: .close :: wire
  closed : s.phase = .closed
  sent : l.sent = s.frames.map (·.chars)
  last : s.frames.getLast? = some .goAway

/-- How a world and a link of it stand. -/
inductive Talk.Stands (w : World Conduit) (l : Link) : Prop
  | joined (s : Session Conduit) (q : MessageQueue) (here : w.sessions[l.session]? = some s)
      (isOpen : l.isOpen = true) (place : l.place = 0) (joined : s.Joined l q)
      (quiet : .close ∉ l.wire) (deaf : l.listens = false → w.IsClosing l.session s)
  | left (s : Session Conduit) (here : w.sessions[l.session]? = some s) (isOpen : l.isOpen = false)
      (held : s.held = false) (closing : w.IsClosing l.session s)
      (dismissed : .close ∈ l.wire → l.Dismissed s)

namespace Talk

variable {w : World Conduit} {l : Link} {q : MessageQueue} {s : Session Conduit}

/-- The session is there. -/
theorem Stands.session (h : Stands w l) : ∃ s, w.sessions[l.session]? = some s := by
  rcases h with ⟨s, _, here⟩ | ⟨s, here⟩
  · exact ⟨s, here⟩
  · exact ⟨s, here⟩

/-- Moves of the world leave it as it stands. -/
theorem Stands.world (h : Stands w l) (hrun : ∃ ms, w = ({} : World Conduit).after ms)
    {m : Move Conduit} (ht : m = .forget l.session → w.tasks = []) (hmind : w.IsMindful m)
    (hm : m.spares l.session = true) : Stands (w.move m) l := by
  obtain ⟨ms, hrun⟩ := hrun
  cases h with
  | joined s q here isOpen place joined quiet deaf =>
    have hwound : s.Wound := World.wound_of_run ms (hrun ▸ here)
    obtain ⟨s', q', hs', joined'⟩ := joined.move here hwound fun d hd => by
      rcases World.isForeign_of_spares hm hd with hd | rfl
      · exact hd
      · have hkept := hmind s here
        simp [World.isKept, joined.held] at hkept
    exact .joined s' q' hs' isOpen place joined' quiet fun hl => (deaf hl).move here ht hs'
  | left s here isOpen held closing dismissed =>
    have hwound : s.Wound := World.wound_of_run ms (hrun ▸ here)
    rcases World.session_of_before here m with ⟨-, hs'⟩ | ⟨d, hturn, hs'⟩
    · exact .left s hs' isOpen held (closing.move here ht hs') dismissed
    -- the session was left, so only the clock and its own tasks move it
    have hd : d.isForeign = false ∨ d = .forget := by
      have hdeed := World.deed_of_turn hturn
      rcases World.isForeign_of_spares hm hdeed with hd | rfl
      · exact .inl hd
      · cases hdeed
        exact .inr rfl
    have hheld : (s.does w.now d).held = s.held := by
      refine Session.held_does w.now s ?_
      rintro held rfl
      rcases hd with hd | hd
      · cases hd
      · cases hd
    refine .left _ hs' isOpen (hheld.trans held) (closing.move here ht hs') fun hclose => ?_
    have hdis := dismissed hclose
    have hframes : (s.does w.now d).frames = s.frames := by
      rw [Session.frames, Session.handed_of_closed hwound hdis.closed w.now hd, Session.frames]
    exact ⟨hdis.wire, Session.closed_does hdis.closed w.now d, by rw [hframes, hdis.sent],
      by rw [hframes, hdis.last]⟩

/-! ### What the link finds -/

theorem queue?_of_joined (here : w.sessions[l.session]? = some s) (place : l.place = 0)
    (joined : s.Joined l q) : l.queue? w = some q := by
  simp [Link.queue?, here, place, joined.carriers]

theorem live?_of_joined (here : w.sessions[l.session]? = some s) (joined : s.Joined l q) :
    w.live? l.session = some s := World.live?_eq_some.mpr ⟨here, joined.gone⟩

theorem closed_view (here : w.sessions[l.session]? = some s) (joined : s.Joined l q) :
    (w.view l.session).closed = true ↔ s.phase = .closed := by
  simp [World.view, here, Session.view, Session.isClosed, joined.gone]

/-! ### What the link does -/

/-- A link that is left leaves its session to close. -/
theorem Stands.leave (here : w.sessions[l.session]? = some s) (place : l.place = 0)
    (carriers : s.carriers = [.queue q]) (gone : s.gone = false)
    (dismissed : .close ∈ l.wire → l.Dismissed s) :
    Stands (w.after (l.leaving w)) { l with isOpen := false } := by
  have hq : l.queue? w = some q := by simp [Link.queue?, here, place, carriers]
  rw [Link.leaving, hq]
  refine .left { s with carriers := [.queue { q.drop with ended := true }], held := false } ?_ rfl
    rfl (.inr ⟨List.mem_cons_self, gone⟩) fun hclose => ?_
  · simp [World.after, World.move, World.modify, World.push, here, place, carriers]
  · have hdis := dismissed hclose
    exact ⟨hdis.wire, hdis.closed, hdis.sent, hdis.last⟩

/-- What is put on the wire beside the frames leaves the session joined. -/
theorem joined_put (joined : s.Joined l q) {m : WireMessage} (hm : m.frame? = none) :
    s.Joined (l.put m) q where
  __ := joined
  told := by
    rw [Link.sent_put, hm, Option.toList_none, List.append_nil]
    exact joined.told

theorem joined_deafen (joined : s.Joined l q) : s.Joined l.deafen q where
  __ := joined

/-- What waits goes to the wire. -/
theorem joined_flushed (joined : s.Joined l q) :
    Session.Joined (l.flushed q.waiting) { q with waiting := [] }
      { s with carriers := [.queue { q with waiting := [] }] } where
  __ := joined
  carriers := rfl
  told := (List.append_nil _).trans ((l.sent_flushed q.waiting).trans joined.told)

theorem here_flushed (here : w.sessions[l.session]? = some s) (place : l.place = 0)
    (joined : s.Joined l q) : (l.setQueue w { q with waiting := [] }).sessions[l.session]? =
      some { s with carriers := [.queue { q with waiting := [] }] } := by
  simp [Link.setQueue, World.modify, here, place, joined.carriers]

/-- A text of the client comes to the session. -/
theorem joined_feed (here : w.sessions[l.session]? = some s) (hwound : s.Wound)
    (joined : s.Joined l q) (value : String) : ∃ s' q',
      (w.move (.feed l.session value)).sessions[l.session]? = some s' ∧ s'.Joined l q' := by
  refine joined.move here hwound fun d hd => ?_
  obtain ⟨_, -, he⟩ := Option.map_eq_some_iff.mp hd
  cases he
  rfl

/-- What an open link does leaves it as it stands. -/
theorem Stands.does (here : w.sessions[l.session]? = some s) (hwound : s.Wound)
    (isOpen : l.isOpen = true) (place : l.place = 0) (joined : s.Joined l q)
    (quiet : .close ∉ l.wire) (deaf : l.listens = false → w.IsClosing l.session s) {a : Act}
    {ms : List (Move Conduit)} {l' : Link} (h : a.Does w l ms l') (ha : ∀ m, a ≠ .world m) :
    Stands (w.after ms) l' := by
  have still : Stands w l := .joined s q here isOpen place joined quiet deaf
  cases h with
  | world m => exact absurd rfl (ha m)
  | deaf | idle | gone | rests => exact still
  | answers data =>
    refine .joined s q here isOpen place (joined_put joined rfl) ?_ deaf
    simpa [Link.put] using quiet
  -- the link is deaf after a text that is late, unreadable or out of shape
  | late value closed =>
    exact .joined s q here isOpen place (joined_deafen joined) quiet
      fun _ => .inl ((closed_view here joined).mp closed)
  | takes value full shaped messages read =>
    obtain ⟨s', q', hs', joined'⟩ := joined_feed here hwound joined value
    refine .joined s' q' hs' isOpen place joined' quiet fun hl => ?_
    exact (deaf hl).move (m := .feed l.session value) here (by simp) hs'
  | refuses value full opened shaped unread =>
    obtain ⟨s', q', hs', joined'⟩ := joined_feed here hwound joined value
    refine .joined s' q' hs' isOpen place (joined_deafen joined') quiet
      fun _ => .inr ⟨?_, joined'.gone⟩
    simp [World.after, World.move, live?_of_joined here joined, World.feed, unread, World.receive,
      World.push, Link.deafen]
  | rejects value =>
    exact .joined s q here isOpen place (joined_deafen joined) quiet
      fun _ => .inr ⟨List.mem_cons_self, joined.gone⟩
  -- the rest leaves the session, or flushes its queue
  | ends =>
    refine Stands.leave (l := l.put .over) here place joined.carriers joined.gone fun hclose => ?_
    rcases List.mem_cons.mp hclose with hclose | hclose
    · cases hclose
    · exact absurd hclose quiet
  | abandons =>
    exact .leave here place joined.carriers joined.gone fun hclose => absurd hclose quiet
  | stops =>
    exact .joined s q here isOpen place joined quiet fun hl =>
      (deaf hl).imp_right fun h => ⟨List.mem_cons_of_mem _ h.1, h.2⟩
  | flushes q' queue =>
    obtain rfl := Option.some.inj ((queue?_of_joined here place joined).symm.trans queue)
    refine .joined _ { q with waiting := [] } (here_flushed here place joined) isOpen place
      (joined_flushed joined) ?_ deaf
    exact fun h => quiet ((l.close_mem_flushed q.waiting).mp h)
  -- the session is over, and all it said went out
  | dismisses q' queue waiting writable =>
    obtain rfl := Option.some.inj ((queue?_of_joined here place joined).symm.trans queue)
    have hclosed : s.phase = .closed := by
      by_contra hp
      cases (joined.writable.mpr hp).symm.trans writable
    have hsent : ((l.put .close).put .over).sent = l.sent := by
      simp [Link.sent_put, WireMessage.frame?]
    refine Stands.leave (l := (l.put .close).put .over) here place joined.carriers joined.gone
      fun _ => ⟨⟨_, rfl⟩, hclosed, ?_, joined.last hclosed⟩
    rw [hsent, ← joined.told, waiting, List.append_nil]

/-- **Every proper act leaves world and link as they stand.** -/
theorem Stands.act {c : Talk} (h : Stands c.1 c.2)
    (hrun : ∃ ms, c.1 = ({} : World Conduit).after ms) {a : Act} (ha : c.IsProper a) :
    Stands (c.act a).1 (c.act a).2 := by
  by_cases hworld : ∃ m, a = .world m
  · obtain ⟨m, rfl⟩ := hworld
    obtain ⟨ht, hmind, hm⟩ := ha
    refine h.world hrun ?_ hmind hm
    rintro rfl
    exact ht
  have hworld : ∀ m, a ≠ .world m := fun m h => hworld ⟨m, h⟩
  have still := h
  cases h with
  | left _ _ isOpen =>
    rw [act_of_left isOpen hworld]
    exact still
  | joined s q here isOpen place joined quiet deaf =>
    obtain ⟨ms, hrun⟩ := hrun
    rw [fst_act]
    exact .does here (World.wound_of_run ms (hrun ▸ here)) isOpen place joined quiet deaf
      (does_act c a) hworld

/-- **Proper acts leave world and link as they stand.** -/
theorem Stands.after {c : Talk} {ms : List (Move Conduit)} {acts : List Act}
    (h : Stands c.1 c.2) (hrun : c.1 = ({} : World Conduit).after ms)
    (hproper : c.Proper acts) : Stands (c.after acts).1 (c.after acts).2 := by
  induction acts generalizing c ms with
  | nil => exact h
  | cons a acts ih =>
    have hrun' : (c.act a).1 = ({} : World Conduit).after (ms ++ c.movesOf a) := by
      rw [fst_act, World.after_append, hrun]
    exact ih (h.act ⟨ms, hrun⟩ hproper.1) hrun' hproper.2

end Talk

end Duplex
