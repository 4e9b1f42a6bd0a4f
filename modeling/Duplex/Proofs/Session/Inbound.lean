/-
Duplex/Proofs/Session/Inbound.lean

Messages in: taken in, kept in order, given to the application one by one.

A session takes in the messages of every payload that it can read and gives
them to its handler, the first first.  The handler may do anything meanwhile,
also with the session it was called for: hold messages back and let them
through again, set another handler, feed the session, close it.  Each of these
may set off another round of giving out messages inside the one that is going
on.

Two invariants describe this, and neither looks at how rounds are nested.
`Flow` is about one session: what was given out, followed by what waits, is
what was taken in.  `drain_of_ready` is about the tasks of the world: while a
session has a message that it may give out, a task that does it is waiting.
`inflow_of_run` puts the two together.
-/
import Duplex.Carrier.ResponseStream
import Duplex.Proofs.Session.Handing
import Duplex.Proofs.World.Tasks

namespace Duplex

variable {C : Type}

namespace Session

/-! ### Taking in and giving out -/

/-- The message that is given out at a turn, and what the application does with it. -/
def Turn.given? (t : Turn C) : Option (String × Program) :=
  match t.deed with
  | .deliver =>
    if t.before.gone then none
    else (t.before.deliver? t.now).map fun (message, p, _) => (message, p)
  | _ => none

/-- The messages that are taken in at a turn. -/
def Turn.taken (t : Turn C) : List String :=
  match t.deed with
  | .receive messages => if t.before.isClosed then [] else messages
  | _ => []

/-- The handler that is set at a turn. -/
def Turn.installed? (t : Turn C) : Option (String → Program) :=
  match t.deed with
  | .setHandler handler => if t.before.isClosed then none else some handler
  | _ => none

/-- The messages given out at these turns, in order, each with what the application does. -/
def given (ts : List (Turn C)) : List (String × Program) := ts.filterMap (·.given?)

/-- The messages taken in at these turns, in order. -/
def taken (ts : List (Turn C)) : List String := ts.flatMap (·.taken)

/-- The handlers set at these turns, in order. -/
def installed (ts : List (Turn C)) : List (String → Program) := ts.filterMap (·.installed?)

theorem given_concat (ts : List (Turn C)) (t : Turn C) :
    given (ts ++ [t]) = given ts ++ t.given?.toList := by
  rw [given, List.filterMap_append]
  rcases h : t.given? with - | g
  · simp [given, h]
  · simp [given, h]

theorem taken_concat (ts : List (Turn C)) (t : Turn C) :
    taken (ts ++ [t]) = taken ts ++ t.taken := by
  simp [taken]

theorem installed_concat (ts : List (Turn C)) (t : Turn C) :
    installed (ts ++ [t]) = installed ts ++ t.installed?.toList := by
  rw [installed, List.filterMap_append]
  rcases h : t.installed? with - | g
  · simp [installed, h]
  · simp [installed, h]

/-- A message is given out when nothing holds it back, and it is the first one that waits. -/
theorem deliver?_eq_some {now : Moment} {s s' : Session C} {message : String} {p : Program} :
    s.deliver? now = some (message, p, s') ↔
      s.paused = false ∧ s.phase ≠ .closed ∧ ∃ n handler rest, s.handler = some (n, handler) ∧
        s.inbound = message :: rest ∧ p = handler message ∧
        s' = { s with inbound := rest }.record now (.delivered n message) := by
  unfold deliver?
  split
  -- it is held back, or over
  · rename_i h
    simp only [Bool.or_eq_true, beq_iff_eq] at h
    constructor
    · rintro ⟨⟩
    · rintro ⟨hp, hc, -⟩
      exact absurd h (by simp [hp, hc])
  · rename_i h
    simp only [Bool.or_eq_true, beq_iff_eq, not_or, Bool.not_eq_true] at h
    split
    -- there is a handler and a message for it
    · rename_i n handler message' rest hh hi
      constructor
      · rintro ⟨⟩
        exact ⟨h.1, h.2, n, handler, rest, hh, hi, rfl, rfl⟩
      · rintro ⟨-, -, n', handler', rest', hh', hi', rfl, rfl⟩
        cases hh.symm.trans hh'
        cases hi.symm.trans hi'
        rfl
    · rename_i hn
      constructor
      · rintro ⟨⟩
      · rintro ⟨-, -, n, handler, rest, hh, hi, -⟩
        exact absurd hi (hn n handler message rest hh)

/-! ### One session -/

/-- What was given out comes from what was taken in, by the handlers that were set. -/
structure Flow (ts : List (Turn C)) (s : Session C) : Prop where
  fifo : s.phase ≠ .closed → (given ts).map (·.1) ++ s.inbound = taken ts
  within : (given ts).map (·.1) <+: taken ts
  handler : s.isClosed = false → s.handler.map (·.2) = (installed ts).getLast?

theorem IsNew.flow {s : Session C} (h : s.IsNew) : Flow [] s := by
  obtain ⟨_, _, _, _, _, rfl⟩ := h
  exact ⟨fun _ => rfl, List.prefix_rfl, fun _ => rfl⟩

variable [Carrier C] {ts : List (Turn C)} {t : Turn C}

/-- A turn at which nothing is taken in, given out or set. -/
theorem Flow.of_quiet (h : Flow ts t.before)
    (hin : t.after.phase ≠ .closed →
      t.before.phase ≠ .closed ∧ t.after.inbound = t.before.inbound)
    (hh : t.after.isClosed = false →
      t.before.isClosed = false ∧ t.after.handler = t.before.handler)
    (hg : t.given? = none) (ht : t.taken = []) (hi : t.installed? = none) :
    Flow (ts ++ [t]) t.after := by
  -- the turn adds nothing to any of the three lists
  have hgiven : given (ts ++ [t]) = given ts := by rw [given_concat, hg]; exact List.append_nil _
  have htaken : taken (ts ++ [t]) = taken ts := by rw [taken_concat, ht, List.append_nil]
  have hinst : installed (ts ++ [t]) = installed ts := by
    rw [installed_concat, hi]
    exact List.append_nil _
  refine ⟨?_, ?_, ?_⟩
  · intro hc
    obtain ⟨hc', hin⟩ := hin hc
    rw [hgiven, htaken, hin]
    exact h.fifo hc'
  · rw [hgiven, htaken]
    exact h.within
  · intro hc
    obtain ⟨hc', hh⟩ := hh hc
    rw [hinst, hh]
    exact h.handler hc'

theorem Flow.of_sameInward (h : Flow ts t.before) (hs : SameInward t.before t.after)
    (hg : t.given? = none) (ht : t.taken = []) (hi : t.installed? = none) :
    Flow (ts ++ [t]) t.after := by
  refine h.of_quiet (fun hc => ⟨mt hs.closed.mpr hc, hs.inbound⟩) (fun hc => ⟨?_, hs.handler⟩)
    hg ht hi
  rw [isClosed_eq_false] at hc ⊢
  exact ⟨mt hs.closed.mpr hc.1, hs.gone ▸ hc.2⟩

theorem Flow.of_unchanged (h : Flow ts t.before) (hs : t.after = t.before)
    (hg : t.given? = none) (ht : t.taken = []) (hi : t.installed? = none) :
    Flow (ts ++ [t]) t.after :=
  h.of_sameInward (hs ▸ .refl t.before) hg ht hi

theorem receive_of_closed {s : Session C} (hc : s.isClosed = true) (now : Moment)
    (messages : List String) : s.does now (.receive messages) = s := by
  rw [isClosed, Bool.or_eq_true, beq_iff_eq] at hc
  rcases hc with hc | hc
  · simp [Session.does, Session.receive, hc]
  · simp [Session.does, hc]

theorem Flow.receive {messages : List String} (hd : t.deed = .receive messages)
    (h : Flow ts t.before) : Flow (ts ++ [t]) t.after := by
  obtain ⟨now, s, d⟩ := t
  obtain rfl : d = .receive messages := hd
  rcases hc : s.isClosed with - | -
  · obtain ⟨hp, hg⟩ := isClosed_eq_false.mp hc
    have hafter : s.does now (.receive messages) =
        { s with inbound := s.inbound ++ messages }.record now (.received messages) := by
      simp [Session.does, Session.receive, hp, hg]
    have hfifo : (given ts).map (·.1) ++ (s.inbound ++ messages) = taken ts ++ messages := by
      rw [← List.append_assoc, h.fifo hp]
    rw [Turn.after, hafter]
    refine ⟨?_, ?_, ?_⟩
    · intro _
      simpa [given_concat, taken_concat, Turn.given?, Turn.taken, hc, record] using hfifo
    · simpa [given_concat, taken_concat, Turn.given?, Turn.taken, hc] using
        h.within.trans (List.prefix_append _ messages)
    · intro _
      simpa [installed_concat, Turn.installed?, record] using h.handler hc
  · exact h.of_unchanged (receive_of_closed hc now messages) rfl (by simp [Turn.taken, hc]) rfl

theorem Flow.setHandler {handler : String → Program} (hd : t.deed = .setHandler handler)
    (h : Flow ts t.before) : Flow (ts ++ [t]) t.after := by
  obtain ⟨now, s, d⟩ := t
  obtain rfl : d = .setHandler handler := hd
  rcases hc : s.isClosed with - | -
  · have hafter : s.does now (.setHandler handler) =
        { s with handler := some (s.handlers, handler), handlers := s.handlers + 1 }.record now
          (.handlerSet s.handlers) := by
      obtain ⟨hp, hg⟩ := isClosed_eq_false.mp hc
      simp [Session.does, Session.setHandler, hg, hp]
    rw [Turn.after, hafter]
    refine ⟨?_, ?_, ?_⟩
    · intro hp
      simpa [given_concat, taken_concat, Turn.given?, Turn.taken, record] using h.fifo hp
    · simpa [given_concat, taken_concat, Turn.given?, Turn.taken] using h.within
    · intro _
      simp [installed_concat, Turn.installed?, hc, record]
  -- a session that is over may keep the handler, but gives it nothing
  · obtain ⟨_, _, _, hafter⟩ := does_setHandler_eq now s handler
    have hover : (s.does now (.setHandler handler)).isClosed = true := by
      rw [hafter]
      exact hc
    refine h.of_quiet (fun hp => ?_) (fun ho => ?_) rfl rfl (by simp [Turn.installed?, hc])
    · rw [Turn.after, hafter] at hp ⊢
      exact ⟨hp, rfl⟩
    · cases ho.symm.trans hover

/-- The message given out is the first one taken in that was not given out yet. -/
theorem Flow.deliver (hd : t.deed = .deliver) (h : Flow ts t.before) :
    Flow (ts ++ [t]) t.after := by
  obtain ⟨now, s, d⟩ := t
  obtain rfl : d = .deliver := hd
  rcases hg : s.gone with - | -
  -- nothing may be given out, and nothing is
  · rcases hm : s.deliver? now with - | ⟨message, p, s'⟩
    · exact h.of_unchanged (by simp [Turn.after, Session.does, hg, hm])
        (by simp [Turn.given?, hg, hm]) rfl rfl
    · have hgiven : Turn.given? ⟨now, s, .deliver⟩ = some (message, p) := by
        simp [Turn.given?, hg, hm]
      have hafter : s.does now .deliver = s' := by simp [Session.does, hg, hm]
      obtain ⟨-, hp, n, handler, rest, hh, hi, rfl, rfl⟩ := deliver?_eq_some.mp hm
      have hfifo : (given ts).map (·.1) ++ message :: rest = taken ts := hi ▸ h.fifo hp
      rw [Turn.after, hafter]
      -- the message moves from the front of the queue to the end of what was given
      refine ⟨?_, ?_, ?_⟩
      · intro _
        simpa [given_concat, taken_concat, hgiven, Turn.taken, record] using hfifo
      · rw [given_concat, taken_concat, hgiven, ← hfifo]
        exact ⟨rest, by simp [Turn.taken]⟩
      · intro _
        have hc : s.isClosed = false := isClosed_eq_false.mpr ⟨hp, hg⟩
        simpa [installed_concat, Turn.installed?, record] using h.handler hc
  · exact h.of_unchanged (by simp [Turn.after, Session.does, hg])
      (by simp [Turn.given?, hg]) rfl rfl

theorem Flow.depart (hd : t.deed = .depart) (h : Flow ts t.before) : Flow (ts ++ [t]) t.after := by
  have hg : t.given? = none := by simp [Turn.given?, hd]
  have ht : t.taken = [] := by simp [Turn.taken, hd]
  have hi : t.installed? = none := by simp [Turn.installed?, hd]
  rcases hgone : t.before.gone with - | -
  · have hc : t.after.phase = .closed := by
      rw [Turn.after, phase_does, hd]
      simp [phaseAfter, hgone]
    refine h.of_quiet (fun hc' => absurd hc hc') (fun hc' => ?_) hg ht hi
    exact absurd hc (isClosed_eq_false.mp hc').1
  · exact h.of_unchanged (by simp [Turn.after, hd, Session.does, hgone]) hg ht hi

/-- **A turn keeps the messages in order**, whatever is done. -/
theorem Flow.turn (h : Flow ts t.before) : Flow (ts ++ [t]) t.after := by
  rcases hd : t.deed
  -- what moves messages or sets handlers has a lemma of its own
  case receive messages => exact h.receive hd
  case setHandler handler => exact h.setHandler hd
  case deliver => exact h.deliver hd
  case depart => exact h.depart hd
  -- the session is gone, so nothing is asked of its handler
  case forget =>
    refine h.of_quiet ?_ ?_ ?_ ?_ ?_
    all_goals simp [Turn.after, Turn.given?, Turn.taken, Turn.installed?, hd, Session.does,
      Session.forget, isClosed]
  case pause paused =>
    obtain ⟨_, hafter⟩ := does_pause_eq t.now t.before paused
    rw [← hd] at hafter
    refine h.of_quiet (fun hp => ?_) (fun hc => ?_) (by simp [Turn.given?, hd])
      (by simp [Turn.taken, hd]) (by simp [Turn.installed?, hd])
    · rw [Turn.after, hafter] at hp ⊢
      exact ⟨hp, rfl⟩
    · rw [Turn.after, hafter] at hc ⊢
      exact ⟨hc, rfl⟩
  all_goals
    have hs : SameInward t.before t.after := sameInward_does t.now t.before (by rw [hd]; rfl)
    exact h.of_sameInward hs (by simp [Turn.given?, hd]) (by simp [Turn.taken, hd])
      (by simp [Turn.installed?, hd])

/-! ### Messages that may be given out -/

/-- The session has a message that it may give out. -/
def Ready (s : Session C) : Prop :=
  s.isClosed = false ∧ s.paused = false ∧ s.handler ≠ none ∧ s.inbound ≠ []

omit [Carrier C] in
theorem IsNew.not_ready {s : Session C} (h : s.IsNew) : ¬ s.Ready := by
  obtain ⟨_, _, _, _, _, rfl⟩ := h
  exact fun hr => hr.2.2.2 rfl

omit [Carrier C] in
theorem Ready.deliver? {s : Session C} (hr : s.Ready) (now : Moment) :
    ∃ message p s', s.deliver? now = some (message, p, s') := by
  obtain ⟨hc, hp, hh, hi⟩ := hr
  obtain ⟨⟨n, handler⟩, hh⟩ := Option.ne_none_iff_exists'.mp hh
  obtain ⟨message, rest, hi⟩ := List.exists_cons_of_ne_nil hi
  exact ⟨message, handler message, _,
    deliver?_eq_some.mpr ⟨hp, (isClosed_eq_false.mp hc).1, n, handler, rest, hh, hi, rfl, rfl⟩⟩

omit [Carrier C] in
theorem Ready.of_sameInward {s s' : Session C} (hr : s'.Ready) (hs : SameInward s s') :
    s.Ready := by
  obtain ⟨hc, hp, hh, hi⟩ := hr
  rw [isClosed_eq_false] at hc
  refine ⟨isClosed_eq_false.mpr ⟨mt hs.closed.mpr hc.1, hs.gone ▸ hc.2⟩, ?_, ?_, ?_⟩
  · rw [← hs.paused, hp]
  · rwa [← hs.handler]
  · rwa [← hs.inbound]

/-- A session becomes ready only by a deed that wakes it, or stays so while it gives out. -/
theorem Ready.of_does {now : Moment} {s : Session C} {d : Deed C} (hr : (s.does now d).Ready)
    (hw : d.wakes = false) (hd : d ≠ .deliver) : s.Ready := by
  cases d with
  | receive | setHandler => cases hw
  | deliver => exact absurd rfl hd
  -- resuming wakes, and pausing leaves it not ready
  | pause paused =>
    cases paused with
    | false => cases hw
    | true =>
      rcases hg : s.gone with - | -
      · exact absurd hr.2.1 (by simp [Session.does, hg])
      · simpa [Session.does, hg] using hr
  | forget => exact absurd rfl hr.2.2.1
  -- one that closed just now is not ready
  | depart =>
    rcases hg : s.gone with - | -
    · have hc : (s.does now .depart).phase = .closed := by
        rw [phase_does]
        simp [phaseAfter, hg]
      exact absurd hc (isClosed_eq_false.mp hr.1).1
    · simpa [Session.does, hg] using hr
  | note | finishMessage | introduce | hold | stir | register | again | lose | beat | write
  | setFarewell =>
    exact hr.of_sameInward (sameInward_does now s (by rfl))

end Session

namespace World

open Session

variable [Carrier C]

/-- **No message is stranded**: while a session has a message that it may give out, there is a
task that does it. -/
theorem drain_of_ready (ms : List (Move C)) {k : Nat} {s : Session C}
    (hs : (({} : World C).after ms).sessions[k]? = some s) (hr : s.Ready) :
    .drain k ∈ (({} : World C).after ms).tasks := by
  -- a ready session was ready before, and its task is still there, or it was woken just now
  induction ms using List.reverseRecOn generalizing s with
  | nil => cases hs
  | append_singleton ms m ih =>
    rw [after_append, after_cons, after_nil] at hs ⊢
    rcases session_move hs with ⟨s₀, hk, ⟨ht, rfl⟩ | ⟨d, ht, rfl⟩⟩ | ⟨-, -, hnew⟩
    -- another session's turn, so the task is not the one that is done
    · refine mem_move (ih hk hr) ?_
      intro hm hh
      have hd : m.deed? (({} : World C).after ms).tasks = some (k, .deliver) := by
        rw [hm]
        simp [Move.deed?, hh, Task.deed?]
      have hmem : ⟨_, s, .deliver⟩ ∈ turnOf k (({} : World C).after ms) m :=
        mem_turnOf.mpr ⟨hk, rfl, hd⟩
      rw [ht] at hmem
      cases hmem
    · obtain ⟨-, -, hdeed⟩ := mem_turnOf.mp (ht ▸ List.mem_singleton_self _)
      have hg : s₀.gone = false := by
        have hne : d ≠ .forget := by
          rintro rfl
          exact absurd rfl hr.2.2.1
        rw [← gone_does (({} : World C).after ms).now s₀ hne]
        exact (isClosed_eq_false.mp hr.1).2
      have hlive := live?_eq_some.mpr ⟨hk, hg⟩
      rcases hw : d.wakes with - | -
      · by_cases hd : d = .deliver
        · subst hd
          rcases hm : s₀.deliver? (({} : World C).after ms).now with - | ⟨message, p, s'⟩
          -- nothing to give out, so the session was not ready
          · have hsame : s₀.does (({} : World C).after ms).now .deliver = s₀ := by
              simp [Session.does, hg, hm]
            rw [hsame] at hr
            obtain ⟨_, _, _, h⟩ := hr.deliver? (({} : World C).after ms).now
            cases hm.symm.trans h
          -- the message before it was given out, which leaves a task for the next one
          · rw [tasks_of_given hlive hdeed hm]
            simp
        · refine mem_move (ih hk (hr.of_does hw hd)) fun hm hh => hd ?_
          rw [hm, Move.deed?, hh] at hdeed
          exact (Prod.mk.inj (Option.some.inj hdeed)).2.symm
      · exact drain_of_wakes hlive hdeed hw
    · exact absurd hr hnew.not_ready

/-! ### Payloads -/

/-- The payload that a move has for session `k`. -/
def payload? (k : Nat) (w : World C) : Move C → Option String
  | .feed j payload => if j = k then some payload else none
  | .step =>
    match w.tasks with
    | .act (.feed j payload _) :: _ => if j = k then some payload else none
    | _ => none
  | _ => none

/-- The messages that session `k` takes in with a move: those of its payload, unless the session is
closed or the payload cannot be read. -/
def takenIn (k : Nat) (w : World C) (m : Move C) : List String :=
  match w.sessions[k]?, payload? k w m with
  | some s, some payload => if s.isClosed then [] else (Payload.messages? payload).getD []
  | _, _ => []

omit [Carrier C] in
/-- A session receives the messages of a payload that it has. -/
theorem deed?_eq_receive {w : World C} {m : Move C} {k : Nat} {messages : List String} :
    m.deed? w.tasks = some (k, .receive messages) ↔
      ∃ payload, payload? k w m = some payload ∧ Payload.messages? payload = some messages := by
  constructor
  · intro h
    cases m with
    -- it comes from the client
    | feed j payload =>
      obtain ⟨_, hp, he⟩ := Option.map_eq_some_iff.mp h
      cases he
      exact ⟨payload, if_pos rfl, hp⟩
    -- or from a program that feeds the session
    | step =>
      obtain ⟨t, rest, htasks, ht⟩ := Move.deed?_step.mp h
      cases t with
      | act p =>
        cases p with
        | feed j payload next =>
          obtain ⟨_, hp, he⟩ := Option.map_eq_some_iff.mp ht
          cases he
          exact ⟨payload, by simp [payload?, htasks], hp⟩
        | _ => cases ht
      | _ => cases ht
    | _ => cases h
  · rintro ⟨payload, h, hp⟩
    unfold payload? at h
    split at h
    · split at h
      · obtain rfl := Option.some.inj h
        simp [Move.deed?, *]
      · cases h
    · split at h
      · split at h
        · obtain rfl := Option.some.inj h
          simp [Move.deed?, Task.deed?, Program.deed?, *]
        · cases h
      · cases h
    · cases h

omit [Carrier C] in
theorem takenIn_eq (k : Nat) (w : World C) (m : Move C) :
    takenIn k w m = taken (turnOf k w m) := by
  have empty (h : ∀ t ∈ turnOf k w m, t.taken = []) : taken (turnOf k w m) = [] :=
    List.flatMap_eq_nil_iff.mpr h
  unfold takenIn
  split
  · rename_i s payload hk hp
    rcases hm : Payload.messages? payload with - | messages
    -- the payload cannot be read, so the move is no turn at which something comes in
    · rw [empty]
      · simp
      · intro t ht
        obtain ⟨-, -, hd⟩ := mem_turnOf.mp ht
        obtain ⟨now, s', d⟩ := t
        cases d with
        | receive messages =>
          obtain ⟨payload', hp', hm'⟩ := deed?_eq_receive.mp hd
          obtain rfl := Option.some.inj (hp.symm.trans hp')
          cases hm.symm.trans hm'
        | _ => rfl
    · have ht : turnOf k w m = [⟨w.now, s, .receive messages⟩] :=
        turnOf_eq_of_mem (mem_turnOf.mpr ⟨hk, rfl, deed?_eq_receive.mpr ⟨payload, hp, hm⟩⟩)
      rw [ht]
      simp [taken, Turn.taken]
  -- no payload comes, and no turn takes one in
  · rename_i hn
    refine (empty ?_).symm
    intro t ht
    obtain ⟨hk, -, hd⟩ := mem_turnOf.mp ht
    obtain ⟨now, s', d⟩ := t
    cases d with
    | receive messages =>
      obtain ⟨payload, hp, -⟩ := deed?_eq_receive.mp hd
      exact absurd hp (hn _ payload hk)
    | _ => rfl

theorem along_takenIn (k : Nat) (w : World C) (ms : List (Move C)) :
    along (takenIn k) w ms = taken (turns k w ms) := by
  induction ms generalizing w with
  | nil => rfl
  | cons m ms ih =>
    rw [along, ih, takenIn_eq, turns, along]
    exact List.flatMap_append.symm

/-! ### Runs -/

theorem flow_of_run (ms : List (Move C)) {k : Nat} {s : Session C}
    (hs : (({} : World C).after ms).sessions[k]? = some s) : Flow (turns k {} ms) s :=
  session_run (P := Flow) (fun _ hnew => hnew.flow) (fun _ _ h => h.turn) ms hs

/-- A closed session gives nothing out any more. -/
theorem given_of_closed (ms : List (Move C)) {w : World C} {k : Nat} {s : Session C}
    (hs : w.sessions[k]? = some s) (hc : s.phase = .closed) : given (turns k w ms) = [] := by
  induction ms generalizing w s with
  | nil => rfl
  | cons m ms ih =>
    -- not with this move
    have hnow : given (turnOf k w m) = [] := by
      apply List.filterMap_eq_nil_iff.mpr
      intro t ht
      obtain ⟨hk, -, -⟩ := mem_turnOf.mp ht
      obtain rfl := Option.some.inj (hs.symm.trans hk)
      rw [Turn.given?]
      split
      · simp [Session.deliver?, hc]
      · rfl
    -- nor with a later one, as it stays closed
    have hlater : given (turns k (w.move m) ms) = [] := by
      rcases hs' : (w.move m).sessions[k]? with - | s'
      · cases hs.symm.trans (session_of_move hs').1
      · refine ih hs' ?_
        rcases session_move hs' with ⟨s₀, hk, h⟩ | ⟨hk, -, -⟩
        · obtain rfl := Option.some.inj (hs.symm.trans hk)
          rcases h with ⟨-, rfl⟩ | ⟨d, -, rfl⟩
          · exact hc
          · exact closed_does hc w.now d
        · cases hs.symm.trans hk
    rw [turns, along, given, List.filterMap_append]
    exact List.append_eq_nil_iff.mpr ⟨hnow, hlater⟩

/-- What session `s`, the `k`th one of a run, takes in and gives to the application. -/
structure Inflow (k : Nat) (ms : List (Move C)) (s : Session C) : Prop where
  /-- What was given, followed by what waits, is what the payloads held, while it is not closed. -/
  fifo : s.phase ≠ .closed →
    (given (turns k {} ms)).map (·.1) ++ s.inbound = along (takenIn k) {} ms
  /-- What was given is always a first part of what the payloads held. -/
  within : (given (turns k {} ms)).map (·.1) <+: along (takenIn k) {} ms
  /-- Nothing is given any more when it is closed. -/
  ended : s.phase = .closed →
    ∀ ms', given (turns k {} (ms ++ ms')) = given (turns k {} ms)
  /-- A message is given while nothing holds it back, to the handler that was set last, and what
  that does with it is the next task. -/
  handled : ∀ pre m post, ms = pre ++ m :: post →
    ∀ t ∈ turnOf k (({} : World C).after pre) m, ∀ message p, t.given? = some (message, p) →
      t.before.paused = false ∧ t.before.phase ≠ .closed ∧
      (∃ handler, (installed (turns k {} pre)).getLast? = some handler ∧ p = handler message) ∧
      (({} : World C).after (pre ++ [m])).tasks =
        .act p :: .returned k message :: .drain k :: (({} : World C).after pre).tasks.tail
  /-- When no task is left that gives out its messages, a message waits only because it is held
  back or has no handler. -/
  rest : .drain k ∉ (({} : World C).after ms).tasks → s.gone = false → s.phase ≠ .closed →
    s.inbound ≠ [] → s.paused = true ∨ s.handler = none

/-- A message that is given is given to the handler that was set last. -/
theorem handled_of_given {pre : List (Move C)} {m : Move C} {k : Nat} {t : Turn C}
    (ht : t ∈ turnOf k (({} : World C).after pre) m) {message : String} {p : Program}
    (hg : t.given? = some (message, p)) :
    t.before.paused = false ∧ t.before.phase ≠ .closed ∧
      (∃ handler, (installed (turns k {} pre)).getLast? = some handler ∧ p = handler message) ∧
      (({} : World C).after (pre ++ [m])).tasks =
        .act p :: .returned k message :: .drain k :: (({} : World C).after pre).tasks.tail := by
  obtain ⟨hk, hnow, hd⟩ := mem_turnOf.mp ht
  obtain ⟨now, s, d⟩ := t
  obtain rfl : now = (({} : World C).after pre).now := hnow
  cases d with
  | deliver =>
    simp only [Turn.given?] at hg
    rcases hgone : s.gone with - | -
    · rw [hgone, if_neg (by decide)] at hg
      obtain ⟨⟨message', p', s'⟩, hm, he⟩ := Option.map_eq_some_iff.mp hg
      obtain ⟨rfl, rfl⟩ := Prod.mk.inj he
      obtain ⟨hp, hc, n, handler, rest, hh, -, hp', -⟩ := deliver?_eq_some.mp hm
      -- the handler that it keeps is the one that was set last
      refine ⟨hp, hc, ⟨handler, ?_, hp'⟩, ?_⟩
      · rw [← (flow_of_run pre hk).handler (isClosed_eq_false.mpr ⟨hc, hgone⟩), hh]
        rfl
      · rw [after_append, after_cons, after_nil]
        exact tasks_of_given (live?_eq_some.mpr ⟨hk, hgone⟩) hd hm
    · rw [hgone, if_pos rfl] at hg
      cases hg
  | _ => cases hg

/-- **Messages in.**  In every run, whatever the handlers do with their own sessions meanwhile,
every session gives out what it takes in, in order, once, and without leaving anything behind. -/
theorem inflow_of_run (ms : List (Move C)) {k : Nat} {s : Session C}
    (hs : (({} : World C).after ms).sessions[k]? = some s) : Inflow k ms s := by
  have hflow : Flow (turns k {} ms) s := flow_of_run ms hs
  refine ⟨?fifo, ?within, ?ended, ?handled, ?rest⟩
  case fifo =>
    intro hc
    rw [along_takenIn]
    exact hflow.fifo hc
  case within =>
    rw [along_takenIn]
    exact hflow.within
  case ended =>
    intro hc ms'
    rw [turns_append, given, List.filterMap_append]
    show given _ ++ given _ = _
    rw [given_of_closed ms' hs hc, List.append_nil]
  case handled =>
    intro pre m post _ t ht message p hg
    exact handled_of_given ht hg
  case rest =>
    intro hd hg hc hi
    -- otherwise it could give out a message, and would be about to
    by_contra hn
    rw [not_or, Bool.not_eq_true] at hn
    exact hd (drain_of_ready ms hs ⟨isClosed_eq_false.mpr ⟨hc, hg⟩, hn.1, hn.2, hi⟩)

/-- A handler holds back all messages but the first. -/
def heldBack : List (Move Conduit) :=
  [.make "s" (.polling {}) (fun k => .onMessage k (fun _ => .pause k .done) .done) none
      true true,
    .register 0 (.stream { framing := .poll }), .step, .step, .feed 0 "[\"a\",\"b\"]", .step, .step]

theorem inflow_of_heldBack :
    ∃ s, (({} : World Conduit).after heldBack).sessions[0]? = some s ∧ s.inbound = ["b"] ∧
      Inflow 0 heldBack s := by
  have h : ((({} : World Conduit).after heldBack).sessions[0]?).map (·.inbound) = some ["b"] := by
    decide +kernel
  obtain ⟨s, hs, hi⟩ := Option.map_eq_some_iff.mp h
  exact ⟨s, hs, hi, inflow_of_run heldBack hs⟩

end World

end Duplex
