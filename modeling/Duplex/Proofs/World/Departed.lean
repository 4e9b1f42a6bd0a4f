/-
Duplex/Proofs/World/Departed.lean

Sockets whose session is over.

A session that is closed may still be kept, and answers for itself; or it may be
gone, and what is asked of its socket is answered without it.  Most actions have
a branch for the one and a branch for the other.  `heard` is what an application hears
when the world takes a step, with the events that the step leaves in the history
of the session, and `Tells` gathers it, step after step, until the program that
was started is through.

A program that uses a socket whose session is over gets to its end, and all it
hears depends on what the socket shows: `Program.spoken` says what that is
(`Alike.telling`).  On the way the session neither takes a message nor gives one,
no frame is handed to a carrier, and nothing else changes (`Spares`).

Two programs are alike if they ask for the same things, each of its own socket,
and go on in the same way whoever the client is (`Program.Alike`).  So alike
programs hear the same of a session that is closed and of one that is gone,
except who the client was (`told_alike`).
-/
import Duplex.Carrier.ResponseStream
import Duplex.Proofs.World.Order
import Duplex.Proofs.World.Rest
import Duplex.Rehearsal.Script

namespace Duplex

variable {C : Type}

/-! ### What an application hears -/

/-- What an application hears, or what it leaves in the history of its session. -/
inductive Line where
  /-- What it wrote is taken or refused. -/
  | written (refused : Option WriteError)
  /-- It looks at the socket. -/
  | shown (view : View)
  | event (e : Event)
  deriving DecidableEq, Repr

/-! The same without the client's face, and without the numbers that farewells have. -/

def Reply.faceless : Reply → Reply
  | .peer _ => .peer none
  | r => r

def Note.faceless : Note → Note
  | .did action r => .did action r.faceless
  | n => n

def View.faceless (v : View) : View := { v with peer := none }

def Event.faceless : Event → Event
  | .noted entry => .noted entry.faceless
  | .farewellSet _ => .farewellSet 0
  | .farewellRun _ => .farewellRun 0
  | e => e

def Line.faceless : Line → Line
  | .written refused => .written refused
  | .shown v => .shown v.faceless
  | .event e => .event e.faceless

/-- An application does it by itself: nothing goes to the client or comes from there. -/
def Event.isInner : Event → Bool
  | .noted _ | .farewellSet _ | .farewellRun _ => true
  | _ => false

namespace Program

/-- What the program hears of a session that is over, if its socket shows `v`. -/
def spoken (v : View) : Program → List Line
  | .done | .feed .. => []
  | .note _ entry rest => .event (.noted entry.faceless) :: rest.spoken v
  | .write _ _ next => .written (some .closed) :: (next (some .closed)).spoken v
  | .onClose _ handler rest =>
    .event (.farewellSet 0) :: .event (.farewellRun 0) :: (handler.spoken v ++ rest.spoken v)
  | .onMessage _ _ rest | .pause _ rest | .resume _ rest | .close _ rest => rest.spoken v
  | .look _ next => .shown v.faceless :: (next v).spoken v

/-- The program goes on without an answer. -/
def isMute : Program → Bool
  | .write .. | .look .. => false
  | _ => true

/-- The programs do the same, one with socket `j` and the other with socket `k`, whatever they
would do with messages, and whoever the client is. -/
inductive Alike (j k : Nat) : Program → Program → Prop
  | done : Alike j k .done .done
  | note {entry entry' : Note} {p p' : Program} (same : entry.faceless = entry'.faceless)
      (rest : Alike j k p p') : Alike j k (.note j entry p) (.note k entry' p')
  | write {message : String} {next next' : Option WriteError → Program}
      (rest : ∀ r, Alike j k (next r) (next' r)) :
      Alike j k (.write j message next) (.write k message next')
  | onMessage {handler handler' : String → Program} {p p' : Program} (rest : Alike j k p p') :
      Alike j k (.onMessage j handler p) (.onMessage k handler' p')
  | onClose {q q' p p' : Program} (handler : Alike j k q q') (rest : Alike j k p p') :
      Alike j k (.onClose j q p) (.onClose k q' p')
  | pause {p p' : Program} (rest : Alike j k p p') : Alike j k (.pause j p) (.pause k p')
  | resume {p p' : Program} (rest : Alike j k p p') : Alike j k (.resume j p) (.resume k p')
  | close {p p' : Program} (rest : Alike j k p p') : Alike j k (.close j p) (.close k p')
  | look {next next' : View → Program}
      (rest : ∀ v v', v.faceless = v'.faceless → Alike j k (next v) (next' v')) :
      Alike j k (.look j next) (.look k next')

variable {j k : Nat} {p p' : Program}

theorem Alike.symm (h : Alike j k p p') : Alike k j p' p := by
  induction h with
  | done => exact .done
  | note same _ ih => exact .note same.symm ih
  | write _ ih => exact .write ih
  | onMessage _ ih => exact .onMessage ih
  | onClose _ _ ihq ih => exact .onClose ihq ih
  | pause _ ih => exact .pause ih
  | resume _ ih => exact .resume ih
  | close _ ih => exact .close ih
  | look _ ih => exact .look fun v v' hv => ih v' v hv.symm

/-- **Alike programs hear the same** when their sockets show the same. -/
theorem Alike.spoken_eq (h : Alike j k p p') {v v' : View} (hv : v.faceless = v'.faceless) :
    p.spoken v = p'.spoken v' := by
  induction h with
  | done => rfl
  | note same _ ih => simp only [spoken, same, ih]
  | write _ ih => simp only [spoken, ih]
  | onMessage _ ih | pause _ ih | resume _ ih | close _ ih => exact ih
  | onClose _ _ ihq ih => simp only [spoken, ihq, ih]
  | look _ ih => simp only [spoken, hv, ih v v' hv]

end Program

/-! ### Scripts -/

namespace Rehearsal

open Program

/-- What comes of an action does not depend on who the client is, unless it is asked for. -/
theorem faceless_reply (a : Action) {v v' : View} (hv : v.faceless = v'.faceless) :
    (a.reply v).faceless = (a.reply v').faceless := by
  obtain ⟨hid, hclosed, -⟩ := (View.mk.injEq ..).mp hv
  cases a <;> simp [Action.reply, Reply.faceless, hid, hclosed]

mutual

theorem alike_effect (feeds : Bool) (j k : Nat) {p p' : Program} (h : Alike j k p p') :
    (a : Action) → Alike j k (a.effect feeds j p) (a.effect feeds k p')
  | .write _ => .write fun _ => h
  | .handler _ => .onMessage h
  | .closeHandler _ actions => .onClose (.note rfl (alike_script feeds j k actions)) h
  | .pause => .pause h
  | .resume => .resume h
  | .close => .close h
  | .isClosed | .id | .shown | .peer => h

/-- **A script does the same with every socket.** -/
theorem alike_script (feeds : Bool) (j k : Nat) :
    (actions : List Action) → Alike j k (script feeds j actions) (script feeds k actions)
  | [] => .done
  | a :: rest => .look fun _ _ hv =>
    alike_effect feeds j k (.note (by simp [Note.faceless, faceless_reply a hv])
      (alike_script feeds j k rest)) a

end

end Rehearsal

/-! ### A session that is over -/

namespace Session

variable {s s' s'' : Session C}

/-- The session is as it was, but for being paused or not, a handler that is given nothing, the
counts of its handlers and farewells, and what its application does by itself. -/
structure Idles (s s' : Session C) : Prop where
  rest : ∃ paused handler handlers farewells,
    s' = { s with paused, handler, handlers, farewells, past := s'.past }
  past : ∃ news, s'.past = news ++ s.past ∧ ∀ x ∈ news, x.2.isInner = true

theorem Idles.refl (s : Session C) : s.Idles s := ⟨⟨_, _, _, _, rfl⟩, [], rfl, by simp⟩

theorem Idles.trans (h : s.Idles s') (h' : s'.Idles s'') : s.Idles s'' := by
  obtain ⟨⟨_, _, _, _, hrest⟩, news, hpast, hnews⟩ := h
  obtain ⟨⟨paused, handler, handlers, farewells, hrest'⟩, news', hpast', hnews'⟩ := h'
  refine ⟨⟨paused, handler, handlers, farewells, ?_⟩, news' ++ news, ?_, ?_⟩
  · rw [hrest', hrest]
  · rw [hpast', hpast, List.append_assoc]
  · simpa only [List.forall_mem_append] using ⟨hnews', hnews⟩

theorem Idles.isClosed_eq (h : s.Idles s') : s'.isClosed = s.isClosed := by
  obtain ⟨⟨_, _, _, _, hrest⟩, -⟩ := h
  rw [hrest]
  rfl

theorem Idles.view_eq (h : s.Idles s') : s'.view = s.view := by
  obtain ⟨⟨_, _, _, _, hrest⟩, -⟩ := h
  rw [hrest]
  rfl

theorem idles_record (now : Moment) (s : Session C) {e : Event} (he : e.isInner = true) :
    s.Idles (s.record now e) :=
  ⟨⟨_, _, _, _, rfl⟩, [(now, e)], rfl, by simpa using he⟩

theorem idles_paused (s : Session C) (paused : Bool) : s.Idles { s with paused := paused } :=
  ⟨⟨_, _, _, _, rfl⟩, [], rfl, by simp⟩

/-- A closed session keeps a handler that is set, and says nothing of it. -/
theorem idles_setHandler (hp : s.phase = .closed) (now : Moment) (handler : String → Program) :
    s.Idles (s.setHandler now handler) ∧ (s.setHandler now handler).past = s.past := by
  rw [setHandler_of_closed hp]
  exact ⟨⟨⟨_, _, _, _, rfl⟩, [], rfl, by simp⟩, rfl⟩

theorem idles_passFarewell (now : Moment) (s : Session C) : s.Idles (s.passFarewell now) :=
  ⟨⟨_, _, _, _, rfl⟩, [(now, .farewellRun _), (now, .farewellSet _)], rfl,
    by simp [Event.isInner]⟩

end Session

namespace World

variable {w w' w'' w₁ : World C} {s s' : Session C} {k : Nat} {rest : List Task}

/-- A session that is over is closed as long as it is kept. -/
theorem closed_of_live (hc : s.isClosed = true) (hl : w.live? k = some s) : s.phase = .closed := by
  simpa [Session.isClosed, (live?_eq_some.mp hl).2] using hc

/-- All is as it was, but for the tasks, and session `k` does no more than idle. -/
structure Spares (k : Nat) (w w' : World C) : Prop where
  others : ∀ i, i ≠ k → w'.sessions[i]? = w.sessions[i]?
  own : ∀ s, w.sessions[k]? = some s → ∃ s', w'.sessions[k]? = some s' ∧ s.Idles s'
  sockets : w'.sockets = w.sockets
  stopping : w'.stopping = w.stopping
  registry : w'.registry = w.registry

theorem Spares.trans (h : Spares k w w') (h' : Spares k w' w'') : Spares k w w'' where
  others i hi := (h'.others i hi).trans (h.others i hi)
  own s hs := by
    obtain ⟨s', hs', hidles⟩ := h.own s hs
    obtain ⟨s'', hs'', hidles'⟩ := h'.own s' hs'
    exact ⟨s'', hs'', hidles.trans hidles'⟩
  sockets := h'.sockets.trans h.sockets
  stopping := h'.stopping.trans h.stopping
  registry := h'.registry.trans h.registry

/-- What happened to session `k`, the oldest event first. -/
def history (w : World C) (k : Nat) : List Event :=
  (w.sessions[k]?).elim [] fun s => (s.past.map (·.2)).reverse

section Carriers

variable [Carrier C]

/-- What the program on top is told when the next step is taken. -/
def answers (w : World C) : List Line :=
  match w.tasks with
  | .act (.write k message _) :: _ =>
    [.written ((w.live? k).elim (some .closed) fun s => (s.write w.now message).2)]
  | .act (.look k _) :: _ => [.shown (w.view k)]
  | _ => []

/-- What is heard of socket `k` when the next step is taken. -/
def heard (w : World C) (k : Nat) : List Line :=
  w.answers ++ ((w.step.history k).drop (w.history k).length).map .event

/-- Step after step until `n` tasks are left, with all that is heard of socket `k`. -/
inductive Tells (pace : Moment → Moment) (k n : Nat) : World C → List Line → World C → Prop
  | done {w : World C} (ht : w.tasks.length = n) : Tells pace k n w [] w
  | step {w w' : World C} {lines : List Line} (ht : n < w.tasks.length)
      (h : Tells pace k n (w.stepAt pace) lines w') :
      Tells pace k n w ((w.paced pace).heard k ++ lines) w'

variable {pace : Moment → Moment} {lines lines' spoken spoken' : List Line} {n n' : Nat}

/-- There is one way to go on. -/
theorem Tells.unique (h : Tells pace k n w lines w') (h' : Tells pace k n w lines' w'') :
    lines = lines' ∧ w' = w'' := by
  induction h generalizing lines' with
  | done ht =>
    cases h' with
    | done => exact ⟨rfl, rfl⟩
    | step ht' => exact absurd ht (Nat.ne_of_gt ht')
  | step ht _ ih =>
    cases h' with
    | done ht' => exact absurd ht' (Nat.ne_of_gt ht)
    | step _ h' =>
      obtain ⟨rfl, rfl⟩ := ih h'
      exact ⟨rfl, rfl⟩

theorem Tells.trans (h : Tells pace k n w lines w') (hn : n' ≤ n)
    (h' : Tells pace k n' w' lines' w'') : Tells pace k n' w (lines ++ lines') w'' := by
  induction h with
  | done => exact h'
  | step ht _ ih =>
    rw [List.append_assoc]
    exact .step (Nat.lt_of_le_of_lt hn ht) (ih h')

/-- Steps after which the tasks `rest` are left, with what is heard of socket `k`, while nothing
else changes. -/
structure Telling (pace : Moment → Moment) (k : Nat) (rest : List Task) (spoken : List Line)
    (w w' : World C) : Prop where
  tells : ∃ lines, Tells pace k rest.length w lines w' ∧ lines.map Line.faceless = spoken
  tasks : w'.tasks = rest
  spares : Spares k w w'

theorem Telling.refl (ht : w.tasks = rest) : Telling pace k rest [] w w where
  tells := ⟨[], .done (by rw [ht]), rfl⟩
  tasks := ht
  spares := ⟨fun _ _ => rfl, fun s hs => ⟨s, hs, .refl s⟩, rfl, rfl, rfl⟩

theorem Telling.trans {above : List Task} (h : Telling pace k (above ++ rest) spoken w w')
    (h' : Telling pace k rest spoken' w' w'') :
    Telling pace k rest (spoken ++ spoken') w w'' := by
  obtain ⟨lines, htells, rfl⟩ := h.tells
  obtain ⟨lines', htells', rfl⟩ := h'.tells
  refine ⟨⟨lines ++ lines', htells.trans ?_ htells', List.map_append⟩, h'.tasks,
    h.spares.trans h'.spares⟩
  simp

/-- A step that leaves the session idle, with what it leaves to do above `rest`. -/
structure Tick (pace : Moment → Moment) (k : Nat) (ts rest : List Task) (spoken : List Line)
    (w : World C) : Prop where
  heard : ((w.paced pace).heard k).map Line.faceless = spoken
  tasks : (w.stepAt pace).tasks = ts ++ rest
  spares : Spares k w (w.stepAt pace)

variable {t : Task} {ts ts' : List Task} {v : View}

/-- A step is such a step if it changes the session to an idle one and leaves the rest alone. -/
theorem tick_of_eq {news : List (Moment × Event)}
    (hs : w.sessions[k]? = some s) (hidle : s.Idles s') (hpast : s'.past = news ++ s.past)
    (hstep : w.stepAt pace =
      ({ w with now := pace w.now, tasks := ts ++ rest } : World C).modify k fun _ => s') :
    Tick pace k ts rest (((w.paced pace).answers ++
      (news.map (·.2)).reverse.map Line.event).map Line.faceless) w := by
  have hs' : (w.stepAt pace).sessions[k]? = some s' := by simp [hstep, hs]
  refine ⟨?_, ?_, ?_⟩
  -- what is heard are the answers and what is new in the history
  · have hhistory : (w.paced pace).history k = (s.past.map (·.2)).reverse := by
      simp [history, paced, hs]
    have hhistory' : (w.paced pace).step.history k =
        (s.past.map (·.2)).reverse ++ (news.map (·.2)).reverse := by
      have hsame : (w.paced pace).step = w.stepAt pace := rfl
      simp [history, hsame, hs', hpast]
    rw [heard, hhistory, hhistory', List.drop_left]
  · rw [hstep]
    rfl
  -- and nothing but this session changes
  · refine ⟨fun i hi => ?_, fun s₀ hs₀ => ?_, ?_, ?_, ?_⟩
    · simp [hstep, hi.symm]
    · obtain rfl := Option.some.inj (hs.symm.trans hs₀)
      exact ⟨s', hs', hidle⟩
    · rw [hstep]
      rfl
    · rw [hstep]
      rfl
    · rw [hstep]
      rfl

variable (C pace k) in
/-- Where session `k` is over and its socket shows `v`, the tasks come to an end, and this is what
is heard of them. -/
def Told (v : View) (ts : List Task) (spoken : List Line) : Prop :=
  ∀ (w : World C) (s : Session C) (rest : List Task), w.sessions[k]? = some s →
    s.isClosed = true → s.view = v → w.tasks = ts ++ rest →
    ∃ w', Telling pace k rest spoken w w'

theorem told_nil : Told C k pace v [] [] := fun w _ _ _ _ _ ht => ⟨w, .refl ht⟩

theorem Told.append (h : Told C k pace v ts spoken) (h' : Told C k pace v ts' spoken') :
    Told C k pace v (ts ++ ts') (spoken ++ spoken') := by
  intro w s rest hs hc hv ht
  obtain ⟨w₁, h₁⟩ := h w s (ts' ++ rest) hs hc hv (by rw [ht, List.append_assoc])
  -- the session is still over and shows the same, so the second part may be told of it as well
  obtain ⟨s₁, hs₁, hidle⟩ := h₁.spares.own s hs
  obtain ⟨w₂, h₂⟩ := h' w₁ s₁ rest hs₁ (hidle.isClosed_eq.trans hc) (hidle.view_eq.trans hv)
    h₁.tasks
  exact ⟨w₂, h₁.trans h₂⟩

/-- What is heard of a task is what is heard of its first step, and of what that leaves to do. -/
theorem told_of_tick {l : List Line} (tick : ∀ (w : World C) (s : Session C) (rest : List Task),
      w.sessions[k]? = some s → s.isClosed = true → s.view = v → w.tasks = t :: rest →
      ∃ ts, Told C k pace v ts spoken ∧ Tick pace k ts rest l w) :
    Told C k pace v [t] (l ++ spoken) := by
  intro w s rest hs hc hv ht
  obtain ⟨ts, h, htick⟩ := tick w s rest hs hc hv ht
  obtain ⟨s₁, hs₁, hidle⟩ := htick.spares.own s hs
  obtain ⟨w', h'⟩ := h (w.stepAt pace) s₁ rest hs₁ (hidle.isClosed_eq.trans hc)
    (hidle.view_eq.trans hv) htick.tasks
  obtain ⟨lines, htells, hlines⟩ := h'.tells
  refine ⟨w', ⟨_, .step ?_ htells, ?_⟩, h'.tasks, htick.spares.trans h'.spares⟩
  · rw [ht]
    exact Nat.lt_succ_self _
  · rw [List.map_append, htick.heard, hlines]

/-- A step that changes nothing but the tasks. -/
theorem tick_of_same (hs : w.sessions[k]? = some s)
    (hstep : w.stepAt pace = { w with now := pace w.now, tasks := ts ++ rest }) :
    Tick pace k ts rest ((w.paced pace).answers.map Line.faceless) w := by
  have hpast : s.past = [] ++ s.past := rfl
  have htick : Tick pace k ts rest _ w := tick_of_eq hs (.refl s) hpast
    (by rw [hstep, modify_eq_self (w := { w with now := pace w.now, tasks := ts ++ rest }) hs rfl])
  simpa using htick

/-! ### What each task tells -/

theorem answers_of_isMute {p : Program} (mute : p.isMute = true) (ht : w.tasks = .act p :: rest) :
    w.answers = [] := by
  cases p with
  | write | look => cases mute
  | _ => simp only [answers, ht]

/-- What is written to a session that is over is refused. -/
theorem write_of_isClosed (hs : w.sessions[k]? = some s) (hc : s.isClosed = true)
    {message : String} {next : Option WriteError → Program}
    (ht : w.tasks = .act (.write k message next) :: rest) :
    w.answers = [.written (some .closed)] ∧
      w.step = { w with tasks := .act (next (some .closed)) :: rest } := by
  rcases live?_cases hs with hl | hl
  · refine ⟨?_, ?_⟩
    · simp only [answers, ht, hl, Option.elim_none]
    · have hl' : ({ w with tasks := rest } : World C).live? k = none := hl
      simp only [step, ht, perform, hl']
      rfl
  · have hphase := closed_of_live hc hl
    refine ⟨?_, step_write_of_closed hs hphase ht⟩
    simp only [answers, ht, hl, Option.elim_some, Session.write_of_closed hphase]

omit [Carrier C] in
/-- A session that is over gives nothing out. -/
theorem drain_of_isClosed (hs : w.sessions[k]? = some s) (hc : s.isClosed = true) :
    w.drain k = w := by
  rcases live?_cases hs with hl | hl
  · simp [drain, hl]
  · exact drain_of_closed hs (closed_of_live hc hl)

/-- To close it again changes nothing. -/
theorem close_of_isClosed (hs : w.sessions[k]? = some s) (hc : s.isClosed = true) :
    w.close k = w := by
  rcases live?_cases hs with hl | hl
  · simp [close, hl]
  · exact close_of_closed hs (closed_of_live hc hl)

/-- What is heard of a task that comes to nothing. -/
theorem told_of_idle (mute : ∀ (w : World C) (rest : List Task), w.tasks = t :: rest →
      w.answers = [])
    (idle : ∀ (w : World C) (s : Session C) (rest : List Task), w.sessions[k]? = some s →
      s.isClosed = true → w.tasks = t :: rest → w.step = { w with tasks := rest }) :
    Told C k pace v [t] [] := by
  refine told_of_tick (l := []) fun w s rest hs hc hv ht => ⟨[], told_nil, ?_⟩
  have htick : Tick pace k [] rest _ w := tick_of_same hs (idle (w.paced pace) s rest hs hc ht)
  rwa [mute (w.paced pace) rest ht] at htick

theorem told_drain : Told C k pace v [.drain k] [] := by
  refine told_of_idle (fun w rest ht => by simp [answers, ht]) fun w s rest hs hc ht => ?_
  simp only [step, ht]
  exact drain_of_isClosed (w := { w with tasks := rest }) hs hc

theorem told_close : Told C k pace v [.close k] [] := by
  refine told_of_idle (fun w rest ht => by simp [answers, ht]) fun w s rest hs hc ht => ?_
  simp only [step, ht]
  exact close_of_isClosed (w := { w with tasks := rest }) hs hc

/-- The first action of a program makes `s'` of session `s`, leaves `ts` to do, and leaves these
events in the history. -/
structure Passes (k : Nat) (w : World C) (p : Program) (ts : List Task) (es : List Event)
    (s s' : Session C) : Prop where
  performs : w.perform p = ({ w with tasks := ts ++ w.tasks } : World C).modify k fun _ => s'
  idles : s.Idles s'
  leaves : ∃ news, s'.past = news ++ s.past ∧ (news.map (·.2.faceless)).reverse = es

variable {p q : Program} {spoken' : List Line}

/-- It may leave the session as it is, -/
theorem passes_self (hs : w.sessions[k]? = some s)
    (hp : w.perform p = { w with tasks := ts ++ w.tasks }) : Passes k w p ts [] s s where
  performs := hp.trans (modify_eq_self (w := { w with tasks := ts ++ w.tasks }) hs rfl).symm
  idles := .refl s
  leaves := ⟨[], rfl, rfl⟩

/-- or change it, -/
theorem passes_modify {es : List Event} {f : Session C → Session C} (hs : w.sessions[k]? = some s)
    (hp : w.perform p = ({ w with tasks := ts ++ w.tasks } : World C).modify k f)
    (hidle : s.Idles (f s)) (news : List (Moment × Event)) (hpast : (f s).past = news ++ s.past)
    (hes : (news.map (·.2.faceless)).reverse = es) : Passes k w p ts es s (f s) where
  performs := hp.trans (modify_eq_modify (w := { w with tasks := ts ++ w.tasks }) hs rfl)
  idles := hidle
  leaves := ⟨news, hpast, hes⟩

/-- and this is what is heard of it, if it is not answered. -/
theorem told_of_passes (es : List Event) (mute : p.isMute = true)
    (passes : ∀ (w : World C) (s : Session C), w.sessions[k]? = some s → s.isClosed = true →
      ∃ ts s', Told C k pace v ts spoken ∧ Passes k w p ts es s s') :
    Told C k pace v [.act p] (es.map .event ++ spoken) := by
  refine told_of_tick fun w s rest hs hc hv ht => ?_
  obtain ⟨ts, s', h, hpass⟩ := passes { w with now := pace w.now, tasks := rest } s hs hc
  obtain ⟨news, hpast, hes⟩ := hpass.leaves
  have htick : Tick pace k ts rest _ w := tick_of_eq hs hpass.idles hpast (by
    simp only [stepAt, step, ht]
    exact hpass.performs)
  rw [answers_of_isMute (w := w.paced pace) mute ht] at htick
  exact ⟨ts, h, by simpa [← hes, Function.comp_def, Line.faceless] using htick⟩

/-! ### What each action tells -/

theorem told_note (entry : Note) (h : Told C k pace v [.act p] spoken) :
    Told C k pace v [.act (.note k entry p)] (.event (.noted entry.faceless) :: spoken) :=
  told_of_passes [.noted entry.faceless] rfl fun w s hs _ =>
    ⟨[.act p], _, h, passes_modify hs rfl (s.idles_record w.now rfl) [(w.now, .noted entry)] rfl
      rfl⟩

theorem told_write {message : String} {next : Option WriteError → Program}
    (h : Told C k pace v [.act (next (some .closed))] spoken) :
    Told C k pace v [.act (.write k message next)] (.written (some .closed) :: spoken) := by
  refine told_of_tick (l := [.written (some .closed)]) fun w s rest hs hc hv ht => ⟨_, h, ?_⟩
  obtain ⟨hanswers, hstep⟩ := write_of_isClosed (w := w.paced pace) hs hc ht
  have htick : Tick pace k [.act (next (some .closed))] rest _ w := tick_of_same hs hstep
  rwa [hanswers] at htick

theorem told_onMessage {handler : String → Program} (h : Told C k pace v [.act p] spoken) :
    Told C k pace v [.act (.onMessage k handler p)] spoken := by
  refine told_of_passes [] rfl fun w s hs hc => ?_
  rcases live?_cases hs with hl | hl
  -- nothing keeps it, and nothing is done
  · exact ⟨[.act p], s, h, passes_self hs (by simp only [perform, hl]; rfl)⟩
  -- it is closed, and keeps the handler without giving it a message
  · obtain ⟨hidle, hpast⟩ := Session.idles_setHandler (closed_of_live hc hl) w.now handler
    exact ⟨[.drain k, .act p], _, told_drain.append h,
      passes_modify hs (f := (·.setHandler w.now handler)) (by simp only [perform, hl]; rfl) hidle
        [] hpast rfl⟩

/-- A farewell that is set where the session is over is run at once. -/
theorem told_onClose (hq : Told C k pace v [.act q] spoken)
    (h : Told C k pace v [.act p] spoken') :
    Told C k pace v [.act (.onClose k q p)]
      (.event (.farewellSet 0) :: .event (.farewellRun 0) :: (spoken ++ spoken')) := by
  refine told_of_passes [.farewellSet 0, .farewellRun 0] rfl fun w s hs hc => ?_
  refine ⟨[.act q, .act p], _, hq.append h,
    passes_modify hs (f := (·.passFarewell w.now)) ?_ (s.idles_passFarewell w.now)
      [(w.now, .farewellRun _), (w.now, .farewellSet _)] rfl rfl⟩
  rcases live?_cases hs with hl | hl
  -- nothing keeps it, so the socket runs what is set
  · simp only [perform, hl]
    rfl
  -- it is closed, and answers with what is to be run
  · simp only [perform, hl, Session.setFarewell_of_closed (closed_of_live hc hl)]
    exact modify_eq_modify (w := { w with tasks := [.act q, .act p] ++ w.tasks }) hs rfl

theorem told_pause (h : Told C k pace v [.act p] spoken) :
    Told C k pace v [.act (.pause k p)] spoken := by
  refine told_of_passes [] rfl fun w s hs _ => ?_
  rcases live?_cases hs with hl | hl
  -- nothing keeps it
  · exact ⟨[.act p], s, h, passes_self hs (by simp only [perform, hl]; rfl)⟩
  -- it is closed
  · exact ⟨[.act p], _, h, passes_modify hs (by simp only [perform, hl]; rfl)
      (s.idles_paused true) [] rfl rfl⟩

theorem told_resume (h : Told C k pace v [.act p] spoken) :
    Told C k pace v [.act (.resume k p)] spoken := by
  refine told_of_passes [] rfl fun w s hs _ => ?_
  rcases live?_cases hs with hl | hl
  -- nothing keeps it
  · exact ⟨[.act p], s, h, passes_self hs (by simp only [perform, hl]; rfl)⟩
  -- it is closed, and has nothing to give out
  · exact ⟨[.drain k, .act p], _, told_drain.append h,
      passes_modify hs (by simp only [perform, hl]; rfl) (s.idles_paused false) [] rfl rfl⟩

theorem told_shut (h : Told C k pace v [.act p] spoken) :
    Told C k pace v [.act (.close k p)] spoken :=
  told_of_passes [] rfl fun _ s hs _ =>
    ⟨[.close k, .act p], s, told_close.append h, passes_self hs rfl⟩

theorem told_look {next : View → Program} (h : Told C k pace v [.act (next v)] spoken) :
    Told C k pace v [.act (.look k next)] (.shown v.faceless :: spoken) := by
  refine told_of_tick (l := [.shown v.faceless]) fun w s rest hs hc hv ht => ⟨_, h, ?_⟩
  have hview : ({ w with now := pace w.now, tasks := rest } : World C).view k = v := by
    simp [view, hs, hv]
  have htick : Tick pace k [.act (next v)] rest _ w := tick_of_same hs (by
    simp only [stepAt, step, ht, perform, hview]
    rfl)
  have hanswers : (w.paced pace).answers = [.shown v] := by
    have hview' : (w.paced pace).view k = v := hview
    have ht' : (w.paced pace).tasks = .act (.look k next) :: rest := ht
    simp only [answers, ht', hview']
  rwa [hanswers] at htick

/-- **A program whose session is over comes to its end**, and what it hears depends on its socket
alone. -/
theorem told_act {j : Nat} {p p' : Program} (h : Program.Alike k j p p') :
    Told C k pace v [.act p] (p.spoken v) := by
  -- a handler for messages is never run, so nothing is asked of it
  induction h with
  | done =>
    exact told_of_passes [] rfl fun _ s hs _ => ⟨[], s, told_nil, passes_self hs rfl⟩
  | @note entry _ _ _ _ _ ih => exact told_note entry ih
  | write _ ih => exact told_write (ih (some .closed))
  | onMessage _ ih => exact told_onMessage ih
  | onClose _ _ ihq ih => exact told_onClose ihq ih
  | pause _ ih => exact told_pause ih
  | resume _ ih => exact told_resume ih
  | close _ ih => exact told_shut ih
  | look _ ih => exact told_look (ih v v rfl)

/-! ### Closed or gone -/

/-- A program whose session is over can be run to its end in every world, and spares the rest of
it. -/
theorem exists_tells {j : Nat} {p p' : Program} (h : Program.Alike k j p p')
    (hs : w.sessions[k]? = some s) (hc : s.isClosed = true) (pace : Moment → Moment) :
    ∃ lines u, Tells pace k w.tasks.length (w.act p) lines u ∧
      lines.map Line.faceless = p.spoken s.view ∧ u.tasks = w.tasks ∧ Spares k w u := by
  have htold : Told C k pace s.view [.act p] (p.spoken s.view) := told_act h
  obtain ⟨u, hu⟩ := htold (w.act p) s w.tasks hs hc rfl rfl
  obtain ⟨lines, htells, hlines⟩ := hu.tells
  obtain ⟨others, own, sockets, stopping, registry⟩ := hu.spares
  exact ⟨lines, u, htells, hlines, hu.tasks, ⟨others, own, sockets, stopping, registry⟩⟩

/-- **A socket cannot tell a session that is gone from one that is closed.**  Of two sessions of one
name let one be closed and the other gone, in two worlds or in one, and let alike programs be run
with their sockets.  Both come to their ends, and what they are told and what they leave in the
histories is the same, in the same order, but for who the client is and for the numbers of
farewells.  Neither changes anything else: no session but its own, and of its own only whether it is
paused, a handler that is given nothing, and what the application itself leaves there, so that no
message is given out and no frame is handed over. -/
theorem told_alike {j k : Nat} {p p' : Program} (h : Program.Alike j k p p') (w w' : World C)
    {s s' : Session C} (hs : w.sessions[j]? = some s) (hclosed : s.phase = .closed)
    (hs' : w'.sessions[k]? = some s') (hgone : s'.gone = true) (hid : s.id = s'.id)
    (pace pace' : Moment → Moment) :
    ∃ lines u lines' u',
      (∀ l v, Tells pace j w.tasks.length (w.act p) l v ↔ l = lines ∧ v = u) ∧
      (∀ l v, Tells pace' k w'.tasks.length (w'.act p') l v ↔ l = lines' ∧ v = u') ∧
      lines.map Line.faceless = lines'.map Line.faceless ∧
      u.tasks = w.tasks ∧ Spares j w u ∧ u'.tasks = w'.tasks ∧ Spares k w' u' := by
  have hc : s.isClosed = true := by simp [Session.isClosed, hclosed]
  have hc' : s'.isClosed = true := by simp [Session.isClosed, hgone]
  obtain ⟨lines, u, htells, hlines, htasks, hspares⟩ := exists_tells h hs hc pace
  obtain ⟨lines', u', htells', hlines', htasks', hspares'⟩ := exists_tells h.symm hs' hc' pace'
  -- steps are determined, so what is told is told in one way
  have only {pace : Moment → Moment} {k n : Nat} {w u : World C} {lines : List Line}
      (htells : Tells pace k n w lines u) (l : List Line) (v : World C) :
      Tells pace k n w l v ↔ l = lines ∧ v = u := by
    constructor
    · exact fun h => h.unique htells
    · rintro ⟨rfl, rfl⟩
      exact htells
  have hview : s.view.faceless = s'.view.faceless := by
    simp only [Session.view, View.faceless, hid, hc, hc']
  refine ⟨lines, u, lines', u', only htells, only htells', ?_, htasks, hspares, htasks', hspares'⟩
  rw [hlines, hlines', h.spoken_eq hview]

end Carriers

/-- Two sessions of one name, one closed and one gone, and a live one beside them. -/
def estate : World Conduit where
  sessions :=
    [{ id := "a", timing := .polling {}, onOpen := Application.idle, phase := .closed,
        farewells := 1, peer := some { target := .root } },
      { id := "a", timing := .fullDuplex {}, onOpen := Application.idle, phase := .live,
        gone := true },
      { id := "b", timing := .fullDuplex {}, onOpen := Application.idle, phase := .live }]

/-- A script with a farewell that sets another one. -/
def goodbyes : List Rehearsal.Action :=
  [.write "x", .peer, .closeHandler "outer" [.closeHandler "inner" [.write "y", .close], .resume],
    .handler .echo, .isClosed, .id]

theorem told_alike_estate : ∃ lines u lines' u',
    Tells Moment.next 0 0 (estate.act (Rehearsal.script false 0 goodbyes)) lines u ∧
    Tells Moment.next 1 0 (estate.act (Rehearsal.script false 1 goodbyes)) lines' u' ∧
    lines.map Line.faceless = lines'.map Line.faceless ∧
    Spares 0 estate u ∧ Spares 1 estate u' := by
  obtain ⟨lines, u, lines', u', hu, hu', hlines, -, hspares, -, hspares'⟩ :=
    told_alike (Rehearsal.alike_script false 0 1 goodbyes) estate estate rfl rfl rfl rfl rfl
      Moment.next Moment.next
  exact ⟨lines, u, lines', u', (hu lines u).mpr ⟨rfl, rfl⟩, (hu' lines' u').mpr ⟨rfl, rfl⟩, hlines,
    hspares, hspares'⟩

end World

end Duplex
