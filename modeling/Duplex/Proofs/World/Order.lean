/-
Duplex/Proofs/World/Order.lean

The order in which sessions close.

A closed session refuses whatever its application asks of it, so a farewell that
uses its own socket and no other comes to the same in every world: it leaves its
mark on that session, and on nothing else.  `Program.ran` says which mark, and
`marks_of_on` that this is what the world's steps come to; there is a rule for
each action of a program.

So closing several sessions, each with such a farewell, changes each of them as
if it were alone.  Changes to different sessions commute, and the world comes
out the same in whatever order the sessions are taken (`runs_closes`,
`foldl_conclude_perm`).
-/
import Duplex.Proofs.World.Ending
import Duplex.Proofs.World.Entries

namespace Duplex

variable {C : Type}

/-- What becomes of a closed session when a program that uses its socket runs to the end. -/
def Program.ran (now : Moment) : Program → Session C → Session C
  | .done, s => s
  | .note _ entry rest, s => rest.ran now (s.record now (.noted entry))
  | .write _ _ next, s => (next (some .closed)).ran now s
  | .onMessage _ handler rest, s => rest.ran now (s.setHandler now handler)
  | .onClose _ handler rest, s => rest.ran now (handler.ran now (s.passFarewell now))
  | .pause _ rest, s => rest.ran now { s with paused := true }
  | .resume _ rest, s => rest.ran now { s with paused := false }
  | .close _ rest, s => rest.ran now s
  | .look _ next, s => (next s.view).ran now s
  | .feed .., s => s

namespace Session

/-- A session that is told to close, when its farewell has run to the end. -/
def concluded [Carrier C] (now : Moment) (s : Session C) : Session C :=
  match s.farewell with
  | none => (s.depart now).1
  | some (_, p) => p.ran now (s.depart now).1

/-- The session is closed, and something keeps it still. -/
structure Lingers (s : Session C) : Prop where
  closed : s.phase = .closed
  kept : s.gone = false

theorem Lingers.setHandler {s : Session C} (h : s.Lingers) (now : Moment)
    (handler : String → Program) : (s.setHandler now handler).Lingers := by
  rw [setHandler_of_closed h.closed]
  exact ⟨h.closed, h.kept⟩

/-- It goes on lingering, whatever its program does. -/
theorem Lingers.ran {p : Program} {now : Moment} {s : Session C} (h : s.Lingers) :
    (p.ran now s).Lingers := by
  induction p generalizing s with
  | done | feed => exact h
  | note k entry rest ih => exact ih ⟨h.closed, h.kept⟩
  | write k message next ih => exact ih _ h
  | onMessage k handler rest _ ih => exact ih (h.setHandler now handler)
  | onClose k handler rest ihf ih => exact ih (ihf ⟨h.closed, h.kept⟩)
  | pause k rest ih => exact ih ⟨h.closed, h.kept⟩
  | resume k rest ih => exact ih ⟨h.closed, h.kept⟩
  | close k rest ih => exact ih h
  | look k next ih => exact ih _ h

end Session

namespace World

open Session

variable [Carrier C] {w w' : World C} {k : Nat} {s : Session C}

omit [Carrier C] in
theorem live?_of_lingers (hs : w.sessions[k]? = some s) (h : s.Lingers) : w.live? k = some s :=
  live?_eq_some.mpr ⟨hs, h.kept⟩

/-! ### One session -/

theorem Runs.of_step {t : Task} {rest : List Task} (ht : w.tasks = t :: rest)
    (h : Runs id w.step w') : Runs id w w' := .step (by simp [ht]) h

/-- Steps at one moment are a run. -/
theorem Runs.exists_after (h : Runs id w w') : ∃ n, w' = w.after (List.replicate n .step) := by
  induction h with
  | refl w => exact ⟨0, rfl⟩
  | step _ _ ih =>
    obtain ⟨n, hn⟩ := ih
    exact ⟨n + 1, hn⟩

/-- A closed session that is asked for messages has none to give. -/
theorem runs_drain_of_closed (hs : w.sessions[k]? = some s) (hc : s.phase = .closed) :
    Runs id (w.push (.drain k)) w := by
  have hstep : (w.push (.drain k)).step = w := drain_of_closed hs hc
  refine .of_step rfl ?_
  rw [hstep]
  exact .refl w

/-- A closed session that is told to close has nothing left to do. -/
theorem runs_close_of_closed (hs : w.sessions[k]? = some s) (hc : s.phase = .closed) :
    Runs id (w.push (.close k)) w := by
  have hstep : (w.push (.close k)).step = w := close_of_closed hs hc
  refine .of_step rfl ?_
  rw [hstep]
  exact .refl w

omit [Carrier C] in
/-- Of two changes to one session that do not look at it the second one counts. -/
theorem modify_modify (w : World C) (k : Nat) (f : Session C → Session C) (s : Session C) :
    (w.modify k f).modify k (fun _ => s) = w.modify k fun _ => s := by
  simp only [modify, List.modify_modify_eq]
  rfl

omit [Carrier C] in
theorem getElem?_modify_self (hs : w.sessions[k]? = some s) (f : Session C → Session C) :
    (w.modify k f).sessions[k]? = some (f s) := by
  simp [hs]

variable (C k) in
/-- When it runs in a session that lingers, the program leaves its mark there and changes nothing
else. -/
def Marks (p : Program) : Prop :=
  ∀ (w : World C) (s : Session C) (rest : List Task), w.sessions[k]? = some s → s.Lingers →
    w.tasks = .act p :: rest →
    Runs id w (({ w with tasks := rest } : World C).modify k fun _ => p.ran w.now s)

variable {q : Program} {rest : List Task}

/-- The mark of what is left to run comes on top of what was done before. -/
theorem Marks.after (h : Marks C k q) {f : Session C → Session C} (hs : w.sessions[k]? = some s)
    (hl : (f s).Lingers)
    (hruns : Runs id w (({ w with tasks := .act q :: rest } : World C).modify k f)) :
    Runs id w (({ w with tasks := rest } : World C).modify k fun _ => q.ran w.now (f s)) := by
  have hq := h (({ w with tasks := .act q :: rest } : World C).modify k f) (f s) rest
    (getElem?_modify_self (w := { w with tasks := .act q :: rest }) hs f) hl rfl
  rw [← modify_modify ({ w with tasks := rest } : World C) k f]
  exact hruns.trans hq

/-- So it does when nothing was changed before. -/
theorem Marks.after_self (h : Marks C k q) (hs : w.sessions[k]? = some s) (hl : s.Lingers)
    (hruns : Runs id w { w with tasks := .act q :: rest }) :
    Runs id w (({ w with tasks := rest } : World C).modify k fun _ => q.ran w.now s) :=
  hruns.trans (h { w with tasks := .act q :: rest } s rest hs hl rfl)

/-! ### What each action comes to -/

theorem marks_done : Marks C k .done := by
  intro w s rest hs _ ht
  refine .of_step ht ?_
  simp only [step, ht, perform, Program.ran]
  rw [modify_eq_self (w := { w with tasks := rest }) hs rfl]
  exact .refl _

theorem Marks.note (h : Marks C k q) (entry : Note) : Marks C k (.note k entry q) := by
  intro w s rest hs hl ht
  refine h.after (f := (·.record w.now (.noted entry))) hs ⟨hl.closed, hl.kept⟩ (.of_step ht ?_)
  simp only [step, ht, perform]
  exact .refl _

/-- What it writes is refused. -/
theorem Marks.write {next : Option WriteError → Program} (h : Marks C k (next (some .closed)))
    (message : String) : Marks C k (.write k message next) := by
  intro w s rest hs hl ht
  refine h.after_self hs hl (.of_step ht ?_)
  rw [step_write_of_closed hs hl.closed ht]
  exact .refl _

/-- The handler that it sets is kept, and given nothing. -/
theorem Marks.onMessage (h : Marks C k q) (handler : String → Program) :
    Marks C k (.onMessage k handler q) := by
  intro w s rest hs hl ht
  have hset := hl.setHandler w.now handler
  refine h.after (f := (·.setHandler w.now handler)) hs hset (.of_step ht ?_)
  have hstep : w.step =
      (({ w with tasks := .act q :: rest } : World C).modify k
        (·.setHandler w.now handler)).push (.drain k) := by
    simp only [step, ht, perform, live?_of_lingers (w := { w with tasks := rest }) hs hl]
    rfl
  rw [hstep]
  exact runs_drain_of_closed
    (getElem?_modify_self (w := { w with tasks := .act q :: rest }) hs _) hset.closed

/-- The farewell that it sets is run first, and what is left of the program after it. -/
theorem Marks.onClose {handler : Program} (hf : Marks C k handler) (h : Marks C k q) :
    Marks C k (.onClose k handler q) := by
  intro w s rest hs hl ht
  have hpass : (s.passFarewell w.now).Lingers := ⟨hl.closed, hl.kept⟩
  refine h.after (f := fun _ => handler.ran w.now (s.passFarewell w.now)) hs hpass.ran ?_
  refine hf.after (f := fun _ => s.passFarewell w.now) hs hpass (.of_step ht ?_)
  simp only [step, ht, perform, live?_of_lingers (w := { w with tasks := rest }) hs hl,
    setFarewell_of_closed hl.closed]
  exact .refl _

theorem Marks.pause (h : Marks C k q) : Marks C k (.pause k q) := by
  intro w s rest hs hl ht
  refine h.after (f := fun s => { s with paused := true }) hs ⟨hl.closed, hl.kept⟩
    (.of_step ht ?_)
  simp only [step, ht, perform, live?_of_lingers (w := { w with tasks := rest }) hs hl]
  exact .refl _

theorem Marks.resume (h : Marks C k q) : Marks C k (.resume k q) := by
  intro w s rest hs hl ht
  refine h.after (f := fun s => { s with paused := false }) hs ⟨hl.closed, hl.kept⟩
    (.of_step ht ?_)
  have hstep : w.step =
      (({ w with tasks := .act q :: rest } : World C).modify k fun s =>
        { s with paused := false }).push (.drain k) := by
    simp only [step, ht, perform, live?_of_lingers (w := { w with tasks := rest }) hs hl]
    rfl
  rw [hstep]
  exact runs_drain_of_closed
    (getElem?_modify_self (w := { w with tasks := .act q :: rest }) hs _) hl.closed

theorem Marks.close (h : Marks C k q) : Marks C k (.close k q) := by
  intro w s rest hs hl ht
  refine h.after_self hs hl (.of_step ht ?_)
  have hstep : w.step = ({ w with tasks := .act q :: rest } : World C).push (.close k) := by
    simp only [step, ht, perform]
    rfl
  rw [hstep]
  exact runs_close_of_closed (w := { w with tasks := .act q :: rest }) hs hl.closed

theorem Marks.look {next : View → Program} (h : ∀ v, Marks C k (next v)) :
    Marks C k (.look k next) := by
  intro w s rest hs hl ht
  have hview : ({ w with tasks := rest } : World C).view k = s.view := by simp [view, hs]
  refine (h s.view).after_self hs hl (.of_step ht ?_)
  simp only [step, ht, perform, hview]
  exact .refl _

/-- **A program of a closed session leaves its mark there**, and changes nothing else. -/
theorem marks_of_on {p : Program} (hp : p.On (· = k)) : Marks C k p := by
  induction p with
  | done => exact marks_done
  | note j entry next ih =>
    obtain ⟨rfl, hnext⟩ := hp
    exact (ih hnext).note entry
  | write j message next ih =>
    obtain ⟨rfl, hnext⟩ := hp
    exact (ih _ (hnext _)).write message
  | onMessage j handler next _ ih =>
    obtain ⟨rfl, -, hnext⟩ := hp
    exact (ih hnext).onMessage handler
  | onClose j handler next ihf ih =>
    obtain ⟨rfl, hf, hnext⟩ := hp
    exact (ihf hf).onClose (ih hnext)
  | pause j next ih =>
    obtain ⟨rfl, hnext⟩ := hp
    exact (ih hnext).pause
  | resume j next ih =>
    obtain ⟨rfl, hnext⟩ := hp
    exact (ih hnext).resume
  | close j next ih =>
    obtain ⟨rfl, hnext⟩ := hp
    exact (ih hnext).close
  | look j next ih =>
    obtain ⟨rfl, hnext⟩ := hp
    exact Marks.look fun v => ih v (hnext v)
  -- a socket does not let its application feed the session
  | feed => exact hp.elim

/-! ### Several sessions -/

/-- **A session whose farewell uses its own socket closes as if it were alone.** -/
theorem runs_close (hl : w.live? k = some s) (hp : s.phase ≠ .closed)
    (hown : ∀ n p, s.farewell = some (n, p) → p.On (· = k)) {rest : List Task}
    (ht : w.tasks = .close k :: rest) :
    Runs id w
      ((({ w with tasks := rest } : World C).modify k (·.concluded w.now)).unregister k) := by
  obtain ⟨hs, hg⟩ := live?_eq_some.mp hl
  have hl' : ({ w with tasks := rest } : World C).live? k = some s := hl
  have hlingers : (s.depart w.now).1.Lingers := by
    obtain ⟨hc, -⟩ | ⟨-, _, _, -, h⟩ := depart_cases w.now s
    · exact absurd hc hp
    · rw [h]
      exact ⟨rfl, hg⟩
  have hmodify : ({ w with tasks := rest } : World C).modify k (·.concluded w.now) =
      ({ w with tasks := rest } : World C).modify k fun _ => s.concluded w.now :=
    modify_eq_modify (w := { w with tasks := rest }) hs rfl
  rw [hmodify]
  refine .of_step ht ?_
  simp only [step, ht]
  rw [close_of_live hl' hp, depart_snd hp]
  -- with no farewell kept it is over, otherwise the farewell runs to its end
  rcases hf : s.farewell with - | ⟨n, p⟩
  · have hend : s.concluded w.now = (s.depart w.now).1 := by simp [concluded, hf]
    rw [hend]
    exact .refl _
  · have hend : s.concluded w.now = p.ran w.now (s.depart w.now).1 := by simp [concluded, hf]
    rw [hend]
    have hmark := marks_of_on (C := C) (hown n p hf)
      (((({ w with tasks := rest } : World C).modify k fun _ => (s.depart w.now).1).unregister
        k).act p) (s.depart w.now).1 rest (by simp [hs]) hlingers rfl
    have hboth := modify_modify
      (({ w with tasks := rest } : World C).unregister k) k (fun _ => (s.depart w.now).1)
      (p.ran w.now (s.depart w.now).1)
    exact Eq.subst (motive := Runs id _) hboth hmark

/-- Session `k` is closed, as if it were alone, and leaves the registry. -/
def conclude (w : World C) (k : Nat) : World C := (w.modify k (·.concluded w.now)).unregister k

/-- To close one session and then another is to close them the other way round. -/
theorem conclude_comm (w : World C) (j k : Nat) :
    (w.conclude j).conclude k = (w.conclude k).conclude j := by
  by_cases h : j = k
  · rw [h]
  · have hs := List.modify_modify_ne (Session.concluded w.now) (Session.concluded w.now)
      w.sessions h
    simp only [conclude, unregister, modify, List.filter_filter, Bool.and_comm, hs]

/-- So it makes no difference in which order several sessions are closed. -/
theorem foldl_conclude_perm (w : World C) {ks ks' : List Nat} (h : ks.Perm ks') :
    ks.foldl conclude w = ks'.foldl conclude w :=
  h.foldl_eq' (fun j _ k _ w => conclude_comm w j k) w

/-- Session `k` is open, and its farewell uses its own socket. -/
def MindsItself (w : World C) (k : Nat) : Prop :=
  ∃ s, w.live? k = some s ∧ s.phase ≠ .closed ∧
    ∀ n p, s.farewell = some (n, p) → p.On (· = k)

/-- The others do not notice that a session closes. -/
theorem MindsItself.conclude {j : Nat} (h : w.MindsItself j) (hjk : k ≠ j) :
    (w.conclude k).MindsItself j := by
  obtain ⟨s, hl, hs⟩ := h
  refine ⟨s, ?_, hs⟩
  obtain ⟨hj, hg⟩ := live?_eq_some.mp hl
  have hsame : (w.conclude k).sessions[j]? = w.sessions[j]? := by
    simp [World.conclude, hjk]
  exact live?_eq_some.mpr ⟨hsame.trans hj, hg⟩

/-- **Sessions that mind themselves close one after another**, each as if it were alone. -/
theorem runs_closes {ks : List Nat} {rest : List Task} (hnodup : ks.Nodup)
    (hown : ∀ k ∈ ks, w.MindsItself k) (ht : w.tasks = ks.map .close ++ rest) :
    Runs id w (ks.foldl conclude { w with tasks := rest }) := by
  induction ks generalizing w with
  | nil =>
    obtain rfl : w.tasks = rest := ht
    exact .refl w
  | cons k ks ih =>
    obtain ⟨hk, hks⟩ := List.nodup_cons.mp hnodup
    obtain ⟨s, hl, hp, hs⟩ := hown k List.mem_cons_self
    have htasks : w.tasks = .close k :: (ks.map .close ++ rest) := by simpa using ht
    refine (runs_close hl hp hs htasks).trans (ih hks ?_ rfl)
    intro j hj
    have hne : k ≠ j := by
      rintro rfl
      exact hk hj
    exact (hown j (List.mem_cons_of_mem k hj)).conclude hne

/-- **It makes no difference in which order the registered sessions are closed**, if their farewells
use their own sockets. -/
theorem exists_same_end (h : Entries w) (hown : ∀ e ∈ w.registry, w.MindsItself e.2) :
    ∃ w', w'.tasks = w.tasks ∧ ∀ es : List (String × Nat), es.Perm w.registry →
      Runs id { w with tasks := es.map (fun e => .close e.2) ++ w.tasks } w' := by
  have tasks_foldl (ks : List Nat) (w : World C) : (ks.foldl conclude w).tasks = w.tasks := by
    induction ks generalizing w with
    | nil => rfl
    | cons k ks ih => exact ih (w.conclude k)
  refine ⟨(w.registry.map (·.2)).foldl conclude w, tasks_foldl _ w, ?_⟩
  intro es hes
  have hnumbers : (es.map (·.2)).Perm (w.registry.map (·.2)) := hes.map _
  rw [← foldl_conclude_perm w hnumbers]
  refine runs_closes (w := { w with tasks := es.map (fun e => .close e.2) ++ w.tasks })
    (hnumbers.nodup_iff.mpr h.numbers) ?_ (by simp)
  intro k hk
  obtain ⟨e, he, rfl⟩ := List.mem_map.mp hk
  exact hown e (hes.mem_iff.mp he)

end World

end Duplex
