/-
Duplex/Proofs/World/Ending.lean

Tasks come to an end.

An application that has nothing but sockets can do what a socket offers, and a
socket does not let it feed a session.  Then whatever the application does, to
whichever sockets, is over after finitely many steps.  `Program.On` says of a
program that it only uses sockets, and only some of them.

The reason is a number that no task makes larger: how many messages wait to be
given out, and how many sessions are not over.  A handler only runs for a
message that is taken from the queue, and a farewell only when its session
closes, so either makes the number smaller.  In between, each task leaves
nothing but parts of the program that it began (`under_of_leaves`).  So the
induction is on the number first and on the program second (`ending_of_isTame`).

Tasks do no more to a session than `Worked` allows, and so keep whatever the
deeds of tasks keep.
-/
import Duplex.Proofs.Session.Farewell
import Duplex.Proofs.Session.Inbound
import Duplex.Proofs.World.Registered
import Mathlib.Algebra.GroupWithZero.Nat

namespace Duplex

variable {C : Type}

/-! ### Programs that use sockets -/

namespace Program

/-- All that the program does is done to sockets in `S`, and is something that sockets offer. -/
def On (S : Nat → Prop) : Program → Prop
  | .done => True
  | .note k _ rest => S k ∧ rest.On S
  | .write k _ next => S k ∧ ∀ r, (next r).On S
  | .onMessage k handler rest => S k ∧ (∀ m, (handler m).On S) ∧ rest.On S
  | .onClose k handler rest => S k ∧ handler.On S ∧ rest.On S
  | .pause k rest => S k ∧ rest.On S
  | .resume k rest => S k ∧ rest.On S
  | .close k rest => S k ∧ rest.On S
  | .look k next => S k ∧ ∀ v, (next v).On S
  | .feed .. => False

theorem On.part {S : Nat → Prop} {p q : Program} (h : p.On S) (hq : Part q p) : q.On S := by
  cases hq with
  | farewell => exact h.2.1
  | next left =>
    cases left with
    | note | pause | resume | close => exact h.2
    | write r => exact h.2 r
    | onMessage | onClose => exact h.2.2
    | look v => exact h.2 v
    | feed => exact h.elim

/-- It asks for messages only where it may. -/
theorem On.of_wakes {S : Nat → Prop} {p : Program} (h : p.On S) {k : Nat} (hw : p.Wakes k) :
    S k := by
  cases p with
  | onMessage | resume =>
    obtain rfl := hw
    exact h.1
  | feed => exact h.elim
  | _ => exact hw.elim

/-- So it does when it closes. -/
theorem On.of_asks {S : Nat → Prop} {p : Program} (h : p.On S) {k : Nat} (ha : p.Asks k) :
    S k := by
  cases p with
  | close =>
    obtain rfl := ha
    exact h.1
  | feed => exact h.elim
  | _ => exact ha.elim

/-- The program uses sockets and nothing else. -/
def IsTame (p : Program) : Prop := p.On fun _ => True

theorem On.isTame {S : Nat → Prop} {p : Program} (h : p.On S) : p.IsTame := by
  induction p with
  | done => trivial
  | note k entry rest ih => exact ⟨trivial, ih h.2⟩
  | write k message next ih => exact ⟨trivial, fun r => ih r (h.2 r)⟩
  | onMessage k handler rest ihf ih => exact ⟨trivial, fun m => ihf m (h.2.1 m), ih h.2.2⟩
  | onClose k handler rest ihf ih => exact ⟨trivial, ihf h.2.1, ih h.2.2⟩
  | pause k rest ih => exact ⟨trivial, ih h.2⟩
  | resume k rest ih => exact ⟨trivial, ih h.2⟩
  | close k rest ih => exact ⟨trivial, ih h.2⟩
  | look k next ih => exact ⟨trivial, fun v => ih v (h.2 v)⟩
  | feed => exact h.elim

end Program

namespace Session

/-! ### What a session keeps of the application -/

/-- The programs that a session keeps for later are of that kind. -/
structure Keeps (P : Program → Prop) (s : Session C) : Prop where
  handler : ∀ n h, s.handler = some (n, h) → ∀ message, P (h message)
  farewell : ∀ n p, s.farewell = some (n, p) → P p

/-- The programs that come with a deed are of that kind. -/
def Deed.Brings (P : Program → Prop) : Deed C → Prop
  | .setHandler handler => ∀ message, P (handler message)
  | .setFarewell program => P program
  | _ => True

variable [Carrier C]

/-- A handler stays, is dropped, or is set. -/
theorem handler_does (now : Moment) (s : Session C) (d : Deed C) :
    (s.does now d).handler = s.handler ∨ (s.does now d).handler = none ∨
      ∃ h n, d = .setHandler h ∧ (s.does now d).handler = some (n, h) := by
  rcases hd : d.isInward with - | -
  · exact .inl (sameInward_does now s hd).handler
  cases d with
  -- only three deeds change it: it is let go with the session, set, or emptied
  | forget => exact .inr (.inl rfl)
  | pause paused =>
    obtain ⟨_, h⟩ := does_pause_eq now s paused
    exact .inl (by rw [h])
  | receive messages =>
    obtain ⟨_, _, h⟩ := does_receive_eq now s messages
    exact .inl (by rw [h])
  | setHandler handler =>
    simp only [does, setHandler]
    split
    · exact .inl rfl
    · split
      · exact .inr (.inr ⟨handler, _, rfl, rfl⟩)
      · exact .inr (.inr ⟨handler, _, rfl, rfl⟩)
  | deliver =>
    obtain ⟨_, _, h⟩ := does_deliver_eq now s
    exact .inl (by rw [h])
  | depart =>
    simp only [does]
    split
    · exact .inl rfl
    · by_cases hc : s.phase = .closed
      · rw [depart_of_closed hc]
        exact .inl rfl
      · exact .inr (.inl (emptied_depart hc now).handler)
  | _ => cases hd

/-- So does a farewell. -/
theorem farewell_does_cases (now : Moment) (s : Session C) (d : Deed C) :
    (s.does now d).farewell = s.farewell ∨ (s.does now d).farewell = none ∨
      ∃ p n, d = .setFarewell p ∧ (s.does now d).farewell = some (n, p) := by
  rcases hd : d.isParting with - | -
  · exact .inl (farewell_does now s hd).1
  cases d with
  | forget => exact .inr (.inl rfl)
  | setFarewell p =>
    rcases hc : s.isClosed with - | -
    · rw [does_setFarewell_of_open hc]
      exact .inr (.inr ⟨p, _, rfl, rfl⟩)
    · rw [does_setFarewell_of_closed hc]
      exact .inl rfl
  | depart =>
    simp only [does]
    split
    · exact .inl rfl
    · by_cases hc : s.phase = .closed
      · rw [depart_of_closed hc]
        exact .inl rfl
      · exact .inr (.inl (emptied_depart hc now).farewell)
  | _ => cases hd

theorem Keeps.does {P : Program → Prop} {s : Session C} (h : s.Keeps P) (now : Moment)
    {d : Deed C} (hd : d.Brings P) : (s.does now d).Keeps P := by
  constructor
  · intro n f hf
    rcases handler_does now s d with he | he | ⟨f', n', rfl, he⟩
    · exact h.handler n f (he ▸ hf)
    · cases he.symm.trans hf
    · cases he.symm.trans hf
      exact hd
  · intro n p hp
    rcases farewell_does_cases now s d with he | he | ⟨p', n', rfl, he⟩
    · exact h.farewell n p (he ▸ hp)
    · cases he.symm.trans hp
    · cases he.symm.trans hp
      exact hd

/-! ### How much a session has to do -/

/-- The messages that wait to be given out, and one for the end. -/
def load (s : Session C) : Nat := s.inbound.length + if s.isClosed then 0 else 1

theorem load_does (now : Moment) (s : Session C) {d : Deed C} (hd : d.isTask = true) :
    (s.does now d).load ≤ s.load := by
  -- a session that is over stays so
  have hclosed : (if (s.does now d).isClosed then 0 else 1) ≤ if s.isClosed then 0 else 1 := by
    by_cases hc : s.isClosed = true
    · simp [hc, isClosed_does hc now d]
    · rw [if_neg hc]
      split <;> decide
  -- and no task brings messages in
  have hinbound : (s.does now d).inbound.length ≤ s.inbound.length := by
    have same (hd : d.isInward = false) : (s.does now d).inbound.length ≤ s.inbound.length :=
      Nat.le_of_eq (congrArg List.length (sameInward_does now s hd).inbound)
    cases d with
    | deliver =>
      rcases hg : s.deliver? now with - | ⟨message, p, s'⟩
      · simp [does, hg]
      · obtain ⟨-, -, n, h, rest, -, hi, -, rfl⟩ := deliver?_eq_some.mp hg
        simp only [does, hg]
        split
        · exact Nat.le_refl _
        · simp [hi, record]
    | depart =>
      simp only [does]
      split
      · exact Nat.le_refl _
      · by_cases hc : s.phase = .closed
        · exact Nat.le_of_eq (by rw [depart_of_closed hc])
        · simp [(emptied_depart hc now).inbound]
    | setHandler handler =>
      obtain ⟨_, _, _, h⟩ := does_setHandler_eq now s handler
      exact Nat.le_of_eq (by rw [h])
    | pause paused =>
      obtain ⟨_, h⟩ := does_pause_eq now s paused
      exact Nat.le_of_eq (by rw [h])
    | note | finishMessage | write | setFarewell => exact same rfl
    | _ => cases hd
  exact Nat.add_le_add hinbound hclosed

omit [Carrier C] in
/-- To give out a message is to have one less. -/
theorem load_deliver {now : Moment} {s s' : Session C} {message : String} {p : Program}
    (h : s.deliver? now = some (message, p, s')) : s'.load < s.load := by
  obtain ⟨-, -, n, _, rest, -, hi, -, rfl⟩ := deliver?_eq_some.mp h
  show rest.length + (if s.isClosed then 0 else 1) < s.load
  rw [load, hi, List.length_cons]
  omega

/-- To close is to have less to do. -/
theorem load_depart {s : Session C} (hc : s.isClosed = false) (now : Moment) :
    (s.does now .depart).load < s.load := by
  obtain ⟨hp, hg⟩ := isClosed_eq_false.mp hc
  have hdepart : s.does now .depart = (s.depart now).1 := if_neg (by simp [hg])
  have hinbound : (s.does now .depart).inbound = [] := by
    rw [hdepart]
    exact (emptied_depart hp now).inbound
  have hclosed : (s.does now .depart).isClosed = true := by
    simp [isClosed, phase_does, phaseAfter, hg]
  rw [load, load, hinbound, hclosed, hc]
  simp

end Session

/-! ### Tasks that use sockets -/

namespace Task

/-- The task is for a socket in `S`, or uses none but those. -/
def On (S : Nat → Prop) : Task → Prop
  | .act p => p.On S
  | .drain k | .returned k _ | .close k => S k

/-- The task uses sockets and nothing else. -/
def IsTame (t : Task) : Prop := t.On fun _ => True

/-- The task may be left when the first action of a program on `S` is done. -/
def Under (S : Nat → Prop) (p : Program) : Task → Prop
  | .act q => q.Part p
  | .drain k | .close k => S k
  | .returned .. => False

theorem Under.on {S : Nat → Prop} {p : Program} (h : p.On S) {t : Task} (ht : t.Under S p) :
    t.On S := by
  cases t with
  | act q => exact h.part ht
  | drain | close => exact ht
  | returned => exact ht.elim

/-- A task on `S` touches a session in `S` only. -/
theorem On.deed {S : Nat → Prop} {t : Task} (h : t.On S) {k : Nat} {d : Session.Deed C}
    (hd : t.deed? = some (k, d)) :
    S k ∧ d.isTask = true ∧ d.Brings (·.On S) := by
  cases t with
  | act p =>
    cases p with
    | note | write | pause | resume =>
      cases hd
      exact ⟨h.1, rfl, trivial⟩
    | onMessage | onClose =>
      cases hd
      exact ⟨h.1, rfl, h.2.1⟩
    | feed => exact h.elim
    | done | close | look => cases hd
  | drain | returned | close =>
    cases hd
    exact ⟨h, rfl, trivial⟩

end Task

namespace World

open Session (Keeps Deed)

variable [Carrier C]

/-- What tasks may make of sessions: one deed of a task after another, with programs of some
kind. -/
inductive Worked (P : Program → Prop) (l : List (Session C)) : List (Session C) → Prop
  | refl : Worked P l l
  | deed {l' : List (Session C)} (now : Moment) (k : Nat) (d : Deed C) (h : Worked P l l')
      (task : d.isTask = true) (brings : d.Brings P) : Worked P l (l'.modify k (·.does now d))

variable {P : Program → Prop} {l l' l'' : List (Session C)}

theorem Worked.trans (h : Worked P l l') (h' : Worked P l' l'') : Worked P l l'' := by
  induction h' with
  | refl => exact h
  | deed now k d _ task brings ih => exact .deed now k d ih task brings

/-- What the deeds of tasks keep of every session is kept. -/
theorem Worked.kept {Q : Session C → Prop}
    (kept : ∀ s now (d : Deed C), d.isTask = true → d.Brings P → Q s → Q (s.does now d))
    (h : Worked P l l') (hl : ∀ s ∈ l, Q s) : ∀ s ∈ l', Q s := by
  induction h with
  | refl => exact hl
  | deed now k d _ task brings ih => exact forall_modify (fun s => kept s now d task brings) ih k

theorem Worked.keeps (h : Worked P l l') (hl : ∀ s ∈ l, s.Keeps P) : ∀ s ∈ l', s.Keeps P :=
  h.kept (fun _ now _ _ brings hs => hs.does now brings) hl

omit [Carrier C] in
/-- A sum over sessions after a change to one of them. -/
theorem sum_modify (g : Session C → Nat) (f : Session C → Session C) {k : Nat} {s : Session C}
    (hk : l[k]? = some s) :
    ((l.modify k f).map g).sum + g s = (l.map g).sum + g (f s) := by
  induction l generalizing k with
  | nil => cases hk
  | cons s' l ih =>
    cases k with
    | zero =>
      obtain rfl := Option.some.inj hk
      simp only [List.modify_zero_cons, List.map_cons, List.sum_cons]
      omega
    | succ k =>
      have := ih (k := k) hk
      simp only [List.modify_succ_cons, List.map_cons, List.sum_cons]
      omega

/-- What the deeds of tasks do not make larger is not larger in the end. -/
theorem Worked.sum_le {g : Session C → Nat}
    (kept : ∀ s now (d : Deed C), d.isTask = true → g (s.does now d) ≤ g s)
    (h : Worked P l l') : (l'.map g).sum ≤ (l.map g).sum := by
  induction h with
  | refl => exact Nat.le_refl _
  | @deed l' now k d _ task _ ih =>
    rcases hk : l'[k]? with - | s
    · rw [modify_eq_of_fixed fun s hs => by cases hk.symm.trans hs]
      exact ih
    · have := sum_modify g (·.does now d) hk
      have := kept s now d task
      omega

/-! ### One step -/

omit [Carrier C] in
/-- What the first action of a program that uses sockets leaves to do is under that program. -/
theorem under_of_leaves {S : Nat → Prop} {p : Program} {ts : List Task} (h : p.On S)
    (hts : p.Leaves ts) : ∀ t ∈ ts, t.Under S p := by
  cases hts with
  | done => simp
  | rest left => simpa [Task.Under] using .next left
  | drain left wakes => simpa [Task.Under] using ⟨h.of_wakes wakes, .next left⟩
  | close left asks => simpa [Task.Under] using ⟨h.of_asks asks, .next left⟩
  | farewell => simpa [Task.Under] using ⟨.farewell, .next .onClose⟩

/-- A step is the work of the task on top. -/
theorem worked_step {S : Nat → Prop} {w : World C} {t : Task} {rest : List Task}
    (ht : w.tasks = t :: rest) (h : t.On S) : Worked (·.On S) w.sessions w.step.sessions := by
  rw [sessions_step, ht, List.head?_cons, Option.bind_some]
  rcases hd : (t.deed? : Option (Nat × Deed C)) with - | ⟨k, d⟩
  · exact .refl
  · obtain ⟨-, task, brings⟩ := h.deed hd
    exact .deed _ _ _ .refl task brings

/-- What a step leaves to do is for the same sockets. -/
theorem tasks_step_on {S : Nat → Prop} {w : World C} {t : Task} {rest : List Task}
    (ht : w.tasks = t :: rest) (h : t.On S)
    (hkeeps : ∀ k s, S k → w.sessions[k]? = some s → s.Keeps (·.On S)) :
    ∃ ts, w.step.tasks = ts ++ rest ∧ ∀ t ∈ ts, t.On S := by
  obtain ⟨ts, hleaves, hts⟩ := leaves_step ht
  refine ⟨ts, hts, ?_⟩
  cases hleaves with
  | none => simp
  | act leaves => exact fun t' ht' => Task.Under.on h (under_of_leaves h leaves t' ht')
  -- a handler and a farewell are what the session keeps
  | gives live deliver =>
    obtain ⟨-, -, n, f, _, hf, -, rfl, -⟩ := Session.deliver?_eq_some.mp deliver
    have hp := (hkeeps _ _ h (live?_eq_some.mp live).1).handler n f hf
    simp only [List.mem_cons, List.not_mem_nil, or_false]
    rintro t' (rfl | rfl | rfl)
    · exact hp _
    · exact h
    · exact h
  | farewell live farewell =>
    simp only [List.mem_singleton]
    rintro t' rfl
    exact (hkeeps _ _ h (live?_eq_some.mp live).1).farewell _ _ farewell

/-! ### Step after step -/

/-- What all sessions have to do. -/
def load (w : World C) : Nat := (w.sessions.map Session.load).sum

/-- The next step, after the moment has changed as `pace` says. -/
def stepAt (pace : Moment → Moment) (w : World C) : World C :=
  ({ w with now := pace w.now } : World C).step

/-- Some steps, each after the one before. -/
inductive Runs (pace : Moment → Moment) : World C → World C → Prop
  | refl (w : World C) : Runs pace w w
  | step {w w' : World C} (ht : w.tasks ≠ []) (h : Runs pace (w.stepAt pace) w') : Runs pace w w'

variable {pace : Moment → Moment}

theorem Runs.trans {w w' w'' : World C} (h : Runs pace w w') (h' : Runs pace w' w'') :
    Runs pace w w'' := by
  induction h with
  | refl => exact h'
  | step ht _ ih => exact .step ht (ih h')

/-- Some steps after which the tasks `rest` are left. -/
structure Ends (pace : Moment → Moment) (w : World C) (rest : List Task) (w' : World C) : Prop where
  runs : Runs pace w w'
  tasks : w'.tasks = rest
  worked : Worked Program.IsTame w.sessions w'.sessions

/-- What sessions keep are programs that use sockets. -/
def IsTame (w : World C) : Prop := ∀ s ∈ w.sessions, s.Keeps Program.IsTame

variable {w w' : World C} {t : Task} {ts rest : List Task}

theorem worked_stepAt (ht : w.tasks = t :: rest) (htame : t.IsTame) :
    Worked Program.IsTame w.sessions (w.stepAt pace).sessions :=
  worked_step (w := { w with now := pace w.now }) ht htame

theorem load_le_of_worked (h : Worked P w.sessions w'.sessions) : w'.load ≤ w.load :=
  h.sum_le fun s now _ task => Session.load_does now s task

theorem Ends.of_step (ht : w.tasks = t :: rest) (htame : t.IsTame)
    (h : Ends pace (w.stepAt pace) rest w') : Ends pace w rest w' :=
  ⟨.step (by simp [ht]) h.runs, h.tasks, (worked_stepAt ht htame).trans h.worked⟩

theorem Ends.trans {rest' : List Task} {w'' : World C} (h : Ends pace w rest w')
    (h' : Ends pace w' rest' w'') : Ends pace w rest' w'' :=
  ⟨h.runs.trans h'.runs, h'.tasks, h.worked.trans h'.worked⟩

/-- The deed that gives a message out leaves one less. -/
theorem load_of_given {k : Nat} {s s' : Session C} {message : String} {p : Program}
    (ht : w.tasks = .drain k :: rest) (hl : w.live? k = some s)
    (hd : s.deliver? (pace w.now) = some (message, p, s')) :
    (w.stepAt pace).load < w.load := by
  obtain ⟨hk, hg⟩ := live?_eq_some.mp hl
  have hs : (w.stepAt pace).sessions = w.sessions.modify k (·.does (pace w.now) .deliver) := by
    rw [stepAt, sessions_step]
    simp only [ht]
    rfl
  have hdoes : s.does (pace w.now) .deliver = s' := by simp [Session.does, hg, hd]
  have hsum := sum_modify Session.load (·.does (pace w.now) .deliver) hk
  have hless := Session.load_deliver hd
  rw [hdoes] at hsum
  rw [load, load, hs]
  omega

/-- So does the deed that closes a session. -/
theorem load_of_closing {k : Nat} {s : Session C} (ht : w.tasks = .close k :: rest)
    (hl : w.live? k = some s) (hp : s.phase ≠ .closed) : (w.stepAt pace).load < w.load := by
  obtain ⟨hk, hg⟩ := live?_eq_some.mp hl
  have hs : (w.stepAt pace).sessions = w.sessions.modify k (·.does (pace w.now) .depart) := by
    rw [stepAt, sessions_step]
    simp only [ht]
    rfl
  have hsum := sum_modify Session.load (·.does (pace w.now) .depart) hk
  have hless := Session.load_depart (Session.isClosed_eq_false.mpr ⟨hp, hg⟩) (pace w.now)
  rw [load, load, hs]
  omega

variable (C pace) in
/-- With so much to do at most, the task comes to an end, whatever waits under it. -/
def Ending (N : Nat) (t : Task) : Prop :=
  ∀ (w : World C) (rest : List Task), w.IsTame → w.load ≤ N → w.tasks = t :: rest →
    ∃ w', Ends pace w rest w'

/-- Tasks come to an end one after another. -/
theorem ends_of_each {N : Nat} (each : ∀ t ∈ ts, Ending C pace N t) (hw : w.IsTame)
    (hl : w.load ≤ N) (ht : w.tasks = ts ++ rest) : ∃ w', Ends pace w rest w' := by
  induction ts generalizing w with
  | nil => exact ⟨w, .refl w, ht, .refl⟩
  | cons t ts ih =>
    obtain ⟨w₁, h₁⟩ := each t List.mem_cons_self w (ts ++ rest) hw hl ht
    obtain ⟨w₂, h₂⟩ := ih (fun t' ht' => each t' (List.mem_cons_of_mem t ht'))
      (h₁.worked.keeps hw) (Nat.le_trans (load_le_of_worked h₁.worked) hl) h₁.tasks
    exact ⟨w₂, h₁.trans h₂⟩

/-- A task that leaves nothing to do is over after its step. -/
theorem ends_at_once (ht : w.tasks = t :: rest) (htame : t.IsTame)
    (hts : (w.stepAt pace).tasks = rest) : ∃ w', Ends pace w rest w' :=
  ⟨_, Ends.of_step ht htame ⟨.refl _, hts, .refl⟩⟩

/-- A task comes to an end if all that its step leaves to do does. -/
theorem ends_of_step {N : Nat} (hw : w.IsTame) (ht : w.tasks = t :: rest) (htame : t.IsTame)
    (each : ∀ t ∈ ts, Ending C pace N t) (hl : (w.stepAt pace).load ≤ N)
    (hts : (w.stepAt pace).tasks = ts ++ rest) : ∃ w', Ends pace w rest w' := by
  obtain ⟨w', h⟩ := ends_of_each each ((worked_stepAt ht htame).keeps hw) hl hts
  exact ⟨w', h.of_step ht htame⟩

section Less

variable {N : Nat} (less : ∀ M < N, ∀ t : Task, t.IsTame → Ending C pace M t)
include less

theorem ending_drain (k : Nat) : Ending C pace N (.drain k) := by
  intro w rest hw hl ht
  have hstep : w.stepAt pace = ({ w with now := pace w.now, tasks := rest } : World C).drain k := by
    simp only [stepAt, step, ht]
  rcases tasks_drain ({ w with now := pace w.now, tasks := rest } : World C) k with
    h | ⟨s, message, p, s', hlive, hd, h⟩
  · exact ends_at_once ht trivial (by rw [hstep, h])
  · have hless := load_of_given ht hlive hd
    have hp : p.IsTame := by
      obtain ⟨-, -, n, f, _, hf, -, rfl, -⟩ := Session.deliver?_eq_some.mp hd
      exact (hw s (List.mem_of_getElem? (live?_eq_some.mp hlive).1)).handler n f hf message
    refine ends_of_step hw ht trivial ?_ (Nat.le_refl _) (by rw [hstep, h])
    intro t htm
    apply less _ (Nat.lt_of_lt_of_le hless hl)
    simp only [List.mem_cons, List.not_mem_nil, or_false] at htm
    rcases htm with rfl | rfl | rfl
    · exact hp
    · trivial
    · trivial

theorem ending_close (k : Nat) : Ending C pace N (.close k) := by
  intro w rest hw hl ht
  have hstep : w.stepAt pace = ({ w with now := pace w.now, tasks := rest } : World C).close k := by
    simp only [stepAt, step, ht]
  rcases tasks_close ({ w with now := pace w.now, tasks := rest } : World C) k with
    h | ⟨s, n, p, hlive, hp, hf, h⟩
  · exact ends_at_once ht trivial (by rw [hstep, h])
  · have hless : (w.stepAt pace).load < w.load := load_of_closing ht hlive hp
    refine ends_of_step hw ht trivial ?_ (Nat.le_refl _) (by rw [hstep, h])
    intro t htm
    rw [List.mem_singleton.mp htm]
    apply less _ (Nat.lt_of_lt_of_le hless hl)
    exact (hw s (List.mem_of_getElem? (live?_eq_some.mp hlive).1)).farewell n p hf

theorem ending_act {p : Program} (hp : p.IsTame) : Ending C pace N (.act p) := by
  induction p using Program.part_wellFounded.induction with
  | _ p ih =>
    intro w rest hw hl ht
    obtain ⟨ts, hleaves, h⟩ :=
      leaves_perform ({ w with now := pace w.now, tasks := rest } : World C) p
    have hload : (w.stepAt pace).load ≤ w.load :=
      load_le_of_worked (worked_stepAt (t := .act p) ht hp)
    have htasks : (w.stepAt pace).tasks = ts ++ rest := by
      simp only [stepAt, step, ht]
      exact h
    refine ends_of_step (t := .act p) hw ht hp ?_ (Nat.le_trans hload hl) htasks
    intro t htm
    have hunder := under_of_leaves hp hleaves t htm
    cases t with
    | act q => exact ih q hunder (hp.part hunder)
    | drain k => exact ending_drain less k
    | close k => exact ending_close less k
    | returned => exact hunder.elim

end Less

/-- **A task that uses sockets comes to an end.** -/
theorem ending_of_isTame (N : Nat) (htame : t.IsTame) : Ending C pace N t := by
  -- a handler or a farewell that is set off has less to do; otherwise parts of a program are left
  induction N using Nat.strongRecOn generalizing t with
  | ind N ih =>
    have less : ∀ M < N, ∀ t : Task, t.IsTame → Ending C pace M t := fun M hM _ ht => ih M hM ht
    cases t with
    | act p => exact ending_act less htame
    | drain k => exact ending_drain less k
    | close k => exact ending_close less k
    | returned k message =>
      intro w rest _ _ ht
      exact ends_at_once ht htame (by simp only [stepAt, step, ht]; rfl)

/-- **Tasks that use sockets come to an end**, and leave those under them. -/
theorem exists_ends (hw : w.IsTame) (hts : ∀ t ∈ ts, t.IsTame) (ht : w.tasks = ts ++ rest) :
    ∃ w', Ends pace w rest w' :=
  ends_of_each (fun t htm => ending_of_isTame w.load (hts t htm)) hw (Nat.le_refl _) ht

end World

end Duplex
