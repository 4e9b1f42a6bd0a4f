/-
Duplex/Proofs/World/Tasks.lean

Tasks: what waits on the stack of a world, and what a move does to it.

Only a step takes a task off the stack, and only the one on top; everything
else stays, under whatever the move puts above it (`suffix_move`).  So a task
that waits goes on waiting until its turn comes.

What the first action of a program leaves to do is said once, by
`Program.Leaves` and `leaves_perform`: the rest of the program, and above it
what the action sets off.  `Task.Leaves` and `Move.Leaves` say it of tasks and
of moves (`leaves_step`, `leaves_move`), and which tasks a session may come to
have is read off them.

Messages are given to the application by `drain` tasks.  Each deed that may
make a session ready for the next message puts one on the stack
(`drain_of_wakes`), and each message that is given leaves one there for the
message after it (`tasks_of_given`).
-/
import Duplex.Proofs.Session.Farewell
import Duplex.Proofs.World.Registered

namespace Duplex

variable {C : Type}

/-- The deed may make a session ready to give out a message. -/
def Session.Deed.wakes : Deed C → Bool
  | .receive _ | .pause false | .setHandler _ => true
  | _ => false

/-! ### What an action leaves to do -/

namespace Program

/-- What may be left of a program when its first action is done. -/
inductive Next : Program → Program → Prop
  | note {k entry rest} : Next rest (.note k entry rest)
  | write {k message next} (r : Option WriteError) : Next (next r) (.write k message next)
  | onMessage {k handler rest} : Next rest (.onMessage k handler rest)
  | onClose {k handler rest} : Next rest (.onClose k handler rest)
  | pause {k rest} : Next rest (.pause k rest)
  | resume {k rest} : Next rest (.resume k rest)
  | close {k rest} : Next rest (.close k rest)
  | look {k next} (v : View) : Next (next v) (.look k next)
  | feed {k payload next} (r : Option Refusal) : Next (next r) (.feed k payload next)

/-- What may be left of a program, or run by it, when its first action is done. -/
inductive Part : Program → Program → Prop
  | next {p q} (left : Next q p) : Part q p
  | farewell {k handler rest} : Part handler (.onClose k handler rest)

/-- Programs end along every path. -/
theorem part_wellFounded : WellFounded Part := by
  constructor
  intro p
  induction p with
  | onClose k handler rest ihf ih =>
    refine ⟨_, fun q h => ?_⟩
    cases h with
    | next left =>
      cases left
      exact ih
    | farewell => exact ihf
  -- the others have no part but what is left of them
  | done =>
    refine ⟨_, ?_⟩
    rintro q ⟨left⟩
    cases left
  | note _ _ _ ih | pause _ _ ih | resume _ _ ih | close _ _ ih | onMessage _ _ _ _ ih =>
    refine ⟨_, ?_⟩
    rintro q ⟨left⟩
    cases left
    exact ih
  | write k message next ih =>
    refine ⟨_, ?_⟩
    rintro q ⟨left⟩
    cases left with
    | write r => exact ih r
  | look k next ih =>
    refine ⟨_, ?_⟩
    rintro q ⟨left⟩
    cases left with
    | look v => exact ih v
  | feed k payload next ih =>
    refine ⟨_, ?_⟩
    rintro q ⟨left⟩
    cases left with
    | feed r => exact ih r

/-- The first action of a program asks session `k` for its messages. -/
def Wakes (k : Nat) : Program → Prop
  | .onMessage j _ _ | .resume j _ => j = k
  | .feed j payload _ => j = k ∧ (Payload.messages? payload).isSome
  | _ => False

/-- The first action of a program asks session `k` to close. -/
def Asks (k : Nat) : Program → Prop
  | .close j _ => j = k
  | .feed j payload _ => j = k ∧ Payload.messages? payload = none
  | _ => False

/-- What the first action of a program leaves to do: what is left of the program, and above it what
the action sets off. -/
inductive Leaves : Program → List Task → Prop
  | done : Leaves .done []
  | rest {p q : Program} (left : q.Next p) : Leaves p [.act q]
  | drain {k : Nat} {p q : Program} (left : q.Next p) (wakes : p.Wakes k) :
      Leaves p [.drain k, .act q]
  | close {k : Nat} {p q : Program} (left : q.Next p) (asks : p.Asks k) :
      Leaves p [.close k, .act q]
  | farewell {k : Nat} {handler rest : Program} :
      Leaves (.onClose k handler rest) [.act handler, .act rest]

/-- What is left of the program is among that, unless the program is over. -/
theorem Leaves.exists_next {p : Program} {ts : List Task} (h : p.Leaves ts) :
    p = .done ∨ ∃ q, q.Next p ∧ .act q ∈ ts := by
  cases h with
  | done => exact .inl rfl
  | rest left | drain left | close left => exact .inr ⟨_, left, by simp⟩
  | farewell => exact .inr ⟨_, .onClose, by simp⟩

/-- To ask for messages is a deed that wakes the session. -/
theorem deed?_of_wakes {k : Nat} {p : Program} (h : p.Wakes k) :
    ∃ d : Session.Deed C, p.deed? = some (k, d) ∧ d.wakes = true := by
  cases p with
  | onMessage j handler rest =>
    obtain rfl := h
    exact ⟨_, rfl, rfl⟩
  | resume j rest =>
    obtain rfl := h
    exact ⟨_, rfl, rfl⟩
  | feed j payload next =>
    obtain ⟨rfl, h⟩ := h
    obtain ⟨messages, hm⟩ := Option.isSome_iff_exists.mp h
    exact ⟨.receive messages, by simp [deed?, hm], rfl⟩
  | _ => exact h.elim

end Program

/-- The move asks session `k` to close. -/
def Move.Asks (k : Nat) (w : World C) : Move C → Prop
  | .close j => j = k
  | .feed j payload => j = k ∧ Payload.messages? payload = none
  | .elapse j => j = k ∧ (w.sessions[k]?).bind (·.nextBeat) = none
  | .closeAll | .shutdown => ∃ id, (id, k) ∈ w.registry
  | .step => ∃ p rest, w.tasks = .act p :: rest ∧ p.Asks k
  | _ => False

/-- The move asks all registered sessions to close. -/
def Move.isGeneral : Move C → Bool
  | .closeAll | .shutdown => true
  | _ => false

/-- The tasks that were there before and are still there after a move. -/
def Move.rest (m : Move C) (tasks : List Task) : List Task :=
  match m with
  | .step => tasks.tail
  | _ => tasks

theorem Move.suffix_rest (m : Move C) (tasks : List Task) : m.rest tasks <:+ tasks := by
  cases m with
  | step => exact List.tail_suffix tasks
  | _ => exact List.suffix_rfl

/-- What a task may leave to do when it is done. -/
inductive Task.Leaves (w : World C) : Task → List Task → Prop
  | none {t : Task} : Leaves w t []
  | act {p : Program} {ts : List Task} (leaves : p.Leaves ts) : Leaves w (.act p) ts
  | gives {k : Nat} {s s' : Session C} {message : String} {p : Program} (live : w.live? k = some s)
      (deliver : s.deliver? w.now = some (message, p, s')) :
      Leaves w (.drain k) [.act p, .returned k message, .drain k]
  | farewell {k n : Nat} {s : Session C} {p : Program} (live : w.live? k = some s)
      (farewell : s.farewell = some (n, p)) : Leaves w (.close k) [.act p]

/-- What a move may leave to do, above what waited before. -/
inductive Move.Leaves (w : World C) : Move C → List Task → Prop
  | none {m : Move C} : Leaves w m []
  | task {t : Task} {rest ts : List Task} (top : w.tasks = t :: rest) (leaves : t.Leaves w ts) :
      Leaves w .step ts
  | call {p : Program} : Leaves w (.call p) [.act p]
  | opens {m : Move C} {k : Nat} {d : Session.Deed C} {s : Session C}
      (deed : m.deed? w.tasks = some (k, d)) (live : w.live? k = some s) :
      Leaves w m [.act (s.onOpen k)]
  | wakes {m : Move C} {k : Nat} {d : Session.Deed C} (deed : m.deed? w.tasks = some (k, d))
      (wakes : d.wakes = true) : Leaves w m [.drain k]
  | asks {m : Move C} {k : Nat} (asks : m.Asks k w) : Leaves w m [.close k]
  | general {m : Move C} (general : m.isGeneral = true) :
      Leaves w m (w.registry.map fun e => .close e.2)

namespace World

variable [Carrier C]

/-! ### What is left to do -/

/-- **What the first action of a program leaves to do**, above what waited before. -/
theorem leaves_perform (w : World C) (p : Program) :
    ∃ ts, p.Leaves ts ∧ (w.perform p).tasks = ts ++ w.tasks := by
  cases p with
  | done => exact ⟨[], .done, rfl⟩
  | note k entry rest => exact ⟨[.act rest], .rest .note, rfl⟩
  | look k next => exact ⟨[.act _], .rest (.look (w.view k)), rfl⟩
  | close k rest => exact ⟨[.close k, .act rest], .close .close rfl, rfl⟩
  -- the others ask for the session first, and do nothing with one that nothing keeps
  | write k message next =>
    simp only [perform]
    split
    · exact ⟨[.act _], .rest (.write (some .closed)), rfl⟩
    · rename_i s _
      exact ⟨[.act _], .rest (.write (s.write w.now message).2), rfl⟩
  | onMessage k handler rest =>
    simp only [perform]
    split
    · exact ⟨[.act rest], .rest .onMessage, rfl⟩
    · exact ⟨[.drain k, .act rest], .drain .onMessage rfl, rfl⟩
  | onClose k handler rest =>
    simp only [perform, Session.setFarewell]
    split
    · exact ⟨[.act handler, .act rest], .farewell, rfl⟩
    · split
      · exact ⟨[.act handler, .act rest], .farewell, rfl⟩
      · exact ⟨[.act rest], .rest .onClose, rfl⟩
  | pause k rest =>
    simp only [perform]
    split
    · exact ⟨[.act rest], .rest .pause, rfl⟩
    · exact ⟨[.act rest], .rest .pause, rfl⟩
  | resume k rest =>
    simp only [perform]
    split
    · exact ⟨[.act rest], .rest .resume, rfl⟩
    · exact ⟨[.drain k, .act rest], .drain .resume rfl, rfl⟩
  | feed k payload next =>
    simp only [perform]
    split
    · exact ⟨[.act _], .rest (.feed none), rfl⟩
    · rcases hp : Payload.messages? payload with - | messages
      · exact ⟨[.close k, .act _], .close (.feed (some .malformedFrame)) ⟨rfl, hp⟩, rfl⟩
      · exact ⟨[.drain k, .act _], .drain (.feed none) ⟨rfl, by simp [hp]⟩, rfl⟩

omit [Carrier C] in
/-- A message that is given out sets off its handler, and the next message after it. -/
theorem tasks_drain (w : World C) (k : Nat) :
    (w.drain k).tasks = w.tasks ∨
      ∃ s message p s', w.live? k = some s ∧ s.deliver? w.now = some (message, p, s') ∧
        (w.drain k).tasks = [.act p, .returned k message, .drain k] ++ w.tasks := by
  rcases hl : w.live? k with - | s
  · exact .inl (by simp [drain, hl])
  rcases hd : s.deliver? w.now with - | ⟨message, p, s'⟩
  · exact .inl (by simp [drain, hl, hd])
  · refine .inr ⟨s, message, p, s', rfl, hd, ?_⟩
    simp only [drain, hl, Option.bind_some, hd]
    rfl

/-- A session that closes sets off its farewell. -/
theorem tasks_close (w : World C) (k : Nat) :
    (w.close k).tasks = w.tasks ∨
      ∃ s n p, w.live? k = some s ∧ s.phase ≠ .closed ∧ s.farewell = some (n, p) ∧
        (w.close k).tasks = [.act p] ++ w.tasks := by
  rcases hl : w.live? k with - | s
  · exact .inl (by simp [close, hl])
  by_cases hp : s.phase = .closed
  · exact .inl (by simp [close, hl, hp])
  rw [close_of_live hl hp, Session.depart_snd hp]
  rcases hf : s.farewell with - | ⟨n, p⟩
  · exact .inl rfl
  · exact .inr ⟨s, n, p, rfl, hp, hf, rfl⟩

/-- **What the task on top leaves to do** when a step is made. -/
theorem leaves_step {w : World C} {t : Task} {rest : List Task} (ht : w.tasks = t :: rest) :
    ∃ ts, t.Leaves w ts ∧ w.step.tasks = ts ++ rest := by
  simp only [step, ht]
  cases t with
  | act p =>
    obtain ⟨ts, hleaves, hts⟩ := leaves_perform { w with tasks := rest } p
    exact ⟨ts, .act hleaves, hts⟩
  | drain k =>
    rcases tasks_drain { w with tasks := rest } k with hts | ⟨s, message, p, s', hl, hd, hts⟩
    · exact ⟨[], .none, hts⟩
    · exact ⟨_, .gives hl hd, hts⟩
  | returned k message => exact ⟨[], .none, rfl⟩
  | close k =>
    rcases tasks_close { w with tasks := rest } k with hts | ⟨s, n, p, hl, -, hf, hts⟩
    · exact ⟨[], .none, hts⟩
    · exact ⟨_, .farewell hl hf, hts⟩

theorem tasks_attach (w : World C) (k n : Nat) :
    (w.attach k n).tasks = w.tasks ∨
      ∃ s, w.live? k = some s ∧ (w.attach k n).tasks = [.act (s.onOpen k)] ++ w.tasks := by
  unfold attach
  split
  · exact .inl rfl
  · rename_i s hl
    split
    · exact .inr ⟨s, hl, rfl⟩
    · exact .inl rfl

/-- **What a move leaves to do**, above what waited before: a step takes the task on top away, and
nothing else does. -/
theorem leaves_move (w : World C) (m : Move C) :
    ∃ ts, m.Leaves w ts ∧ (w.move m).tasks = ts ++ m.rest w.tasks := by
  cases m with
  | step =>
    rcases ht : w.tasks with - | ⟨t, rest⟩
    · exact ⟨[], .none, by simp [move, step, ht, Move.rest]⟩
    · obtain ⟨ts, hleaves, hts⟩ := leaves_step ht
      exact ⟨ts, .task ht hleaves, hts⟩
  -- a carrier that comes may open the session
  | register k carrier =>
    rcases hl : w.live? k with - | s
    · exact ⟨[], .none, by simp [move, register, hl, Move.rest]⟩
    · simp only [move, register, hl, Move.rest]
      rcases tasks_attach (w.modify k (·.addCarrier carrier)) k s.carriers.length with
        hts | ⟨s', hl', hts⟩
      · exact ⟨[], .none, hts⟩
      · obtain ⟨hs', -⟩ := live?_eq_some.mp hl'
        obtain ⟨s₀, hs₀, rfl⟩ : ∃ s₀, w.sessions[k]? = some s₀ ∧ s₀.addCarrier carrier = s' := by
          simpa [modify] using hs'
        obtain rfl := Option.some.inj (hs₀.symm.trans (live?_eq_some.mp hl).1)
        exact ⟨_, .opens rfl hl, hts⟩
  | again k n =>
    rcases hl : w.live? k with - | s
    · exact ⟨[], .none, by simp [move, hl, Move.rest]⟩
    · simp only [move, hl, Move.rest]
      split
      · rcases tasks_attach w k n with hts | ⟨s', hl', hts⟩
        · exact ⟨[], .none, hts⟩
        · exact ⟨_, .opens rfl hl', hts⟩
      · exact ⟨[], .none, rfl⟩
  | lose k n =>
    simp only [move, Move.rest]
    split
    · exact ⟨[], .none, rfl⟩
    · split
      · exact ⟨[], .none, rfl⟩
      · exact ⟨[], .none, rfl⟩
  -- a payload that can be read brings messages, any other closes the session
  | feed k payload =>
    simp only [move, Move.rest]
    split
    · exact ⟨[], .none, rfl⟩
    · rcases hp : Payload.messages? payload with - | messages
      · exact ⟨[.close k], .asks ⟨rfl, hp⟩, by simp [feed, hp, receive, push]⟩
      · have hd : Move.deed? (C := C) w.tasks (.feed k payload) = some (k, .receive messages) := by
          simp [Move.deed?, hp]
        exact ⟨[.drain k], .wakes hd rfl, by simp [feed, hp, receive, push, modify]⟩
  -- without a heartbeat to send, it is the deadline that runs out
  | elapse k =>
    rcases hb : (w.sessions[k]?).bind (·.nextBeat) with - | b
    · exact ⟨[.close k], .asks ⟨rfl, hb⟩, by simp [move, elapse, hb, push, Move.rest]⟩
    · exact ⟨[], .none, by simp [move, elapse, hb, modify, Move.rest]⟩
  | make id timing onOpen peer held entered =>
    simp only [move, ensure, Move.rest]
    split
    · split
      · exact ⟨[], .none, rfl⟩
      · exact ⟨[], .none, rfl⟩
    · exact ⟨[], .none, rfl⟩
  | call program => exact ⟨_, .call, rfl⟩
  | close k => exact ⟨[.close k], .asks rfl, rfl⟩
  | closeAll | shutdown => exact ⟨_, .general rfl, rfl⟩
  | next | pass | hold | introduce | stir | forget => exact ⟨[], .none, rfl⟩

/-- **A move leaves what waits where it is**, a step all but the task on top. -/
theorem suffix_move (w : World C) (m : Move C) : m.rest w.tasks <:+ (w.move m).tasks := by
  obtain ⟨ts, -, hts⟩ := leaves_move w m
  rw [hts]
  exact List.suffix_append ts _

/-! ### Giving out messages -/

/-- A task that waits goes on waiting, unless it was the one on top and is done. -/
theorem mem_move {w : World C} {m : Move C} {t : Task} (ht : t ∈ w.tasks)
    (hm : m = .step → w.tasks.head? ≠ some t) : t ∈ (w.move m).tasks := by
  apply (suffix_move w m).mem
  -- only a step takes a task away
  cases m with
  | step =>
    rcases hw : w.tasks with - | ⟨t', rest⟩
    · rw [hw] at ht
      cases ht
    · have hne := hm rfl
      rw [hw] at ht hne
      rcases List.mem_cons.mp ht with rfl | ht
      · exact absurd rfl hne
      · exact ht
  | _ => exact ht

omit [Carrier C] in
theorem drain_mem_receive (w : World C) (k : Nat) (messages : List String) :
    .drain k ∈ (w.receive k (some messages)).tasks := List.mem_cons_self

/-- After a deed that wakes a session, its messages are about to be given out. -/
theorem drain_of_wakes {w : World C} {m : Move C} {k : Nat} {s : Session C} {d : Session.Deed C}
    (hs : w.live? k = some s) (hm : m.deed? w.tasks = some (k, d)) (hd : d.wakes = true) :
    .drain k ∈ (w.move m).tasks := by
  cases m with
  -- a payload that can be read
  | feed j payload =>
    obtain ⟨messages, hp, he⟩ := Option.map_eq_some_iff.mp hm
    obtain ⟨rfl, rfl⟩ := Prod.mk.inj he
    simp only [move, hs, feed, hp]
    exact drain_mem_receive w j messages
  -- an action of a program that asks for messages
  | step =>
    obtain ⟨t, rest, htasks, ht⟩ := Move.deed?_step.mp hm
    have hs' : ({ w with tasks := rest } : World C).live? k = some s := hs
    simp only [move, step, htasks]
    cases t with
    | act p =>
      cases p with
      | onMessage j handler next =>
        cases ht
        simp only [perform, hs']
        exact List.mem_cons_self
      | resume j next =>
        cases ht
        simp only [perform, hs']
        exact List.mem_cons_self
      | feed j payload next =>
        obtain ⟨messages, hp, he⟩ := Option.map_eq_some_iff.mp ht
        obtain ⟨rfl, rfl⟩ := Prod.mk.inj he
        simp only [perform, hs', hp]
        exact drain_mem_receive _ j messages
      | note | write | onClose | pause =>
        cases ht
        cases hd
      | done | close | look => cases ht
    | drain | returned | close =>
      cases ht
      cases hd
  | hold | introduce | register | again | stir | lose | elapse | forget =>
    cases hm
    cases hd
  | next | pass | call | make | close | closeAll | shutdown => cases hm

omit [Carrier C] in
/-- Messages are given out by the tasks made for it. -/
theorem drain_of_deliver {w : World C} {m : Move C} {k : Nat}
    (hm : m.deed? w.tasks = some (k, .deliver)) :
    m = .step ∧ ∃ rest, w.tasks = .drain k :: rest := by
  obtain ⟨rfl, t, rest, htasks, ht⟩ := Move.step_of_isTask hm rfl
  cases t with
  | drain j =>
    cases ht
    exact ⟨rfl, rest, htasks⟩
  | act p =>
    cases p with
    | feed j payload next =>
      obtain ⟨messages, -, he⟩ := Option.map_eq_some_iff.mp ht
      cases he
    | _ => cases ht
  | returned | close => cases ht

/-- What the application does with a message goes on top; under it, the session is ready for the
next message. -/
theorem tasks_of_given {w : World C} {m : Move C} {k : Nat} {s s' : Session C} {message : String}
    {p : Program} (hs : w.live? k = some s) (hm : m.deed? w.tasks = some (k, .deliver))
    (hg : s.deliver? w.now = some (message, p, s')) :
    (w.move m).tasks = .act p :: .returned k message :: .drain k :: w.tasks.tail := by
  obtain ⟨rfl, rest, htasks⟩ := drain_of_deliver hm
  have hs' : ({ w with tasks := rest } : World C).live? k = some s := hs
  simp only [move, step, htasks, drain, hs', Option.bind_some, hg]
  rfl

end World

end Duplex
