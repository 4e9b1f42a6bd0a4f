/-
Duplex/Proofs/Server/Attending.lean

Applications that attend to their sessions.

An application attends to a session if it sets a handler when the session opens,
and neither holds its messages back, nor closes it, nor feeds it payloads of its
own.  Then nothing but the client ends the session (`Attends.move`), and between
tasks all that was taken in was given out (`given_of_attends`).
-/
import Duplex.Proofs.Server.Hearing
import Duplex.Proofs.World.Stopping

namespace Duplex

open Session (Deed given taken)

/-! ### Programs -/

/-- The program comes to set a handler for the messages of session `k`, whatever it is told. -/
def Program.Installs (k : Nat) : Program → Prop
  | .done => False
  | .onMessage j _ rest => j = k ∨ rest.Installs k
  | .note _ _ rest | .onClose _ _ rest | .pause _ rest | .resume _ rest | .close _ rest =>
    rest.Installs k
  | .write _ _ next => ∀ r, (next r).Installs k
  | .look _ next => ∀ v, (next v).Installs k
  | .feed _ _ next => ∀ r, (next r).Installs k

/-- So does what is left of it, unless the first action sets the handler. -/
theorem Program.Installs.of_next {k : Nat} {p q : Program} (hp : p.Installs k) (left : q.Next p) :
    (∃ handler, p = .onMessage k handler q) ∨ q.Installs k := by
  cases left with
  | onMessage =>
    rcases hp with rfl | hp
    · exact .inl ⟨_, rfl⟩
    · exact .inr hp
  | note | onClose | pause | resume | close => exact .inr hp
  | write r => exact .inr (hp r)
  | look v => exact .inr (hp v)
  | feed r => exact .inr (hp r)

/-- The first action of the program holds back the messages of session `k`, closes it, or feeds
it. -/
def Program.meddles (k : Nat) : Program → Bool
  | .pause j _ | .close j _ | .feed j _ _ => j == k
  | _ => false

/-- The task is to run such a program. -/
def Task.meddles (k : Nat) : Task → Bool
  | .act p => p.meddles k
  | _ => false

namespace World

section Causes

variable {C : Type} [Carrier C]

/-! ### Causes -/

omit [Carrier C] in
/-- An action leaves a session to be closed if it asks for that. -/
theorem asks_of_leaves {p : Program} {ts : List Task} {k : Nat} (hts : p.Leaves ts)
    (h : .close k ∈ ts) : p.Asks k := by
  cases hts with
  | close left asks =>
    obtain rfl : k = _ := by simpa using h
    exact asks
  | done | rest | drain | farewell => simp at h

/-- **Only a cause puts the task to close a session on the stack.** -/
theorem asks_of_close {w : World C} {m : Move C} {k : Nat} (h : .close k ∈ (w.move m).tasks) :
    .close k ∈ w.tasks ∨ m.Asks k w := by
  obtain ⟨ts, hleaves, hts⟩ := leaves_move w m
  rw [hts, List.mem_append] at h
  rcases h with hmem | hmem
  -- it was put there
  · refine .inr ?_
    cases hleaves with
    | asks asks =>
      obtain rfl : k = _ := by simpa using hmem
      exact asks
    | @general m general =>
      obtain ⟨e, he, hk⟩ := List.mem_map.mp hmem
      cases hk
      cases m with
      | closeAll | shutdown => exact ⟨e.1, he⟩
      | _ => cases general
    | task top leaves =>
      cases leaves with
      | act leaves => exact ⟨_, _, top, asks_of_leaves leaves hmem⟩
      | none | gives | farewell => simp at hmem
    | none | call | opens | wakes => simp at hmem
  -- it waited before
  · exact .inl ((m.suffix_rest w.tasks).mem hmem)

end Causes

/-! ### Sessions that are attended to -/

/-- The session goes on, and its messages are not held back. -/
theorem attentive_does {s : Session Conduit} (hp : s.phase ≠ .closed) (hpaused : s.paused = false)
    (now : Moment) {d : Deed Conduit} (depart : d ≠ .depart) (forget : d ≠ .forget)
    (pause : d ≠ .pause true) :
    (s.does now d).phase ≠ .closed ∧ (s.does now d).gone = s.gone ∧
      (s.does now d).paused = false ∧ (s.handler ≠ none → (s.does now d).handler ≠ none) := by
  have hphase : (s.does now d).phase ≠ .closed := fun hc =>
    depart (Session.Turn.deed_of_closing (t := ⟨now, s, d⟩) hp hc)
  have outward (ho : d.isInward = false) :
      (s.does now d).paused = false ∧ (s.handler ≠ none → (s.does now d).handler ≠ none) := by
    have hsame := Session.sameInward_does now s ho
    exact ⟨hsame.paused.trans hpaused, fun h => hsame.handler ▸ h⟩
  refine ⟨hphase, Session.gone_does now s forget, ?_⟩
  cases d with
  | depart => exact absurd rfl depart
  | forget => exact absurd rfl forget
  -- only what is inward touches the pause and the handler, and then it installs one
  | pause paused =>
    cases paused with
    | true => exact absurd rfl pause
    | false =>
      rw [Session.does]
      split
      · exact ⟨hpaused, id⟩
      · exact ⟨rfl, id⟩
  | receive messages =>
    rw [Session.does]
    split
    · exact ⟨hpaused, id⟩
    · rw [Session.receive, if_neg hp]
      exact ⟨hpaused, id⟩
  | setHandler handler =>
    simp only [Session.does, Session.setHandler, if_neg hp]
    split
    · exact ⟨hpaused, id⟩
    · exact ⟨hpaused, fun _ => Option.some_ne_none _⟩
  | deliver =>
    rw [Session.does]
    split
    · exact ⟨hpaused, id⟩
    · rcases hd : s.deliver? now with - | ⟨message, p, s'⟩
      · exact ⟨hpaused, id⟩
      · obtain ⟨-, -, _, _, _, -, -, -, rfl⟩ := Session.deliver?_eq_some.mp hd
        exact ⟨hpaused, id⟩
  | note | finishMessage | introduce | hold | stir | register | again | lose | beat | write
  | setFarewell =>
    exact outward rfl

/-- The application listens to the messages of session `k`, or is about to, and nothing is to
close it. -/
structure Attends (k : Nat) (w : World Conduit) (s : Session Conduit) : Prop where
  here : w.sessions[k]? = some s
  phase : s.phase ≠ .closed
  gone : s.gone = false
  paused : s.paused = false
  handled : s.handler ≠ none ∨ ∃ p, .act p ∈ w.tasks ∧ p.Installs k
  unasked : .close k ∉ w.tasks

variable {k : Nat} {w : World Conduit} {m : Move Conduit} {s : Session Conduit}

/-- Messages are held back by programs. -/
theorem pause_of_deed (h : m.deed? w.tasks = some (k, .pause true)) :
    ∃ next rest, m = .step ∧ w.tasks = .act (.pause k next) :: rest := by
  obtain ⟨rfl, t, rest, ht, hd⟩ := Move.step_of_isTask h rfl
  cases t with
  | act p =>
    cases p with
    | pause j next =>
      cases hd
      exact ⟨next, rest, rfl, ht⟩
    | feed j payload next =>
      obtain ⟨_, -, he⟩ := Option.map_eq_some_iff.mp hd
      cases he
    | _ => cases hd
  | _ => cases hd

/-- A program that comes to set a handler does so with the next step, or goes on. -/
theorem installs_of_step {p : Program} {rest : List Task} (ht : w.tasks = .act p :: rest)
    (hp : p.Installs k) :
    (∃ handler next, p = .onMessage k handler next) ∨
      ∃ p', .act p' ∈ w.step.tasks ∧ p'.Installs k := by
  obtain ⟨ts, hleaves, hts⟩ := leaves_perform { w with tasks := rest } p
  rcases hleaves.exists_next with rfl | ⟨q, hleft, hmem⟩
  · exact hp.elim
  rcases hp.of_next hleft with ⟨handler, rfl⟩ | hq
  · exact .inl ⟨handler, q, rfl⟩
  · refine .inr ⟨q, ?_, hq⟩
    simp only [step, ht]
    rw [hts]
    exact List.mem_append_left _ hmem

/-- **A session that is attended to remains so**, unless a move asks it to close, forgets it or
holds its messages back. -/
theorem Attends.move (h : Attends k w s) (asks : ¬ m.Asks k w) (forget : m ≠ .forget k)
    (pause : ∀ next rest, m = .step → w.tasks ≠ .act (.pause k next) :: rest) :
    ∃ s', Attends k (w.move m) s' := by
  have unasked : .close k ∉ (w.move m).tasks := fun hc => (asks_of_close hc).elim h.unasked asks
  -- a program that waits goes on waiting, unless it is the one that is run
  have waits {p : Program} (hp : .act p ∈ w.tasks) (hi : p.Installs k) :
      (∃ p, .act p ∈ (w.move m).tasks ∧ p.Installs k) ∨
        ∃ handler next rest, m = .step ∧ w.tasks = .act (.onMessage k handler next) :: rest := by
    by_cases htop : m = .step ∧ w.tasks.head? = some (.act p)
    · obtain ⟨rfl, htop⟩ := htop
      obtain ⟨rest, ht⟩ := List.head?_eq_some_iff.mp htop
      rcases installs_of_step ht hi with ⟨handler, next, rfl⟩ | h
      · exact .inr ⟨handler, next, rest, rfl, ht⟩
      · exact .inl h
    · exact .inl ⟨p, mem_move hp fun hm hh => htop ⟨hm, hh⟩, hi⟩
  rcases session_of_before h.here m with ⟨hturn, hs'⟩ | ⟨d, hturn, hs'⟩
  · refine ⟨s, hs', h.phase, h.gone, h.paused, ?_, unasked⟩
    rcases h.handled with hh | ⟨p, hp, hi⟩
    · exact .inl hh
    rcases waits hp hi with hw | ⟨handler, next, rest, rfl, ht⟩
    · exact .inr hw
    -- the session has its turn when its handler is set
    · have hmem : ⟨w.now, s, .setHandler handler⟩ ∈ turnOf k w .step :=
        mem_turnOf.mpr ⟨h.here, rfl, by simp [Move.deed?, ht, Task.deed?, Program.deed?]⟩
      rw [hturn] at hmem
      cases hmem
  · have hdeed := deed_of_turn hturn
    have hdepart : d ≠ .depart := by
      rintro rfl
      obtain ⟨-, rest, ht⟩ := close_of_depart hdeed
      exact h.unasked (ht ▸ List.mem_cons_self)
    have hforget : d ≠ .forget := by
      rintro rfl
      exact forget (forget_of_deed hdeed)
    have hpause : d ≠ .pause true := by
      rintro rfl
      obtain ⟨next, rest, hm, ht⟩ := pause_of_deed hdeed
      exact pause next rest hm ht
    obtain ⟨hp, hg, hpaused, hhandler⟩ :=
      attentive_does h.phase h.paused w.now hdepart hforget hpause
    refine ⟨_, hs', hp, hg.trans h.gone, hpaused, ?_, unasked⟩
    rcases h.handled with hh | ⟨p, hp, hi⟩
    · exact .inl (hhandler hh)
    rcases waits hp hi with hw | ⟨handler, next, rest, rfl, ht⟩
    · exact .inr hw
    · rw [show Move.deed? w.tasks (.step : Move Conduit) = some (k, .setHandler handler) by
        simp [Move.deed?, ht, Task.deed?, Program.deed?]] at hdeed
      obtain rfl : .setHandler handler = d := (Prod.mk.inj (Option.some.inj hdeed)).2
      have hset : s.does w.now (.setHandler handler) = s.setHandler w.now handler := by
        rw [Session.does, h.gone, if_neg Bool.false_ne_true]
      rw [hset, Session.setHandler, if_neg h.phase]
      exact .inl (Option.some_ne_none _)

/-- Between tasks, all that such a session took in was given out. -/
theorem given_of_attends {ms : List (Move Conduit)}
    (h : Attends k (({} : World Conduit).after ms) s)
    (ht : (({} : World Conduit).after ms).tasks = []) :
    (given (turns k {} ms)).map (·.1) = taken (turns k {} ms) := by
  have hhandler : s.handler ≠ none := by
    rcases h.handled with hh | ⟨p, hp, -⟩
    · exact hh
    · rw [ht] at hp
      cases hp
  have hinbound : s.inbound = [] := by
    by_contra hi
    have hready : s.Ready :=
      ⟨Session.isClosed_eq_false.mpr ⟨h.phase, h.gone⟩, h.paused, hhandler, hi⟩
    have hdrain := drain_of_ready ms h.here hready
    rw [ht] at hdrain
    cases hdrain
  rw [← (flow_of_run ms h.here).fifo h.phase, hinbound, List.append_nil]

/-- What was given out is all there is, as long as nothing more is taken in. -/
theorem given_of_taken {ms ms' : List (Move Conduit)}
    (hs : (({} : World Conduit).after (ms ++ ms')).sessions[k]? = some s)
    (h : (given (turns k {} ms)).map (·.1) = taken (turns k {} ms))
    (ht : taken (turns k (({} : World Conduit).after ms) ms') = []) :
    (given (turns k {} (ms ++ ms'))).map (·.1) = taken (turns k {} (ms ++ ms')) := by
  have hwithin := (flow_of_run (ms ++ ms') hs).within
  have htaken : taken (turns k {} (ms ++ ms')) = taken (turns k {} ms) := by
    rw [turns_append, taken, List.flatMap_append]
    exact (congrArg (taken (turns k {} ms) ++ ·) ht).trans (List.append_nil _)
  have hgiven : given (turns k {} (ms ++ ms')) = given (turns k {} ms) ++
      given (turns k (({} : World Conduit).after ms) ms') := by
    rw [turns_append, given, List.filterMap_append]
    rfl
  refine hwithin.eq_of_length_le ?_
  rw [htaken, hgiven, ← h, List.map_append, List.length_append]
  exact Nat.le_add_right _ _

end World

end Duplex
