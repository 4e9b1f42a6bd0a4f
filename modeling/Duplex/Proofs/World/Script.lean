/-
Duplex/Proofs/World/Script.lean

Scripts: what is done to the sessions of one registry, step by step.

A script enters sessions by name, and does to them whatever is done to a session
from outside: carriers come, change and lose their connection, clients say
something, application code is called, somebody closes the session.  After every
step the world comes to rest, and between steps time may pass for all sessions
together.

`play` does so with fuel for every rest.  `Plays` is the same without fuel; with
enough of it the two agree (`Plays.play`).  When applications use their own
sockets only, a script can be played to its end (`exists_plays`), and on the way
the world stays apart.
-/
import Duplex.Program
import Duplex.Proofs.Session.Plain
import Duplex.Proofs.World.Apart

namespace Duplex

variable {C : Type}

/-! ### Scripts -/

/-- The application uses the socket that it is given and no other, and what it does is the same
whatever number that socket has. -/
def Application.IsLocal (a : Application) : Prop :=
  ∀ k, (a k).On (· = k) ∧ (a k).plain = (a 0).plain

/-- A session that is to be made and entered. -/
structure Opening where
  id : String
  timing : Timing
  onOpen : Application
  peer : Option Peer := none
  held : Bool := true

/-- What is done to one session from outside. -/
inductive Errand (C : Type) where
  | hold (held : Bool)
  | introduce (peer : Peer)
  | register (carrier : C)
  /-- A carrier that the session had before comes again. -/
  | again (n : Nat)
  /-- A carrier changes by itself. -/
  | stir (n : Nat) (carrier : C)
  /-- The session is told that the connection of a carrier went away. -/
  | lose (n : Nat)
  | feed (payload : String)
  | close
  /-- Application code is called, with the socket of the session. -/
  | call (application : Application)

/-- A step of a script. -/
inductive Cue (C : Type) where
  | enter (opening : Opening)
  | errand (id : String) (errand : Errand C)
  | advance (ms : Nat)

/-- The session when it is made. -/
def Opening.session (o : Opening) : Session C :=
  { id := o.id, timing := o.timing, onOpen := o.onOpen, peer := o.peer, held := o.held }

/-- The move that makes the session. -/
def Opening.move (o : Opening) : Move C := .make o.id o.timing o.onOpen o.peer o.held true

namespace Errand

/-- The errand as a move for session `k`. -/
def move (k : Nat) : Errand C → Move C
  | .hold held => .hold k held
  | .introduce peer => .introduce k peer
  | .register carrier => .register k carrier
  | .again n => .again k n
  | .stir n carrier => .stir k n carrier
  | .lose n => .lose k n
  | .feed payload => .feed k payload
  | .close => .close k
  | .call application => .call (application k)

/-- Application code that is called uses the socket of the session and no other. -/
def IsLocal : Errand C → Prop
  | .call application => application.IsLocal
  | _ => True

end Errand

namespace Cue

/-- How much time passes. -/
def duration : Cue C → Nat
  | .advance ms => ms
  | _ => 0

/-- The session that is entered. -/
def entered? : Cue C → Option String
  | .enter o => some o.id
  | _ => none

/-- The step is for the session of that name, or for all. -/
def concerns (id : String) : Cue C → Bool
  | .enter o => o.id == id
  | .errand other _ => other == id
  | .advance _ => true

/-- Applications use their own sockets. -/
def IsLocal : Cue C → Prop
  | .enter o => o.onOpen.IsLocal
  | .errand _ e => e.IsLocal
  | .advance _ => True

end Cue

namespace World

/-- The number of the session of that name. -/
def number? (w : World C) (id : String) : Option Nat := w.sessions.findIdx? (·.id == id)

variable [Carrier C]

/-- What a step does at once. -/
def cue (w : World C) : Cue C → World C
  | .enter o => w.move o.move
  | .errand id e =>
    match w.number? id with
    | none => w
    | some k => w.move (e.move k)
  | .advance _ => w

/-- Step after step, each with as much time as it takes, and with fuel for every rest. -/
def play (fuel : Nat) (w : World C) (script : List (Cue C)) : World C :=
  script.foldl (fun w c => (w.next.cue c).settle (w.now.time + c.duration) fuel) w

/-- The script can be played to its end, and this is the world then. -/
inductive Plays (pace : Moment → Moment) : World C → List (Cue C) → World C → Prop
  | nil (w : World C) : Plays pace w [] w
  | cons {w w₁ w' : World C} {c : Cue C} {script : List (Cue C)}
      (rests : Rests pace (w.now.time + c.duration) ((w.paced pace).cue c) w₁)
      (plays : Plays pace w₁ script w') : Plays pace w (c :: script) w'

variable {pace : Moment → Moment} {w w' w'' w₁ : World C} {script : List (Cue C)} {c : Cue C}
  {j limit : Nat}

theorem Plays.unique (h : Plays pace w script w') (h' : Plays pace w script w'') : w' = w'' := by
  induction h with
  | nil =>
    cases h'
    rfl
  | cons rests _ ih =>
    cases h' with
    | cons rests' plays' =>
      obtain rfl := rests.unique rests'
      exact ih plays'

/-- **What `play` comes to with enough fuel.** -/
theorem Plays.play (h : Plays Moment.next w script w') :
    ∃ n, ∀ fuel, n ≤ fuel → w.play fuel script = w' := by
  induction h with
  | nil => exact ⟨0, fun _ _ => rfl⟩
  | @cons w w₁ w' c script rests _ ih =>
    obtain ⟨n, hn⟩ := rests.settle
    obtain ⟨n', ih⟩ := ih
    refine ⟨max n n', fun fuel hf => ?_⟩
    have hfirst : (w.next.cue c).settle (w.now.time + c.duration) fuel = w₁ := hn fuel (by omega)
    rw [World.play, List.foldl_cons, hfirst]
    exact ih fuel (by omega)

/-! ### Playing to the end -/

omit [Carrier C] in
theorem isFor_errand {e : Errand C} (he : e.IsLocal) (w : World C) (k : Nat) :
    w.IsFor k (e.move k) := by
  cases e with
  | call a => exact (he k).1
  | _ => rfl

theorem now_cue (w : World C) (c : Cue C) : (w.cue c).now = w.now := by
  have frame {m : Move C} (next : m ≠ .next) (pass : ∀ time, m ≠ .pass time)
      (shutdown : m ≠ .shutdown) : (w.move m).now = w.now := by
    obtain ⟨_, _, _, _, h⟩ := move_frame w next pass shutdown
    rw [h]
  cases c with
  | enter o =>
    exact frame (by simp [Opening.move]) (by simp [Opening.move]) (by simp [Opening.move])
  | errand id e =>
    simp only [World.cue]
    split
    · rfl
    · cases e <;>
        exact frame (by simp [Errand.move]) (by simp [Errand.move]) (by simp [Errand.move])
  | advance ms => rfl

/-- A session that is made comes last, and is entered under its number. -/
theorem move_enter {o : Opening} (hf : w.find? o.id = none) :
    w.move o.move =
      { w with
        sessions := w.sessions ++ [o.session]
        registry := w.registry ++ [(o.id, w.sessions.length)] } := by
  simp [World.move, Opening.move, ensure, hf, add, Opening.session]

/-- A session that is made is left to itself. -/
theorem Apart.enter (h : w.Apart) {o : Opening} (ho : o.onOpen.IsLocal) :
    (w.move o.move).Apart := by
  have hminds (i : Nat) : (o.session : Session C).Minds i :=
    ⟨⟨by simp [Opening.session], by simp [Opening.session]⟩, (ho i).1⟩
  rcases hf : w.find? o.id with - | k
  rotate_left
  · have hsame : w.move o.move = w := by simp [World.move, Opening.move, ensure, hf]
    rw [hsame]
    exact h
  rw [move_enter hf]
  refine ⟨?_, ?_, h.tasks⟩
  · intro i s hs
    rw [List.getElem?_append] at hs
    split at hs
    · exact h.minds i s hs
    · rw [List.mem_singleton.mp (List.mem_of_getElem? hs)]
      exact hminds i
  · intro s hs
    rcases List.mem_append.mp hs with hs | hs
    · exact h.clocks s hs
    · rw [List.mem_singleton.mp hs]
      exact ⟨Session.IsNew.wound ⟨_, _, _, _, _, rfl⟩,
        ⟨by simp [Opening.session], by simp [Opening.session]⟩⟩

theorem Apart.cue (h : w.Apart) (hc : c.IsLocal) : (w.cue c).Apart := by
  cases c with
  | enter o => exact h.enter hc
  | errand id e =>
    simp only [World.cue]
    split
    · exact h
    · exact h.move (isFor_errand hc w _)
  | advance ms => exact h

/-- **A script of local applications can be played to its end.** -/
theorem exists_plays (hpace : ∀ m, (pace m).time = m.time) (h : w.Apart)
    (hscript : ∀ c ∈ script, c.IsLocal) : ∃ w', Plays pace w script w' := by
  induction script generalizing w with
  | nil => exact ⟨w, .nil w⟩
  | cons c script ih =>
    obtain ⟨hc, hscript⟩ := List.forall_mem_cons.mp hscript
    have hcue : ((w.paced pace).cue c).Apart := (h.paced (hpace w.now)).cue hc
    obtain ⟨w₁, hrests⟩ : ∃ w₁, Rests pace (w.now.time + c.duration) ((w.paced pace).cue c) w₁ :=
      exists_rests hcue.orderly
    obtain ⟨w', hplays⟩ := ih (hcue.rests hpace hrests) hscript
    exact ⟨w', .cons hrests hplays⟩

end World

end Duplex
