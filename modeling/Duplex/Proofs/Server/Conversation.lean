/-
Duplex/Proofs/Server/Conversation.lean

Conversations on a message socket.

When a connection is upgraded, its session is new, stands in no registry and has
said that it is open (`fresh_talk`).  `Conversation` says what comes of it,
whatever is said, and whatever else happens: the messages of the client reach
the application in order, up to the first thing said that ends the conversation;
and however it ends, the session is closed, with one farewell, and everything it
said to the client is on the wire before the connection is ended.
-/
import Duplex.Proofs.Server.Resting

namespace Duplex

open Session (given taken partings farewellsSet Turn)
open World (turns Attends)

/-! ### Upgrading -/

namespace Server

variable (s : Server) (m : Mount) (id : String) (r : Request)

/-- The moves by which a connection is upgraded. -/
def upgrading : List (Move Conduit) :=
  [.make id (.fullDuplex m.options) m.onOpen (some (peerOf r)) true false,
    .register s.world.sessions.length (.queue {})]

/-- The world and the new link when a connection was upgraded. -/
def talk : Talk := ((s.upgrade m id r).2.world, { session := s.world.sessions.length })

/-- The session of the new link. -/
def opened (now : Moment) : Session Conduit :=
  ({ id := id, timing := .fullDuplex m.options, onOpen := m.onOpen, peer := some (peerOf r) } :
    Session Conduit).does now (.register (.queue {}))

theorem links_upgrade : (s.upgrade m id r).2.links = s.links ++ [(s.talk m id r).2] := rfl

theorem world_talk : (s.talk m id r).1 = s.world.after (s.upgrading m id r) := rfl

theorem session_talk : (s.talk m id r).1.sessions[s.world.sessions.length]? =
    some (opened m id r s.world.now) := by
  rw [world_talk, upgrading, World.after_cons, World.after_cons, World.after_nil]
  show (World.register _ _ _).sessions[_]? = _
  rw [World.sessions_register]
  simp [World.doneTo, World.move, World.add, opened]

theorem phase_opened (now : Moment) : (opened m id r now).phase = .live := rfl

theorem joined_opened (now : Moment) (k : Nat) :
    (opened m id r now).Joined { session := k } { waiting := [Frame.opening.chars] } := by
  refine ⟨rfl, rfl, rfl, ?_, fun _ => rfl, ?_, rfl, ?_, rfl, rfl⟩
  · simp [phase_opened]
  · simp [phase_opened]
  · simp [phase_opened]

theorem stands_talk : Talk.Stands (s.talk m id r).1 (s.talk m id r).2 :=
  .joined _ _ (session_talk s m id r) rfl rfl (joined_opened m id r s.world.now _) nofun nofun

/-- The application is told that the session opened. -/
theorem tasks_talk : (s.talk m id r).1.tasks =
    .act (m.onOpen s.world.sessions.length) :: s.world.tasks := by
  have hnew {s₀ : Session Conduit} (hg : s₀.gone = false) :
      (s.world.add s₀).live? s.world.sessions.length = some s₀ :=
    World.live?_eq_some.mpr ⟨by simp [World.add], hg⟩
  simp only [talk, upgrade, World.register]
  rw [hnew rfl]
  dsimp only
  rw [World.attach, World.live?_eq_some.mpr ⟨by simp [World.add]; rfl, rfl⟩]
  rfl

theorem registry_talk : (s.talk m id r).1.registry = s.world.registry :=
  World.registry_register _ _ _

end Server

/-- An application that installs a handler attends to its session from the first. -/
theorem Server.attends_talk {s : Server} (m : Mount) (id : String) (r : Request)
    (ht : s.world.tasks = []) (hi : (m.onOpen s.world.sessions.length).Installs
      s.world.sessions.length) :
    Attends s.world.sessions.length (s.talk m id r).1 (opened m id r s.world.now) where
  here := session_talk s m id r
  phase := by simp [phase_opened]
  gone := rfl
  paused := rfl
  handled := .inr ⟨_, by rw [tasks_talk]; exact List.mem_cons_self, hi⟩
  unasked := by simp [tasks_talk, ht]

/-- The registry only holds sessions that were made. -/
theorem World.registry_lt (ms : List (Move Conduit)) :
    ∀ e ∈ (({} : World Conduit).after ms).registry,
      e.2 < (({} : World Conduit).after ms).sessions.length := by
  induction ms using List.reverseRecOn with
  | nil => exact nofun
  | append_singleton ms m ih =>
    rw [after_append, after_cons, after_nil]
    intro e he
    have hlt (h : e ∈ (({} : World Conduit).after ms).registry) :
        e.2 < ((({} : World Conduit).after ms).move m).sessions.length := by
      by_contra hn
      have hnone := (session_of_move (List.getElem?_eq_none_iff.mpr (Nat.le_of_not_lt hn))).1
      exact Nat.not_lt_of_le (List.getElem?_eq_none_iff.mp hnone) (ih e h)
    rcases registry_move (({} : World Conduit).after ms) m with
      hr | ⟨_, _, _, _, _, -, -, hr, hs⟩ | ⟨_, _, -, -, hr⟩
    · exact hlt (hr ▸ he)
    · rw [hr] at he
      rcases List.mem_append.mp he with he | he
      · exact hlt he
      · rw [List.mem_singleton.mp he, hs]
        simp
    · exact hlt (List.mem_filter.mp (hr ▸ he)).1

/-- A session that is yet to be made has had no turns. -/
theorem World.turns_of_none {k : Nat} (ms : List (Move Conduit))
    (h : (({} : World Conduit).after ms).sessions[k]? = none) : turns k {} ms = [] := by
  induction ms using List.reverseRecOn with
  | nil => rfl
  | append_singleton ms m ih =>
    rw [after_append, after_cons, after_nil] at h
    obtain ⟨hk, ht⟩ := session_of_move h
    rw [turns_concat, ih hk, ht, List.append_nil]

/-! ### Conversations -/

/-- What comes of the connection `c₀`, to which the run `ms` led and of which the program `p` was
told: session and link after these acts. -/
structure Conversation (ms : List (Move Conduit)) (c₀ : Talk) (p : Program) (acts : List Act) :
    Prop where
  /-- What is of no importance to the session has no effect, but that a ping is answered. -/
  idle : ∀ pre m post, acts = pre ++ .hear m :: post → m.isIdle = true →
    ((c₀.after pre).act (.hear m)).1 = (c₀.after pre).1 ∧
    ((c₀.after pre).act (.hear m)).2.isOpen = (c₀.after pre).2.isOpen ∧
    ((c₀.after pre).act (.hear m)).2.sent = (c₀.after pre).2.sent
  /-- An application that attends to the session is given the messages that the client said before
  the last, in order, and between tasks all of them. -/
  heard : p.Installs c₀.2.session → c₀.Always Talk.IsMild acts →
    (given (turns c₀.2.session {} (ms ++ c₀.moves acts))).map (·.1) <+: accepted (said acts) ∧
    ((c₀.after acts).1.tasks = [] →
      (given (turns c₀.2.session {} (ms ++ c₀.moves acts))).map (·.1) = accepted (said acts))
  /-- When the last was heard, the next step closes the session, if it is not closed already. -/
  atOnce : ∀ pre a post, acts = pre ++ a :: post → ∀ m, a.voice? = some m → m.isLast = true →
    ∃ s, (c₀.after (pre ++ [a, .world .step])).1.sessions[c₀.2.session]? = some s ∧
      s.phase = .closed
  /-- What the client says later has no effect at all. -/
  deaf : ∀ pre m post, acts = pre ++ .hear m :: post → (said pre).any (·.isLast) = true →
    (c₀.after pre).act (.hear m) = c₀.after pre
  /-- Unless the client goes away or ends the connection, the link is left with a message that says
  so, after all frames of the session, the last of which tells the client to go away. -/
  dismissed : .abandon ∉ acts → (∀ m, (said acts).find? (·.isLast) = some m → m.isText = true) →
    (c₀.after acts).2.isOpen = false →
    ∃ s, (c₀.after acts).1.sessions[c₀.2.session]? = some s ∧ (c₀.after acts).2.Dismissed s
  /-- At rest the link is left, when the last was heard, or the server was shut down, or anything
  asked the session to close. -/
  ends : (c₀.after acts).Rests →
    ((said acts).any (·.isLast) = true ∨ (c₀.after acts).1.stopping = true ∨
      ∃ pre m post, c₀.moves acts = pre ++ m :: post ∧ m.Asks c₀.2.session (c₀.1.after pre)) →
    (c₀.after acts).2.isOpen = false
  /-- When the link is left, the session is closed and no longer kept, and what was run is the
  farewell in force when it closed, and every one set since. -/
  finished : (c₀.after acts).1.tasks = [] → (c₀.after acts).2.isOpen = false →
    ∃ s, (c₀.after acts).1.sessions[c₀.2.session]? = some s ∧ s.phase = .closed ∧ s.held = false ∧
      ∃ pre t post, turns c₀.2.session {} (ms ++ c₀.moves acts) = pre ++ t :: post ∧
        t.before.phase ≠ .closed ∧ t.after.phase = .closed ∧
        partings (turns c₀.2.session {} (ms ++ c₀.moves acts)) =
          (farewellsSet pre).getLast?.toList ++ farewellsSet post
  /-- When the session is closed, looking after the link twice leaves it, and what is left to do is
  done with one step. -/
  leaves : (c₀.after acts).1.tasks = [] →
    (∃ s, (c₀.after acts).1.sessions[c₀.2.session]? = some s ∧ s.phase = .closed) →
    (c₀.after (acts ++ [.pump, .pump, .world .step])).Rests ∧
    (c₀.after (acts ++ [.pump, .pump, .world .step])).2.isOpen = false
  /-- However things stand, the tasks that wait and looking after the link bring it to rest, when
  applications use nothing but sockets. -/
  settles : (c₀.after acts).1.Orderly → (c₀.after acts).Settles
  /-- An open link that is at rest has a live session, and all its frames are on the wire. -/
  live : (c₀.after acts).Rests → (c₀.after acts).2.isOpen = true →
    ∃ s, (c₀.after acts).1.sessions[c₀.2.session]? = some s ∧ s.phase = .live ∧ s.held = true ∧
      (c₀.after acts).2.sent = s.frames.map (·.chars)
  /-- The session is never in the registry. -/
  unlisted : ∀ pre, pre <+: acts → ∀ e ∈ (c₀.after pre).1.registry, e.2 ≠ c₀.2.session

namespace Talk

variable {c : Talk} {ms : List (Move Conduit)} {acts : List Act} {s : Session Conduit}

/-! ### From the upgrade on -/

/-- The connection is as it is when it was just upgraded. -/
structure Fresh (ms : List (Move Conduit)) (c : Talk) (p : Program) : Prop where
  run : c.1 = ({} : World Conduit).after ms
  stands : Stands c.1 c.2
  isOpen : c.2.isOpen = true
  listens : c.2.listens = true
  unlisted : ∀ e ∈ c.1.registry, e.2 ≠ c.2.session
  took : taken (turns c.2.session {} ms) = []
  attends : p.Installs c.2.session → ∃ s, Attends c.2.session c.1 s

variable {p : Program}

theorem Fresh.heard (h : Fresh ms c p) (hproper : c.Proper acts) (hi : p.Installs c.2.session)
    (hmild : c.Always IsMild acts) :
    (given (turns c.2.session {} (ms ++ c.moves acts))).map (·.1) <+: accepted (said acts) ∧
    ((c.after acts).1.tasks = [] →
      (given (turns c.2.session {} (ms ++ c.moves acts))).map (·.1) = accepted (said acts)) := by
  have hfirst : Follows ms c [] :=
    ⟨h.run, h.took, fun _ => ⟨h.isOpen, h.listens, h.attends hi⟩, nofun⟩
  have hfollows := hfirst.after h.stands h.unlisted hproper hmild
  have htook := hfollows.took
  rw [List.nil_append, session_after] at htook
  obtain ⟨s, hs⟩ := (h.stands.after h.run hproper).session
  rw [session_after, run_after h.run] at hs
  refine ⟨htook ▸ (World.flow_of_run _ hs).within, fun ht => ?_⟩
  rcases hlast : (said acts).any (·.isLast) with - | -
  · obtain ⟨-, -, s', hattends⟩ := hfollows.attends hlast
    rw [session_after, run_after h.run] at hattends
    rw [run_after h.run] at ht
    rw [World.given_of_attends hattends ht, htook]
  · have hgave := (hfollows.gave hlast).2
    rw [session_after] at hgave
    rw [hgave, htook]

theorem Fresh.finished (h : Fresh ms c p) (hproper : c.Proper acts)
    (ht : (c.after acts).1.tasks = []) (ho : (c.after acts).2.isOpen = false) :
    ∃ s, (c.after acts).1.sessions[c.2.session]? = some s ∧ s.phase = .closed ∧ s.held = false ∧
      ∃ pre t post, turns c.2.session {} (ms ++ c.moves acts) = pre ++ t :: post ∧
        t.before.phase ≠ .closed ∧ t.after.phase = .closed ∧
        partings (turns c.2.session {} (ms ++ c.moves acts)) =
          (farewellsSet pre).getLast?.toList ++ farewellsSet post := by
  cases h.stands.after h.run hproper with
  | joined _ _ _ isOpen => cases ho.symm.trans isOpen
  | left s here _ held closing =>
    rw [session_after] at here closing
    have hp : s.phase = .closed := by
      rcases closing with hp | ⟨hmem, -⟩
      · exact hp
      · rw [ht] at hmem
        cases hmem
    rw [run_after h.run] at here
    obtain ⟨pre, t, post, hturns, -, hbefore, hafter, -, hpartings⟩ :=
      (World.farewells_of_run _ here).done hp
    rw [run_after h.run]
    exact ⟨s, here, hp, held, pre, t, post, hturns, hbefore, hafter, hpartings⟩

theorem Fresh.ends (h : Fresh ms c p) (hproper : c.Proper acts) (hrest : (c.after acts).Rests)
    (hcause : (said acts).any (·.isLast) = true ∨ (c.after acts).1.stopping = true ∨
      ∃ pre m post, c.moves acts = pre ++ m :: post ∧ m.Asks c.2.session (c.1.after pre)) :
    (c.after acts).2.isOpen = false := by
  refine left_of_rests (h.stands.after h.run hproper) hrest ?_
  rcases hcause with hlast | hstopping | ⟨pre, m, post, hmoves, hasks⟩
  · exact .inl (deaf_of_said hlast)
  · exact .inr (.inl hstopping)
  · obtain ⟨s, hs⟩ := h.stands.session
    refine .inr (.inr ?_)
    have ht := hrest.1
    rw [fst_after, hmoves] at ht
    rw [session_after, fst_after, hmoves]
    exact closed_of_asks hs hasks ht

theorem Fresh.live (h : Fresh ms c p) (hproper : c.Proper acts) (hrest : (c.after acts).Rests)
    (ho : (c.after acts).2.isOpen = true) :
    ∃ s, (c.after acts).1.sessions[c.2.session]? = some s ∧ s.phase = .live ∧ s.held = true ∧
      (c.after acts).2.sent = s.frames.map (·.chars) := by
  cases h.stands.after h.run hproper with
  | left _ _ isOpen => cases ho.symm.trans isOpen
  | joined s q here isOpen place joined =>
    obtain ⟨-, hp, hwaiting⟩ := open_of_rests here isOpen place joined hrest.2
    rw [session_after] at here
    refine ⟨s, here, ?_, joined.held, ?_⟩
    · have hopened := joined.opened
      rcases hphase : s.phase
      · exact absurd hphase hopened
      · rfl
      · exact absurd hphase hp
    · rw [← joined.told, hwaiting, List.append_nil]

theorem Fresh.dismissed (h : Fresh ms c p) (hproper : c.Proper acts) (ha : .abandon ∉ acts)
    (hm : ∀ m, (said acts).find? (·.isLast) = some m → m.isText = true)
    (ho : (c.after acts).2.isOpen = false) :
    ∃ s, (c.after acts).1.sessions[c.2.session]? = some s ∧ (c.after acts).2.Dismissed s := by
  cases h.stands.after h.run hproper with
  | joined _ _ _ isOpen => cases ho.symm.trans isOpen
  | left s here _ _ _ dismissed =>
    exact ⟨s, session_after c acts ▸ here, dismissed (close_of_left h.isOpen ha hm ho)⟩

theorem Fresh.unlisted_after (h : Fresh ms c p) (acts : List Act) :
    ∀ e ∈ (c.after acts).1.registry, e.2 ≠ c.2.session := by
  obtain ⟨s, hs⟩ := h.stands.session
  rw [fst_after]
  exact World.not_entered_after hs h.unlisted _

theorem Fresh.leaves (h : Fresh ms c p) (hproper : c.Proper acts)
    (ht : (c.after acts).1.tasks = [])
    (hs : ∃ s, (c.after acts).1.sessions[c.2.session]? = some s ∧ s.phase = .closed) :
    (c.after (acts ++ [.pump, .pump, .world .step])).Rests ∧
      (c.after (acts ++ [.pump, .pump, .world .step])).2.isOpen = false := by
  obtain ⟨s, hs, hp⟩ := hs
  have hstands := h.stands.after h.run hproper
  rw [← session_after c acts] at hs
  have hafter : c.after (acts ++ [.pump, .pump, .world .step]) =
      (c.after acts).after [.pump, .pump, .world .step] := List.foldl_append
  obtain ⟨ht', ho⟩ := left_of_closed hstands ht hs hp
  rw [hafter]
  exact ⟨⟨ht', pump?_of_left ho⟩, ho⟩

theorem Fresh.settles (h : Fresh ms c p) (hproper : c.Proper acts)
    (horderly : (c.after acts).1.Orderly) : (c.after acts).Settles := by
  exact exists_rests (h.stands.after h.run hproper) (run_after h.run acts) horderly

/-- A connection that was just upgraded goes on as a conversation. -/
theorem Fresh.conversation (h : Fresh ms c p) (hproper : c.Proper acts) :
    Conversation ms c p acts where
  idle := fun _ _ _ _ hm => act_idle _ hm
  heard := h.heard hproper
  atOnce := by
    rintro pre a post rfl m ha hm
    obtain ⟨hpre, ha', -⟩ := (always_append _ c pre (a :: post)).mp hproper
    have hclosed := closed_at_once (h.stands.after h.run hpre) (run_after h.run pre) ha' ha hm
    rw [session_after] at hclosed
    have hafter : c.after (pre ++ [a, .world .step]) = (c.after pre).after [a, .world .step] :=
      List.foldl_append
    rw [hafter]
    exact hclosed
  deaf := fun _ m _ _ hlast => hear_of_deaf (deaf_of_said hlast) m
  dismissed := h.dismissed hproper
  ends := h.ends hproper
  finished := h.finished hproper
  leaves := h.leaves hproper
  settles := h.settles hproper
  live := h.live hproper
  unlisted := fun pre _ => h.unlisted_after pre

end Talk

theorem Server.fresh_talk {s : Server} {ms : List (Move Conduit)}
    (hrun : s.world = ({} : World Conduit).after ms) (ht : s.world.tasks = []) (m : Mount)
    (id : String) (r : Request) : (s.talk m id r).Fresh (ms ++ s.upgrading m id r)
      (m.onOpen s.world.sessions.length) where
  run := by rw [world_talk, World.after_append, hrun]
  stands := stands_talk s m id r
  isOpen := rfl
  listens := rfl
  unlisted := by
    intro e he
    rw [registry_talk, hrun] at he
    have hlt := World.registry_lt ms e he
    rw [← hrun] at hlt
    exact Nat.ne_of_lt hlt
  took := by
    have hnone : turns s.world.sessions.length {} ms = [] :=
      World.turns_of_none ms (by rw [← hrun]; simp)
    show taken (turns s.world.sessions.length {} (ms ++ s.upgrading m id r)) = []
    rw [Talk.taken_append, hnone]
    refine World.taken_of_silent fun m' hm => ?_
    rcases List.mem_cons.mp hm with rfl | hm
    · rfl
    · rw [List.mem_singleton.mp hm]
      rfl
  attends := fun hi => ⟨_, attends_talk m id r ht hi⟩

/-- **A connection hears its client in order and ends clean**, from its upgrade on, whatever else
happens to the server meanwhile, and whatever the application does. -/
theorem Server.conversation_of_upgrade {s : Server} {ms : List (Move Conduit)}
    (hrun : s.world = ({} : World Conduit).after ms) (ht : s.world.tasks = []) (m : Mount)
    (id : String) (r : Request) {acts : List Act} (hproper : (s.talk m id r).Proper acts) :
    Conversation (ms ++ s.upgrading m id r) (s.talk m id r) (m.onOpen s.world.sessions.length)
      acts :=
  (fresh_talk hrun ht m id r).conversation hproper

/-- An application that writes every message back, and takes note of the end. -/
def echoing : Mount :=
  ⟨"/echo", {}, fun k => .onClose k (.note k (.parting "over") .done) (Application.echo k)⟩

/-- The connection of a client of it. -/
def garbled : Talk := Server.talk {} echoing "s" { method := "GET", target := .root }

/-- The client says two messages at once, nothing, something that cannot be read, and one thing
more. -/
def garbling : List Act :=
  let steps (n : Nat) : List Act := List.replicate n (.world .step)
  steps 4 ++ [.pump, .hear (.text "[\"a\",\"b\"]")] ++ steps 9 ++
    [.hear (.text ""), .hear .binary, .hear (.text "[\"c")] ++ steps 3 ++
    [.hear (.text "\"d\""), .pump, .pump] ++ steps 1

theorem proper_garbling : garbled.Proper garbling := by
  have step (c : Talk) : c.IsProper (.world .step) := ⟨trivial, trivial, rfl⟩
  have idle : ∀ n ∈ [5, 15, 16, 17, 21],
      (garbled.after (garbling.take n)).1.tasks.isEmpty = true := by decide +kernel
  have hear (n : Nat) (hn : n ∈ [5, 15, 16, 17, 21]) :
      (garbled.after (garbling.take n)).1.tasks = [] := List.isEmpty_iff.mp (idle n hn)
  exact ⟨step _, step _, step _, step _, trivial, hear 5 (by decide), step _, step _, step _,
    step _, step _, step _, step _, step _, step _, hear 15 (by decide), hear 16 (by decide),
    hear 17 (by decide), step _, step _, step _, hear 21 (by decide), trivial, trivial, step _,
    trivial⟩

theorem mild_garbling : garbled.Always Talk.IsMild garbling := by
  have mild : ∀ n < garbling.length, (garbled.after (garbling.take n)).1.stopping = false ∧
      (garbled.after (garbling.take n)).1.tasks.head?.any
        (·.meddles (garbled.after (garbling.take n)).2.session) = false := by decide +kernel
  refine Talk.always_of_take fun n a ha => ?_
  obtain ⟨hrunning, htop⟩ := mild n (List.getElem?_eq_some_iff.mp ha).1
  refine ⟨hrunning, fun p rest _ ht => ?_⟩
  rw [ht] at htop
  simpa [Task.meddles] using htop

/-- Both messages are given out and written back, and nothing of what comes after. -/
theorem Server.conversation_of_garbling :
    garbled.Proper garbling ∧ garbled.Always Talk.IsMild garbling ∧
      accepted (said garbling) = ["a", "b"] ∧
      (garbled.after garbling).2.isOpen = false ∧
      (garbled.after garbling).2.sent.map String.ofList =
        ["o", "a[\"a\"]", "a[\"b\"]", "c[3000,\"Go away!\"]"] ∧
      Conversation ([] ++ ({} : Server).upgrading echoing "s" { method := "GET", target := .root })
        garbled (echoing.onOpen 0) garbling :=
  ⟨proper_garbling, mild_garbling, by decide +kernel, by decide +kernel, by decide +kernel,
    @conversation_of_upgrade {} [] rfl rfl echoing "s" _ _ proper_garbling⟩

end Duplex
