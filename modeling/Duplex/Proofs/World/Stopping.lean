/-
Duplex/Proofs/World/Stopping.lean

Closing all sessions.

To close all sessions is to put a task for each registered session on top of the
others.  It is over when these tasks are done and the tasks that waited before
are on top again.  If applications use nothing but sockets this comes about
(`exists_ends`), whatever their farewells do to each other's sessions; and
whenever it comes about, every session that was registered is closed
(`closed_of_back`), by a farewell of another one or by the task made for it, but
once (`dismissed_of_closed`).

A world is shut down by closing all sessions, and it may be done again.  The
sessions that one call counts are closed when it is over, so no later call
counts them; what it counts are the sessions entered in between.
-/
import Duplex.Proofs.World.Order
import Duplex.Proofs.World.Sockets
import Mathlib.Data.List.Basic

namespace Duplex.World

open Session

variable {C : Type} [Carrier C] {w w' : World C} {k : Nat} {s s' : Session C}
  {ms : List (Move C)} {m : Move C}

/-! ### Along a run -/

omit [Carrier C] in
theorem before_of_turn {t : Turn C} (ht : t ∈ turnOf k w m) (hs : w.sessions[k]? = some s) :
    t.before = s := (Option.some.inj (hs.symm.trans (mem_turnOf.mp ht).1)).symm

/-- A session that is closed in the end but was not at first closes at one of the moves. -/
theorem exists_closing_turn (hs : w.sessions[k]? = some s) (hp : s.phase ≠ .closed)
    (hs' : (w.after ms).sessions[k]? = some s') (hp' : s'.phase = .closed) :
    ∃ pre m post, ms = pre ++ m :: post ∧ ∃ t ∈ turnOf k (w.after pre) m,
      t.before.phase ≠ .closed ∧ t.after.phase = .closed := by
  induction ms generalizing w s with
  | nil =>
    obtain rfl := Option.some.inj (hs.symm.trans hs')
    exact absurd hp' hp
  | cons m ms ih =>
    rcases hs₁ : (w.move m).sessions[k]? with - | s₁
    · cases hs.symm.trans (session_of_move hs₁).1
    by_cases hp₁ : s₁.phase = .closed
    · rcases session_move hs₁ with ⟨s₀, hk, ⟨-, rfl⟩ | ⟨d, ht, rfl⟩⟩ | ⟨hk, -, -⟩
      · obtain rfl := Option.some.inj (hs.symm.trans hk)
        exact absurd hp₁ hp
      · obtain rfl := Option.some.inj (hs.symm.trans hk)
        exact ⟨[], m, ms, rfl, ⟨w.now, s, d⟩, ht ▸ List.mem_singleton_self _, hp, hp₁⟩
      · cases hs.symm.trans hk
    · obtain ⟨pre, m', post, rfl, h⟩ := ih hs₁ hp₁ hs'
      exact ⟨m :: pre, m', post, rfl, h⟩

/-- The turns of a run around one of them. -/
theorem turns_split {pre post : List (Move C)} {t : Turn C} (ht : t ∈ turnOf k (w.after pre) m) :
    turns k w (pre ++ m :: post) =
      turns k w pre ++ t :: turns k ((w.after pre).move m) post := by
  have hcons : turns k (w.after pre) (m :: post) = t :: turns k ((w.after pre).move m) post := by
    show turnOf k (w.after pre) m ++ _ = _
    rw [turnOf_eq_of_mem ht]
    rfl
  rw [turns_append, hcons]

/-- From then on it is closed at every turn. -/
theorem closed_at_turns (hs : w.sessions[k]? = some s) (hp : s.phase = .closed) :
    ∀ t ∈ turns k w ms, t.before.phase = .closed := by
  intro t ht
  obtain ⟨pre, m, post, rfl, hturn⟩ := mem_turns.mp ht
  obtain ⟨s', hs', hp'⟩ := session_after_of_kept (Q := fun s => s.phase = .closed)
    (fun _ now d h => closed_does h now d) hs hp pre
  rw [before_of_turn hturn hs']
  exact hp'

/-- What was handed over along a run is what its turns handed over. -/
theorem handed_after (hs : w.sessions[k]? = some s) (hseat : s.Seated)
    (hs' : (w.after ms).sessions[k]? = some s') :
    s'.handed = s.handed ++ (turns k w ms).flatMap fun t => t.before.hands t.deed := by
  induction ms generalizing w s with
  | nil =>
    obtain rfl := Option.some.inj (hs.symm.trans hs')
    exact (List.append_nil _).symm
  | cons m ms ih =>
    rcases hs₁ : (w.move m).sessions[k]? with - | s₁
    · cases hs.symm.trans (session_of_move hs₁).1
    show _ = s.handed ++ (turnOf k w m ++ turns k (w.move m) ms).flatMap _
    rw [List.flatMap_append, ← List.append_assoc]
    rcases session_move hs₁ with ⟨s₀, hk, ⟨ht, rfl⟩ | ⟨d, ht, rfl⟩⟩ | ⟨hk, -, -⟩
    · obtain rfl := Option.some.inj (hs.symm.trans hk)
      rw [ht, List.flatMap_nil, List.append_nil]
      exact ih hs₁ hseat hs'
    · obtain rfl := Option.some.inj (hs.symm.trans hk)
      rw [ht, List.flatMap_singleton, ← handed_does hseat]
      exact ih hs₁ (hseat.does w.now d) hs'
    · cases hs.symm.trans hk

/-! ### Back to the tasks that waited before -/

/-- A task to close a session goes on waiting, or the session is closed. -/
theorem close_move {t : Task} {above rest : List Task} (ht : w.tasks = t :: above ++ rest)
    (hs : w.sessions[k]? = some s) (h : .close k ∈ t :: above ∨ s.isClosed = true) (m : Move C) :
    ∃ s', (w.move m).sessions[k]? = some s' ∧
      (.close k ∈ m.rest (t :: above) ∨ s'.isClosed = true) := by
  have kept (hc : s.isClosed = true) :
      ∃ s', (w.move m).sessions[k]? = some s' ∧ s'.isClosed = true :=
    session_after_of_kept (Q := fun s => s.isClosed = true)
      (fun _ now d hc => isClosed_does hc now d) hs hc [m]
  have stays : ∃ s', (w.move m).sessions[k]? = some s' := by
    obtain ⟨s', hs', -⟩ := session_after_of_kept (Q := fun _ => True)
      (fun _ _ _ _ => trivial) hs trivial [m]
    exact ⟨s', hs'⟩
  rcases h with h | h
  -- its turn has come, or it goes on waiting
  · by_cases htop : m = .step ∧ t = .close k
    · obtain ⟨rfl, rfl⟩ := htop
      obtain ⟨s', hs', hc⟩ := isClosed_of_close hs (by simp [ht])
      exact ⟨s', hs', .inr hc⟩
    · obtain ⟨s', hs'⟩ := stays
      refine ⟨s', hs', .inl ?_⟩
      -- only a step takes a task away
      cases m with
      | step =>
        rcases List.mem_cons.mp h with rfl | h
        · exact absurd ⟨rfl, rfl⟩ htop
        · exact h
      | _ => exact h
  · obtain ⟨s', hs', hc⟩ := kept h
    exact ⟨s', hs', .inr hc⟩

/-- **Sessions that are told to close are closed when their tasks are done**, whatever else happens
in the meantime. -/
theorem closed_of_back {above rest : List Task} {ks : List Nat} (ht : w.tasks = above ++ rest)
    (hks : ∀ k ∈ ks, ∃ s, w.sessions[k]? = some s ∧ (.close k ∈ above ∨ s.isClosed = true))
    (hback : (w.after ms).tasks = rest) :
    ∀ k ∈ ks, ∃ s, (w.after ms).sessions[k]? = some s ∧ s.isClosed = true := by
  induction ms generalizing w above with
  | nil =>
    intro k hk
    obtain ⟨s, hs, h⟩ := hks k hk
    have habove : above = [] := List.append_left_eq_self.mp (ht.symm.trans hback)
    exact ⟨s, hs, by simpa [habove] using h⟩
  | cons m ms ih =>
    rcases above with - | ⟨t, above⟩
    -- all is done before
    · intro k hk
      obtain ⟨s, hs, h⟩ := hks k hk
      exact session_after_of_kept (Q := fun s => s.isClosed = true)
        (fun _ now d hc => isClosed_does hc now d) hs (by simpa using h) (m :: ms)
    -- what the move leaves to do comes on top, and the tasks wait below
    · obtain ⟨new, hnew⟩ := suffix_move w m
      have hrest : m.rest w.tasks = m.rest (t :: above) ++ rest := by
        rw [ht]
        cases m <;> rfl
      have hmove : (w.move m).tasks = (new ++ m.rest (t :: above)) ++ rest := by
        rw [← hnew, hrest, List.append_assoc]
      refine ih hmove ?_ hback
      intro k hk
      obtain ⟨s, hs, h⟩ := hks k hk
      obtain ⟨s', hs', h'⟩ := close_move ht hs h m
      exact ⟨s', hs', h'.imp_left fun h => List.mem_append_right new h⟩

/-! ### What a session goes through -/

/-- The frames that tell a carrier to go away. -/
def goAways (fs : List (Nat × Frame)) : List (Nat × Frame) := fs.filter fun f => f.2 = .goAway

/-- At a step frames go to the attached carrier, and the one that tells it to go away when the
session closes. -/
theorem hands_of_step {t : Turn C} (ht : t ∈ turnOf k w .step) {f : Nat × Frame}
    (hf : f ∈ t.before.hands t.deed) :
    (∃ n, t.before.attached = some n) ∧ (f.2 = .goAway → t.after.phase = .closed) := by
  have hcomer : t.before.comer? t.deed = none :=
    comer?_of_not_coming (m := (.step : Move C)) rfl (mem_turnOf.mp ht).2.2 t.before
  rcases mem_hands hf with ⟨n, hn, -⟩ | ⟨n, hn, ⟨-, rfl⟩ | ⟨message, -, -, rfl⟩ | ⟨hd, hg, -, rfl⟩⟩
  · cases hcomer.symm.trans hn
  · exact ⟨⟨n, hn⟩, fun h => by cases h⟩
  · exact ⟨⟨n, hn⟩, fun h => by cases h⟩
  · refine ⟨⟨n, hn⟩, fun _ => ?_⟩
    rw [Turn.after, phase_does, hd]
    simp [phaseAfter, hg]

omit [Carrier C] in
/-- A part of some steps are some steps. -/
theorem replicate_eq_append_cons {n : Nat} {pre post : List (Move C)}
    (h : List.replicate n .step = pre ++ m :: post) :
    m = .step ∧ ∃ i j, pre = List.replicate i .step ∧ post = List.replicate j .step ∧
      n = i + 1 + j := by
  have hall : ∀ m' ∈ pre ++ m :: post, m' = .step :=
    fun m' hm' => List.eq_of_mem_replicate (h ▸ hm')
  have hlength := congrArg List.length h
  refine ⟨hall m (by simp), pre.length, post.length, ?_, ?_, ?_⟩
  · exact List.eq_replicate_of_mem fun m' hm' => hall m' (by simp [hm'])
  · exact List.eq_replicate_of_mem fun m' hm' => hall m' (by simp [hm'])
  · simp at hlength
    omega

/-- While a session stays open no carrier is told to go away. -/
theorem goAways_of_open {n : Nat}
    (hs' : (w.after (List.replicate n .step)).sessions[k]? = some s') (hp : s'.phase ≠ .closed) :
    goAways ((turns k w (List.replicate n .step)).flatMap fun t => t.before.hands t.deed) = [] := by
  refine List.filter_eq_nil_iff.mpr ?_
  intro f hf hgo
  obtain ⟨t, ht, hf⟩ := List.mem_flatMap.mp hf
  obtain ⟨pre, m, post, he, hturn⟩ := mem_turns.mp ht
  obtain ⟨rfl, -⟩ := replicate_eq_append_cons he
  have hclosed := (hands_of_step hturn hf).2 (by simpa using hgo)
  -- it would have closed at that turn
  obtain ⟨s, hs, hc⟩ := session_after_of_kept (Q := fun s => s.phase = .closed)
    (fun _ now d h => closed_does h now d) (session_of_turn hturn) hclosed post
  rw [he, after_append, after_cons] at hs'
  exact hp (Option.some.inj (hs.symm.trans hs') ▸ hc)

/-- When a session is closed nothing is handed over any more. -/
theorem hands_of_closed {n : Nat} (hs : w.sessions[k]? = some s) (hp : s.phase = .closed)
    (hspent : s.Spent) :
    ((turns k w (List.replicate n .step)).flatMap fun t => t.before.hands t.deed) = [] := by
  refine List.flatMap_eq_nil_iff.mpr ?_
  intro t ht
  obtain ⟨pre, m, post, he, hturn⟩ := mem_turns.mp ht
  obtain ⟨rfl, -⟩ := replicate_eq_append_cons he
  obtain ⟨s', hs', -, hspent'⟩ := session_after_of_kept
    (Q := fun s => s.phase = .closed ∧ s.Spent)
    (fun _ now d h => ⟨closed_does h.1 now d, h.2.does h.1 now d⟩) hs ⟨hp, hspent⟩ pre
  refine List.eq_nil_iff_forall_not_mem.mpr fun f hf => ?_
  obtain ⟨⟨n, hn⟩, -⟩ := hands_of_step hturn hf
  rw [before_of_turn hturn hs', hspent'.attached] at hn
  cases hn

/-- What becomes, in `n` steps, of a registered session when all are told to close. -/
structure Dismissed (k : Nat) (w : World C) (n : Nat) (s s' : Session C) : Prop where
  closed : s'.phase = .closed
  /-- It closes at one of the steps.  The carrier attached then is told to go away and no other is,
  then or at any other step; the farewell in force then is run, and those set since. -/
  once : ∃ i j t, n = i + 1 + j ∧ t ∈ turnOf k (w.after (List.replicate i .step)) .step ∧
    t.before.phase ≠ .closed ∧ Closes k (w.after (List.replicate i .step)) .step t ∧
    (∃ fs, s'.handed = s.handed ++ fs ∧
      goAways fs = t.before.attached.toList.map fun n => (n, .goAway)) ∧
    partings (turns k w (List.replicate n .step)) = t.before.farewell.toList ++
      farewellsSet (turns k (w.after (List.replicate (i + 1) .step)) (List.replicate j .step))

omit [Carrier C] in
theorem partings_append (ts ts' : List (Turn C)) :
    partings (ts ++ ts') = partings ts ++ partings ts' := List.filterMap_append

/-- The farewells run at the end of a session, and since. -/
theorem partings_of_closing {pre post : List (Move C)} {t : Turn C}
    (hopen : partings (turns k w pre) = []) (ht : t ∈ turnOf k (w.after pre) m)
    (hp : t.before.phase ≠ .closed) (hp' : t.after.phase = .closed) :
    partings (turns k w (pre ++ m :: post)) =
      t.before.farewell.toList ++ farewellsSet (turns k ((w.after pre).move m) post) := by
  obtain ⟨hdeed, hc⟩ := Turn.open_of_closing hp hp'
  have hfirst : t.parting? = t.before.farewell := by simp [Turn.parting?, hdeed, hc]
  have hlater : partings (turns k ((w.after pre).move m) post) =
      farewellsSet (turns k ((w.after pre).move m) post) := by
    refine List.filterMap_congr fun t' ht' => Turn.parting?_of_closed ?_
    simp [isClosed, closed_at_turns (session_of_turn ht) hp' t' ht']
  rw [turns_split ht, partings_append, hopen, List.nil_append, ← hlater, ← hfirst]
  rcases hf : t.parting? with - | f
  · simp [partings, hf]
  · simp [partings, hf]

theorem mindful_steps (n : Nat) (w : World C) : Mindful w (List.replicate n .step) := by
  induction n generalizing w with
  | zero => trivial
  | succ n ih => exact ⟨trivial, ih _⟩

/-- A registered session that is over after some steps is closed: if it were only gone it would
still have its entry. -/
theorem phase_of_isClosed_steps {e : String × Nat} (hm : Mindful {} ms)
    (he : e ∈ (({} : World C).after ms).registry) {n : Nat}
    (hs' : ((({} : World C).after ms).after (List.replicate n .step)).sessions[e.2]? = some s')
    (hc' : s'.isClosed = true) : s'.phase = .closed := by
  by_contra hp'
  have he' := entered_after (entries_of_run hm) he (mindful_steps n _) hs' hp'
  have hlater := entries_of_run ((mindful_append _ _ _).mpr ⟨hm, mindful_steps n _⟩)
  rw [← after_append] at he' hs'
  obtain ⟨s₁, hs₁, -, hc₁⟩ := hlater.stand e he'
  obtain rfl := Option.some.inj (hs'.symm.trans hs₁)
  rw [hc'] at hc₁
  cases hc₁

/-- **A registered session that closes in some steps closes once.** -/
theorem dismissed_of_closed {e : String × Nat} (hm : Mindful {} ms)
    (he : e ∈ (({} : World C).after ms).registry) {n : Nat}
    (hs' : ((({} : World C).after ms).after (List.replicate n .step)).sessions[e.2]? = some s')
    (hc' : s'.isClosed = true) :
    ∃ s, (({} : World C).after ms).sessions[e.2]? = some s ∧
      Dismissed e.2 (({} : World C).after ms) n s s' := by
  obtain ⟨s, hs, -, hc⟩ := (entries_of_run hm).stand e he
  obtain ⟨hp, -⟩ := isClosed_eq_false.mp hc
  have hp' := phase_of_isClosed_steps hm he hs' hc'
  refine ⟨s, hs, hp', ?_⟩
  -- it closes at one of the steps, and no farewell is run before that
  obtain ⟨pre, m, post, hsplit, t, ht, hopen, hclosed⟩ := exists_closing_turn hs hp hs' hp'
  obtain ⟨rfl, i, j, rfl, rfl, rfl⟩ := replicate_eq_append_cons hsplit
  have hbefore := (mem_turnOf.mp ht).1
  have hspent : t.after.Spent := (Turn.emptied_of_closing hopen hclosed).toSpent
  have hunparted :
      partings (turns e.2 (({} : World C).after ms) (List.replicate i .step)) = [] := by
    have hnone := ((farewells_of_run (ms ++ List.replicate i .step)
      (by rw [after_append]; exact hbefore)).waiting (Turn.open_of_closing hopen hclosed).2).1
    rw [turns_append, partings_append, List.append_eq_nil_iff] at hnone
    exact hnone.2
  refine ⟨i, j, t, rfl, ht, hopen, ?_, ?_, ?_⟩
  -- at that step it goes through its closing
  · rw [← after_append] at hbefore
    exact closes_of_closing ht (balanced_of_run _ hbefore).1 hopen hclosed
  -- in all, just the attached carrier is told to go away
  · refine ⟨_, handed_after hs (balanced_of_run ms hs).1 hs', ?_⟩
    have hlast : t.before.hands t.deed = t.before.attached.toList.map fun n => (n, .goAway) := by
      obtain ⟨hdeed, hc⟩ := Turn.open_of_closing hopen hclosed
      rw [hdeed, hands, if_neg]
      simp [hopen, (isClosed_eq_false.mp hc).2]
    have hbefore' := goAways_of_open hbefore hopen
    rw [goAways] at hbefore' ⊢
    rw [hsplit, turns_split ht, List.flatMap_append, List.flatMap_cons, List.filter_append,
      hbefore', hands_of_closed (session_of_turn ht) hclosed hspent, hlast, List.append_nil,
      List.nil_append]
    simp
  -- and the farewell that it keeps is the one that is run
  · rw [hsplit, partings_of_closing hunparted ht hopen hclosed]
    rw [List.replicate_succ', after_append]
    rfl

/-! ### All registered sessions -/

/-- What it does at once to tell all registered sessions to close. -/
theorem move_general (w : World C) (hm : m.isGeneral = true) :
    (w.move m).tasks = (w.registry.map (·.2)).map .close ++ w.tasks ∧
      (w.move m).registry = w.registry ∧ (w.move m).sessions = w.sessions := by
  cases m with
  | closeAll | shutdown => exact ⟨by simp [move, shutdown, closeAll], rfl, rfl⟩
  | _ => cases hm

/-- Steps enter nothing. -/
theorem mem_registry_of_steps {n : Nat} {e : String × Nat}
    (he : e ∈ (w.after (List.replicate n .step)).registry) : e ∈ w.registry := by
  induction n generalizing w with
  | zero => exact he
  | succ n ih =>
    have hstep : e ∈ w.step.registry := ih he
    rcases registry_step w with h | ⟨_, _, -, h⟩
    · exact h ▸ hstep
    · exact (List.mem_filter.mp (h ▸ hstep)).1

/-- **Once the tasks that waited before are on top again, every session that was registered is
closed.** -/
theorem closed_of_general (hgen : m.isGeneral = true) (h : Entries w)
    {ms : List (Move C)} (hback : ((w.move m).after ms).tasks = w.tasks) :
    ∀ e ∈ w.registry, ∃ s, ((w.move m).after ms).sessions[e.2]? = some s ∧ s.isClosed = true := by
  obtain ⟨htasks, -, hsessions⟩ := move_general w hgen
  have hstart : ∀ k ∈ w.registry.map (·.2), ∃ s, (w.move m).sessions[k]? = some s ∧
      (.close k ∈ (w.registry.map (·.2)).map Task.close ∨ s.isClosed = true) := by
    intro k hk
    obtain ⟨e, he, rfl⟩ := List.mem_map.mp hk
    obtain ⟨s, hs, -⟩ := h.stand e he
    exact ⟨s, hsessions ▸ hs, .inl (List.mem_map_of_mem hk)⟩
  intro e he
  exact closed_of_back htasks hstart hback e.2 (List.mem_map_of_mem he)

/-- Who is registered in the end and was not at first was entered at one of the moves. -/
theorem exists_entering {e : String × Nat} (h : e ∉ w.registry)
    (h' : e ∈ (w.after ms).registry) :
    ∃ id timing onOpen peer held before after,
      ms = before ++ .make id timing onOpen peer held true :: after ∧
      (w.after before).find? id = none ∧ e = (id, (w.after before).sessions.length) := by
  induction ms generalizing w with
  | nil => exact absurd h' h
  | cons m ms ih =>
    by_cases hm : e ∈ (w.move m).registry
    · rcases registry_move w m with hr | ⟨id, timing, onOpen, peer, held, rfl, hf, hr, -⟩ |
        ⟨_, _, _, _, hr⟩
      · exact absurd (hr ▸ hm) h
      · rw [hr, List.mem_append, List.mem_singleton] at hm
        exact ⟨id, timing, onOpen, peer, held, [], ms, rfl, hf, hm.resolve_left h⟩
      · exact absurd (List.mem_filter.mp (hr ▸ hm)).1 h
    · obtain ⟨id, timing, onOpen, peer, held, before, after, rfl, hf, he⟩ := ih hm h'
      exact ⟨id, timing, onOpen, peer, held, m :: before, after, rfl, hf, he⟩

/-- A session that is entered stays in the registry until it closes. -/
theorem mem_registry_of_entering {id : String} {timing : Timing} {onOpen : Nat → Program}
    {peer : Option Peer} {held : Bool} {after : List (Move C)} (h : Entries w)
    (hf : w.find? id = none)
    (hm : Mindful (w.move (.make id timing onOpen peer held true)) after)
    (hs : ((w.move (.make id timing onOpen peer held true)).after after).sessions[
      w.sessions.length]? = some s) (hp : s.phase ≠ .closed) :
    (id, w.sessions.length) ∈
      ((w.move (.make id timing onOpen peer held true)).after after).registry := by
  refine entered_after (h.move (m := .make id timing onOpen peer held true) trivial) ?_ hm hs hp
  simp [move, ensure, hf]

/-! ### Whether the world is stopping -/

/-- Only shutting a world down makes it stop, and nothing makes it go on. -/
theorem stopping_move (w : World C) (m : Move C) :
    (w.move m).stopping = true ↔ w.stopping = true ∨ m = .shutdown := by
  by_cases hm : m = .shutdown
  · simp [hm, move, shutdown, closeAll]
  have hsame : (w.move m).stopping = w.stopping := by
    cases m with
    | next | pass => rfl
    | shutdown => exact absurd rfl hm
    | _ =>
      obtain ⟨_, _, _, _, h⟩ := move_frame w (by simp) (by simp) hm
      rw [h]
  rw [hsame]
  simp [hm]

/-- A world is stopping if it was or was shut down. -/
theorem stopping_after (w : World C) (ms : List (Move C)) :
    (w.after ms).stopping = true ↔ w.stopping = true ∨ .shutdown ∈ ms := by
  induction ms generalizing w with
  | nil => simp
  | cons m ms ih => rw [after_cons, ih, stopping_move, List.mem_cons, or_assoc, eq_comm (a := m)]

/-! ### Runs -/

/-- What comes of a run: closing all sessions then, and shutting the world down again and again. -/
structure Stopping (ms : List (Move C)) : Prop where
  /-- At every time the registered sessions are counted, and they are different ones. -/
  counted : ∀ pre post, ms = pre ++ post →
    (({} : World C).after pre).closeAll.1 = (({} : World C).after pre).registry.length ∧
    (({} : World C).after pre).shutdown.1 = (({} : World C).after pre).registry.length ∧
    ((({} : World C).after pre).registry.map (·.2)).Nodup
  /-- If applications use nothing but sockets it comes to an end. -/
  returns : ∀ m : Move C, m.isGeneral = true → (({} : World C).after ms).IsTame →
    ∃ n, ((({} : World C).after (ms ++ [m])).after (List.replicate n .step)).tasks =
      (({} : World C).after ms).tasks
  /-- When it comes to an end the registry is empty, and each session that was there is closed and
  told its carrier to go away and ran its farewell once. -/
  emptied : ∀ m : Move C, m.isGeneral = true → ∀ n,
    ((({} : World C).after (ms ++ [m])).after (List.replicate n .step)).tasks =
      (({} : World C).after ms).tasks →
    ((({} : World C).after (ms ++ [m])).after (List.replicate n .step)).registry = [] ∧
    ∀ e ∈ (({} : World C).after ms).registry, ∃ s s',
      (({} : World C).after ms).sessions[e.2]? = some s ∧
      ((({} : World C).after (ms ++ [m])).after (List.replicate n .step)).sessions[e.2]? =
        some s' ∧
      Dismissed e.2 (({} : World C).after (ms ++ [m])) n s s' ∧
      ((partings (turns e.2 {} (ms ++ m :: List.replicate n .step))).map (·.1)).Nodup
  /-- With farewells that use their own sockets, the sessions may be taken in any order. -/
  ordered : (∀ e ∈ (({} : World C).after ms).registry, (({} : World C).after ms).MindsItself e.2) →
    ∃ w', w'.tasks = (({} : World C).after ms).tasks ∧
      ∀ es : List (String × Nat), es.Perm (({} : World C).after ms).registry → ∃ n,
        ({ ({} : World C).after ms with
          tasks := es.map (fun e => .close e.2) ++ (({} : World C).after ms).tasks } :
          World C).after (List.replicate n .step) = w'
  /-- A call that comes after another one counts none of its sessions, and just those that were
  entered since and are not closed. -/
  later : ∀ pre mid mid' post, ms = pre ++ .shutdown :: (mid ++ mid') ++ .shutdown :: post →
    (({} : World C).after (pre ++ .shutdown :: mid)).tasks = (({} : World C).after pre).tasks →
    (∀ e ∈ (({} : World C).after (pre ++ .shutdown :: (mid ++ mid'))).registry,
      ∀ e' ∈ (({} : World C).after pre).registry, e.2 ≠ e'.2) ∧
    ∀ e, e ∈ (({} : World C).after (pre ++ .shutdown :: (mid ++ mid'))).registry ↔
      (∃ id timing onOpen peer held before after, mid ++ mid' = before ++
          .make id timing onOpen peer held true :: after ∧
        (({} : World C).after (pre ++ .shutdown :: before)).find? id = none ∧
        e = (id, (({} : World C).after (pre ++ .shutdown :: before)).sessions.length)) ∧
      ∃ s, (({} : World C).after (pre ++ .shutdown :: (mid ++ mid'))).sessions[e.2]? = some s ∧
        s.isClosed = false
  /-- The world is stopping from the first call on. -/
  stopping : (({} : World C).after ms).stopping = true ↔ .shutdown ∈ ms

/-- If applications use nothing but sockets, closing all sessions comes to an end. -/
theorem exists_back (hgen : m.isGeneral = true) (hw : w.IsTame) :
    ∃ n, ((w.move m).after (List.replicate n .step)).tasks = w.tasks := by
  obtain ⟨htasks, -, hsessions⟩ := move_general w hgen
  have htame : (w.move m).IsTame := by
    rw [IsTame, hsessions]
    exact hw
  have hcloses : ∀ t ∈ (w.registry.map (·.2)).map .close, Task.IsTame t := by
    intro t ht
    obtain ⟨k, -, rfl⟩ := List.mem_map.mp ht
    trivial
  obtain ⟨w', hends⟩ : ∃ w', Ends id (w.move m) w.tasks w' := exists_ends htame hcloses htasks
  obtain ⟨n, rfl⟩ := hends.runs.exists_after
  exact ⟨n, hends.tasks⟩

theorem mindful_general (hgen : m.isGeneral = true) (w : World C) : Mindful w [m] := by
  cases m with
  | closeAll | shutdown => exact ⟨trivial, trivial⟩
  | _ => cases hgen

/-- When it has come to an end the registry is empty, and each session went through its end once. -/
theorem emptied_of_back (hm : Mindful {} ms) (hgen : m.isGeneral = true) {n : Nat}
    (hback : ((({} : World C).after (ms ++ [m])).after (List.replicate n .step)).tasks =
      (({} : World C).after ms).tasks) :
    ((({} : World C).after (ms ++ [m])).after (List.replicate n .step)).registry = [] ∧
    ∀ e ∈ (({} : World C).after ms).registry, ∃ s s',
      (({} : World C).after ms).sessions[e.2]? = some s ∧
      ((({} : World C).after (ms ++ [m])).after (List.replicate n .step)).sessions[e.2]? =
        some s' ∧
      Dismissed e.2 (({} : World C).after (ms ++ [m])) n s s' ∧
      ((partings (turns e.2 {} (ms ++ m :: List.replicate n .step))).map (·.1)).Nodup := by
  have hall : Mindful {} (ms ++ [m]) :=
    (mindful_append _ _ _).mpr ⟨hm, mindful_general hgen _⟩
  obtain ⟨-, hregistry, hsessions⟩ := move_general (({} : World C).after ms) hgen
  have hmove : ({} : World C).after (ms ++ [m]) = (({} : World C).after ms).move m := by
    rw [after_append, after_cons, after_nil]
  have hclosed := closed_of_general hgen (entries_of_run hm) (hmove ▸ hback)
  rw [← hmove] at hclosed hregistry hsessions
  constructor
  -- an entry that is left would be of a session that is open
  · refine List.eq_nil_iff_forall_not_mem.mpr fun e he => ?_
    have hlater := entries_of_run ((mindful_append _ _ _).mpr ⟨hall, mindful_steps n _⟩)
    rw [after_append] at hlater
    obtain ⟨s, hs, -, hc⟩ := hlater.stand e he
    obtain ⟨s', hs', hc'⟩ := hclosed e (hregistry ▸ mem_registry_of_steps he)
    obtain rfl := Option.some.inj (hs.symm.trans hs')
    rw [hc'] at hc
    cases hc
  -- each session that was registered is dismissed
  · intro e he
    obtain ⟨s', hs', hc'⟩ := hclosed e he
    obtain ⟨s, hs, hdismissed⟩ := dismissed_of_closed hall (hregistry.symm ▸ he) hs' hc'
    refine ⟨s, s', hsessions ▸ hs, hs', hdismissed, ?_⟩
    have hsplit : ms ++ m :: List.replicate n .step = (ms ++ [m]) ++ List.replicate n .step := by
      simp
    have hfare := farewells_of_run (ms ++ m :: List.replicate n .step)
      (by rw [hsplit, after_append]; exact hs')
    exact hfare.nodup.sublist (hfare.once.map _)

/-- What is registered at a later call, and that nothing of it was at an earlier one. -/
theorem later_of_back {pre mid mid' : List (Move C)}
    (hm : Mindful {} (pre ++ .shutdown :: (mid ++ mid')))
    (hback : (({} : World C).after (pre ++ .shutdown :: mid)).tasks =
      (({} : World C).after pre).tasks) :
    ∀ e ∈ (({} : World C).after (pre ++ .shutdown :: (mid ++ mid'))).registry,
      ∀ e' ∈ (({} : World C).after pre).registry, e.2 ≠ e'.2 := by
  intro e he e' he' heq
  obtain ⟨s, hs, -, hc⟩ := (entries_of_run hm).stand e he
  have hmove (mid : List (Move C)) : ({} : World C).after (pre ++ .shutdown :: mid) =
      ((({} : World C).after pre).move .shutdown).after mid := by rw [after_append, after_cons]
  obtain ⟨s₁, hs₁, hc₁⟩ := closed_of_general (m := .shutdown) rfl
    (entries_of_run ((mindful_append _ _ _).mp hm).1) (hmove mid ▸ hback) e' he'
  -- it was closed when the first call was over, and is so still
  obtain ⟨s₂, hs₂, hc₂⟩ := session_after_of_kept (Q := fun s => s.isClosed = true)
    (fun _ now d hc => isClosed_does hc now d) hs₁ hc₁ mid'
  rw [← after_append, ← hmove, ← heq] at hs₂
  obtain rfl := Option.some.inj (hs.symm.trans hs₂)
  rw [hc₂] at hc
  cases hc

/-- **Closing all sessions, and shutting the world down again and again**, in every run. -/
theorem stopping_of_run {ms : List (Move C)} (hm : Mindful {} ms) : Stopping ms := by
  refine ⟨?counted, ?returns, ?emptied, ?ordered, ?later, ?stopping⟩
  case counted =>
    rintro pre post rfl
    exact ⟨rfl, rfl, (entries_of_run ((mindful_append _ _ _).mp hm).1).numbers⟩
  case returns =>
    intro m hgen htame
    rw [after_append, after_cons, after_nil]
    exact exists_back hgen htame
  case emptied =>
    intro m hgen n hback
    exact emptied_of_back hm hgen hback
  case ordered =>
    intro hown
    obtain ⟨w', htasks, hruns⟩ := exists_same_end (entries_of_run hm) hown
    refine ⟨w', htasks, fun es hes => ?_⟩
    obtain ⟨n, hn⟩ := (hruns es hes).exists_after
    exact ⟨n, hn.symm⟩
  case later =>
    rintro pre mid mid' post rfl hback
    have hmid := ((mindful_append _ _ _).mp hm).1
    have hdisjoint := later_of_back hmid hback
    refine ⟨hdisjoint, fun e => ?_⟩
    have hmove (mid : List (Move C)) : ({} : World C).after (pre ++ .shutdown :: mid) =
        ((({} : World C).after pre).move .shutdown).after mid := by rw [after_append, after_cons]
    constructor
    · intro he
      obtain ⟨s, hs, -, hc⟩ := (entries_of_run hmid).stand e he
      refine ⟨?_, s, hs, hc⟩
      rw [hmove] at he
      -- an entry that is there was made after the first of the two
      obtain ⟨id, timing, onOpen, peer, held, before, after, hsplit, hf, rfl⟩ :=
        exists_entering (w := (({} : World C).after pre).move .shutdown)
          (fun he₀ => hdisjoint e (hmove _ ▸ he) e he₀ rfl) he
      exact ⟨id, timing, onOpen, peer, held, before, after, hsplit, by rw [hmove]; exact hf,
        by rw [hmove]⟩
    -- and one that was made since is there while its session is open
    · rintro ⟨⟨id, timing, onOpen, peer, held, before, after, hsplit, hf, rfl⟩, s, hs, hc⟩
      have hsplit' : pre ++ .shutdown :: (mid ++ mid') =
          (pre ++ .shutdown :: before) ++ .make id timing onOpen peer held true :: after := by
        simp [hsplit]
      rw [hsplit'] at hmid hs ⊢
      obtain ⟨hbefore, -, hafter⟩ := (mindful_append _ _ _).mp hmid
      rw [after_append, after_cons] at hs ⊢
      exact mem_registry_of_entering (entries_of_run hbefore) hf hafter hs
        (isClosed_eq_false.mp hc).1
  case stopping =>
    simp [stopping_after]

/-- Two sessions, of which the first closes the other one in its farewell and writes to it.  The
world is shut down, a third session comes, and it is shut down again. -/
def stopped : List (Move Conduit) :=
  [.make "a" (.polling {})
      (fun k => .onClose k (.close 1 (.write 1 "late" fun _ => .done)) .done) none true true,
    .make "b" (.polling {}) (fun k => .onClose k (.note k (.parting "b") .done) .done) none
      true true,
    .register 0 (.queue {}), .step, .step, .register 1 (.queue {}), .step, .step,
    .shutdown, .step, .step, .step, .step, .step, .step, .step, .step,
    .make "c" (.polling {}) (fun _ => .done) none true true, .shutdown]

theorem stopping_of_stopped :
    Mindful {} stopped ∧
      (({} : World Conduit).after (stopped.take 8)).registry = [("a", 0), ("b", 1)] ∧
      (({} : World Conduit).after (stopped.take 8)).tasks.isEmpty = true ∧
      (({} : World Conduit).after (stopped.take 17)).tasks.isEmpty = true ∧
      (({} : World Conduit).after (stopped.take 18)).shutdown.1 = 1 ∧ Stopping stopped := by
  have hm : Mindful {} stopped := by
    simp only [stopped, Mindful, IsMindful, and_self]
  exact ⟨hm, by decide +kernel, by decide +kernel, by decide +kernel, by decide +kernel,
    stopping_of_run hm⟩

end Duplex.World
