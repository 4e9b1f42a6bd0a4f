/-
Duplex/Proofs/Server/Following.lean

What is heard of a client, act by act.

While an application attends to its session, a link that listens brings in the
messages of what its client says (`Act.Does.taken`), and nothing else brings
anything in (`taken_world`).  So the messages that were taken in are those
accepted of what was said (`Follows.act`), and when the last is heard, all of
them were given out already.
-/
import Duplex.Proofs.Server.Attending

namespace Duplex

open Session (Deed given taken)
open World (turns turnOf takenIn along Attends)

/-! ### What an act brings in -/

section Taking

variable {k : Nat} {w : World Conduit} {m : Move Conduit}

/-- The move may have a payload for a session. -/
def Move.carries : Move Conduit → Bool
  | .feed .. | .step => true
  | _ => false

theorem World.takenIn_of_none (h : World.payload? k w m = none) : takenIn k w m = [] := by
  unfold World.takenIn
  split
  · rename_i h'
    cases h.symm.trans h'
  · rfl

/-- Other moves bring nothing in. -/
theorem World.taken_of_silent {ms : List (Move Conduit)} (h : ∀ m ∈ ms, m.carries = false) :
    taken (turns k w ms) = [] := by
  rw [← World.along_takenIn]
  refine List.eq_nil_iff_forall_not_mem.mpr fun message hm => ?_
  obtain ⟨pre, m, post, rfl, hmem⟩ := (World.mem_along _).mp hm
  have hcarries := h m (List.mem_append_right _ List.mem_cons_self)
  have hnone : World.payload? k (w.after pre) m = none := by
    cases m with
    | feed | step => cases hcarries
    | _ => rfl
  rw [World.takenIn_of_none hnone] at hmem
  cases hmem

theorem Link.IsOwn.silent {l : Link} (h : l.IsOwn m) : m.carries = false := by
  rcases h with ⟨_, rfl⟩ | rfl | rfl
  · rfl
  · rfl
  · rfl

theorem Link.silent_leaving (w : World Conduit) (l : Link) :
    ∀ m ∈ l.leaving w, m.carries = false := fun m hm => (l.isOwn_leaving w m hm).silent

theorem Link.silent_pumping (w : World Conduit) (l : Link) :
    ∀ m ∈ l.pumping w, m.carries = false := fun m hm => (l.isOwn_pumping w m hm).silent

theorem World.taken_singleton (k : Nat) (w : World Conduit) (m : Move Conduit) :
    taken (turns k w [m]) = takenIn k w m := by
  rw [← World.along_takenIn]
  exact List.append_nil _

/-- **A link takes in the messages of what its client says**, as long as it hears it. -/
theorem Act.Does.taken {l l' : Link} {ms : List (Move Conduit)} {a : Act} {s : Session Conduit}
    (h : a.Does w l ms l') (hears : ¬ l.IsDeaf) (hattends : Attends l.session w s)
    (ha : ∀ m, a ≠ .world m) : Session.taken (turns l.session w ms) =
      a.voice?.toList.flatMap fun m => if m.isLast then [] else m.messages := by
  have hc : s.isClosed = false := Session.isClosed_eq_false.mpr ⟨hattends.phase, hattends.gone⟩
  cases h with
  | world m => exact absurd rfl (ha m)
  | deaf _ deaf => exact absurd deaf hears
  | gone left => exact absurd (.inl left) hears
  | rests => rfl
  | idle _ idle =>
    simp [Act.voice?, ClientMessage.messages_of_isIdle idle]
    rfl
  | answers data fits =>
    simp [Act.voice?, ClientMessage.messages]
    rfl
  -- a session that attends is not closed
  | late value closed => simp [World.view, hattends.here, Session.view, hc] at closed
  -- one message comes in, and the payload that is read is what it says
  | takes value full shaped messages read =>
    have hmessages : (ClientMessage.text value).messages = messages := by
      simp only [ClientMessage.messages, full, read]
      rfl
    rw [World.taken_singleton]
    simp [World.takenIn, World.payload?, Act.voice?, ClientMessage.isLast, hmessages, shaped, read,
      hattends.here, hc]
  | refuses value full _ shaped unread =>
    rw [World.taken_singleton]
    simp [World.takenIn, World.payload?, Act.voice?, ClientMessage.isLast, full, unread,
      hattends.here]
  | rejects value full misshapen =>
    rw [World.taken_of_silent (by simp [Move.carries])]
    simp [Act.voice?, ClientMessage.isLast, full, misshapen]
  -- from here on nothing that comes is taken in
  | ends _ last =>
    rw [World.taken_of_silent (Link.silent_leaving w l)]
    simp [Act.voice?, last]
  | abandons | dismisses => exact World.taken_of_silent (Link.silent_leaving w l)
  | stops | flushes => exact World.taken_of_silent (by simp [Move.carries])

end Taking

/-! ### Mild acts -/

/-- The server is not shut down, and the application neither holds back the messages of the session,
nor closes it, nor feeds it. -/
def Talk.IsMild (c : Talk) (a : Act) : Prop :=
  c.1.stopping = false ∧
    ∀ p rest, a = .world .step → c.1.tasks = .act p :: rest → p.meddles c.2.session = false

namespace Talk

variable {w : World Conduit} {l : Link} {q : MessageQueue} {s : Session Conduit}

/-- A mild move of the world brings nothing in. -/
theorem taken_world {m : Move Conduit} (hspares : m.spares l.session = true)
    (hmild : Talk.IsMild (w, l) (.world m)) : taken (turns l.session w [m]) = [] := by
  rw [World.taken_singleton]
  refine World.takenIn_of_none ?_
  cases m with
  | feed j payload =>
    have hj : j ≠ l.session := by simpa [Move.spares] using hspares
    exact if_neg hj
  | step =>
    rcases ht : w.tasks with - | ⟨t, rest⟩
    · simp [World.payload?, ht]
    cases t with
    | act p =>
      cases p with
      | feed j payload next =>
        have hj : j ≠ l.session := by simpa [Program.meddles] using hmild.2 _ rest rfl ht
        simp [World.payload?, ht, hj]
      | _ => simp [World.payload?, ht]
    | _ => simp [World.payload?, ht]
  | _ => rfl

/-- A session that is attended to remains so with mild moves of the world. -/
theorem attends_world {m : Move Conduit} (joined : s.Joined l q) (hwound : s.Wound)
    (unlisted : ∀ e ∈ w.registry, e.2 ≠ l.session) (hproper : Talk.IsProper (w, l) (.world m))
    (hmild : Talk.IsMild (w, l) (.world m)) (h : Attends l.session w s) :
    ∃ s', Attends l.session (w.move m) s' := by
  obtain ⟨htimely, hmindful, hspares⟩ := hproper
  obtain ⟨-, hmeddles⟩ := hmild
  -- nothing that the world does asks the session to close
  have hasks : ¬ m.Asks l.session w := by
    cases m with
    | close j =>
      rintro rfl
      simp [Move.spares] at hspares
    | feed j payload =>
      rintro ⟨rfl, -⟩
      simp [Move.spares] at hspares
    -- an attached session is due a beat, so its deadline is not what elapses
    | elapse j =>
      rintro ⟨rfl, hbeat⟩
      obtain ⟨-, s', hs', hdue⟩ := htimely
      obtain rfl := Option.some.inj (h.here.symm.trans hs')
      have hdeadline : s.deadline = none := hwound.waiting (by rw [joined.attached h.phase]; rfl)
      have hbeat : s.nextBeat = none := by simpa [h.here] using hbeat
      simp [Session.due?, hbeat, hdeadline] at hdue
    | closeAll | shutdown =>
      rintro ⟨id, he⟩
      exact unlisted _ he rfl
    | step =>
      rintro ⟨p, rest, ht, hp⟩
      have hmeddles := hmeddles p rest rfl ht
      cases p with
      | close j =>
        have hj : j = l.session := hp
        simp [Program.meddles, hj] at hmeddles
      | feed => simp [Program.meddles, hp.1] at hmeddles
      | _ => cases hp
    | _ => exact id
  -- a session that the link holds is kept
  have hforget : m ≠ .forget l.session := by
    rintro rfl
    have hkept := hmindful s h.here
    simp [World.isKept, joined.held] at hkept
  have hpause (next : Program) (rest : List Task) (hm : m = .step) :
      w.tasks ≠ .act (.pause l.session next) :: rest := fun ht => by
    simpa [Program.meddles] using hmeddles _ rest (congrArg Act.world hm) ht
  exact h.move hasks hforget hpause

/-- A session that is attended to remains so, and is heard, until the last was heard, or the server
is shut down. -/
theorem attends_does {a : Act} {ms : List (Move Conduit)} {l' : Link} (hdoes : a.Does w l ms l')
    (isOpen : l.isOpen = true) (listens : l.listens = true) (place : l.place = 0)
    (joined : s.Joined l q) (h : Attends l.session w s) (running : w.stopping = false)
    (ha : ∀ m, a ≠ .world m) (hvoice : ∀ m, a.voice? = some m → m.isLast = false) :
    l'.isOpen = true ∧ l'.listens = true ∧ ∃ s', Attends l.session (w.after ms) s' := by
  cases hdoes with
  | world m => exact absurd rfl (ha m)
  | deaf | idle | answers | rests => exact ⟨isOpen, listens, s, h⟩
  | late value closed =>
    simp [World.view, h.here, Session.view, Session.isClosed, h.phase, h.gone] at closed
  | takes value full shaped messages read =>
    refine ⟨isOpen, listens, h.move (m := .feed l.session value) ?_ (by simp) (by simp)⟩
    rintro ⟨-, hnone⟩
    cases hnone.symm.trans read
  | flushes =>
    exact ⟨isOpen, listens, h.move (m := .stir l.session l.place _) id (by simp) (by simp)⟩
  -- the last was heard
  | refuses value full _ shaped unread =>
    simpa [ClientMessage.isLast, full, unread] using hvoice _ rfl
  | rejects value full misshapen =>
    simpa [ClientMessage.isLast, full, misshapen] using hvoice _ rfl
  | ends _ last => cases last.symm.trans (hvoice _ rfl)
  | gone | abandons => cases hvoice .close rfl
  -- the server is shut down, or the session is closed
  | stops stopping => cases running.symm.trans stopping
  | dismisses q' queue _ writable =>
    obtain rfl := Option.some.inj ((queue?_of_joined h.here place joined).symm.trans queue)
    cases (joined.writable.mpr h.phase).symm.trans writable

/-! ### What is heard, act by act -/

/-- What is heard in the run `ms` that led to `c`, of a client that said these words. -/
structure Follows (ms : List (Move Conduit)) (c : Talk) (words : List ClientMessage) : Prop where
  run : c.1 = ({} : World Conduit).after ms
  took : taken (turns c.2.session {} ms) = accepted words
  attends : words.any (·.isLast) = false →
    c.2.isOpen = true ∧ c.2.listens = true ∧ ∃ s, Attends c.2.session c.1 s
  gave : words.any (·.isLast) = true → c.2.IsDeaf ∧
    (given (turns c.2.session {} ms)).map (·.1) = taken (turns c.2.session {} ms)

theorem taken_append (k : Nat) (ms ms' : List (Move Conduit)) :
    taken (turns k {} (ms ++ ms')) =
      taken (turns k {} ms) ++ taken (turns k (({} : World Conduit).after ms) ms') := by
  rw [World.turns_append, taken, List.flatMap_append]
  rfl

variable {ms : List (Move Conduit)} {c : Talk} {words : List ClientMessage} {a : Act}

/-- Nothing is heard any more. -/
theorem Follows.act_of_last (h : Follows ms c words) (hlast : words.any (·.isLast) = true)
    (hs : (c.act a).1.sessions[c.2.session]? = some s) (hproper : c.IsProper a)
    (hmild : c.IsMild a) :
    Follows (ms ++ c.movesOf a) (c.act a) (words ++ a.voice?.toList) := by
  obtain ⟨hdeaf, hgiven⟩ := h.gave hlast
  have hrun : (c.act a).1 = ({} : World Conduit).after (ms ++ c.movesOf a) := by
    rw [fst_act, World.after_append, h.run]
  -- nothing is taken in any more, whatever the act is
  have htaken : taken (turns c.2.session c.1 (c.movesOf a)) = [] := by
    cases a with
    | world m => exact taken_world hproper.2.2 hmild
    | hear m =>
      rw [movesOf_of_deaf hdeaf]
      rfl
    | abandon =>
      rw [movesOf]
      split
      · exact World.taken_of_silent (Link.silent_leaving c.1 c.2)
      · rfl
    | pump => exact World.taken_of_silent (Link.silent_pumping c.1 c.2)
  have hlast' : (words ++ a.voice?.toList).any (·.isLast) = true := by simp [hlast]
  rw [h.run] at htaken
  rw [hrun] at hs
  refine ⟨hrun, ?_, fun hn => ?_, fun _ => ⟨deaf_act hdeaf a, ?_⟩⟩
  · rw [session_act, taken_append, htaken, List.append_nil, accepted_of_last hlast, h.took]
  · cases hn.symm.trans hlast'
  · rw [session_act]
    exact World.given_of_taken hs hgiven htaken

/-- All was heard so far, and this may be the last. -/
theorem Follows.act_of_first (h : Follows ms c words) (hfirst : words.any (·.isLast) = false)
    (hs : (c.act a).1.sessions[c.2.session]? = some s) (hstands : Stands c.1 c.2)
    (unlisted : ∀ e ∈ c.1.registry, e.2 ≠ c.2.session) (hproper : c.IsProper a)
    (hmild : c.IsMild a) :
    Follows (ms ++ c.movesOf a) (c.act a) (words ++ a.voice?.toList) := by
  obtain ⟨hopen, hlistens, s₀, hattends⟩ := h.attends hfirst
  have hears : ¬ c.2.IsDeaf := by
    rintro (ho | hl)
    · cases ho.symm.trans hopen
    · cases hl.symm.trans hlistens
  have hrun : (c.act a).1 = ({} : World Conduit).after (ms ++ c.movesOf a) := by
    rw [fst_act, World.after_append, h.run]
  -- what is taken in is what the act says, unless it is the last thing said
  have htaken : taken (turns c.2.session c.1 (c.movesOf a)) =
      a.voice?.toList.flatMap fun m => if m.isLast then [] else m.messages := by
    by_cases ha : ∃ m, a = .world m
    · obtain ⟨m, rfl⟩ := ha
      exact taken_world hproper.2.2 hmild
    · exact (does_act c a).taken hears hattends fun m he => ha ⟨m, he⟩
  refine ⟨hrun, ?_, fun hl => ?_, fun hl => ?_⟩
  · rw [session_act, taken_append, ← h.run, htaken, h.took]
    rcases hv : a.voice? with - | m
    · simp
    · simp [accepted_concat hfirst]
  · have hvoice (m : ClientMessage) (hm : a.voice? = some m) : m.isLast = false := by
      simpa [hm, hfirst] using hl
    rw [session_act, fst_act]
    cases hstands with
    | left _ _ isOpen => cases isOpen.symm.trans hopen
    | joined s' q here _ place joined =>
      obtain rfl := Option.some.inj (here.symm.trans hattends.here)
      by_cases ha : ∃ m, a = .world m
      · obtain ⟨m, rfl⟩ := ha
        have hwound : s'.Wound := World.wound_of_run ms (h.run ▸ here)
        exact ⟨hopen, hlistens, attends_world joined hwound unlisted hproper hmild hattends⟩
      · exact attends_does (does_act c a) hopen hlistens place joined hattends hmild.1
          (fun m he => ha ⟨m, he⟩) hvoice
  -- the act says the last thing: it is not taken, and the link is deaf after it
  · obtain ⟨m, hv, hm⟩ : ∃ m, a.voice? = some m ∧ m.isLast = true := by simpa [hfirst] using hl
    have hnone : taken (turns c.2.session c.1 (c.movesOf a)) = [] := by simp [htaken, hv, hm]
    have hgiven := World.given_of_attends (h.run ▸ hattends) (h.run ▸ hproper.tasks hv)
    refine ⟨deaf_of_last hv hm, ?_⟩
    rw [session_act]
    exact World.given_of_taken (hrun ▸ hs) hgiven (h.run ▸ hnone)

/-- **What is heard is what was said before the last**, act by act. -/
theorem Follows.act (h : Follows ms c words) (hstands : Stands c.1 c.2)
    (unlisted : ∀ e ∈ c.1.registry, e.2 ≠ c.2.session) (hproper : c.IsProper a)
    (hmild : c.IsMild a) :
    Follows (ms ++ c.movesOf a) (c.act a) (words ++ a.voice?.toList) := by
  obtain ⟨s, hs⟩ : ∃ s, (c.act a).1.sessions[c.2.session]? = some s := by
    rw [← session_act c a]
    exact (hstands.act ⟨ms, h.run⟩ hproper).session
  rcases hlast : words.any (·.isLast) with - | -
  · exact h.act_of_first hlast hs hstands unlisted hproper hmild
  · exact h.act_of_last hlast hs hproper hmild

/-- What is heard is what was said before the last. -/
theorem Follows.after {acts : List Act} (h : Follows ms c words)
    (hstands : Stands c.1 c.2) (unlisted : ∀ e ∈ c.1.registry, e.2 ≠ c.2.session)
    (hproper : c.Proper acts) (hmild : c.Always IsMild acts) :
    Follows (ms ++ c.moves acts) (c.after acts) (words ++ said acts) := by
  induction acts generalizing c ms words with
  | nil => simpa [said, moves, Talk.after] using h
  | cons a acts ih =>
    have hact := h.act hstands unlisted hproper.1 hmild.1
    have unlisted' : ∀ e ∈ (c.act a).1.registry, e.2 ≠ (c.act a).2.session := by
      obtain ⟨s, hs⟩ := hstands.session
      rw [session_act, fst_act]
      exact World.not_entered_after hs unlisted _
    have hafter := ih hact (hstands.act ⟨ms, h.run⟩ hproper.1) unlisted' hproper.2 hmild.2
    rw [List.append_assoc, List.append_assoc] at hafter
    have hsaid : said (a :: acts) = a.voice?.toList ++ said acts := by
      rcases hv : a.voice? with - | m
      · simp [said, hv]
      · simp [said, hv]
    rw [hsaid]
    exact hafter

end Talk

end Duplex
