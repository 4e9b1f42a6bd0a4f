/-
Duplex/Proofs/Session/Language.lean

The language of a session: which sequences of frames it hands over.

A session that opens says so to its first carrier.  From then on it hands over
heartbeats and batches of messages, in any order, until it closes; then the
attached carrier is told to go away, and so is every carrier that comes after.
A session that closes before it opens only ever says `goAway`.

`Session.Grammar` is this language, read off the turns of the session; it also
counts how often the application was told that the session opened.  One deed
keeps a session to its grammar (`Grammar.turn`), by the table of what a deed
hands over, one lemma for each phase.  The batches are described beside it: a
carrier that comes is handed the whole queue, and a message written to an
attached carrier goes out alone.  All of this rests on the queue being empty
while a carrier is attached, which is part of the stages of a session.
-/
import Duplex.Proofs.Session.Stages

namespace Duplex

variable {C : Type}

/-- A frame of an open session: a heartbeat, or a batch with something in it. -/
def Frame.IsOngoing : Frame → Prop
  | .heartbeat => True
  | .batch messages => messages ≠ []
  | .opening | .closing .. => False

namespace Session

/-! ### The grammar -/

/-- The carrier that comes at a turn, if one does. -/
def Turn.comer? (t : Turn C) : Option Nat := t.before.comer? t.deed

/-- The carriers that come at these turns, in order. -/
def arrivals (ts : List (Turn C)) : List Nat := ts.filterMap (·.comer?)

/-- What an open session has said: the opening to the first carrier, then heartbeats and
messages. -/
def Spoken (first : Option Nat) (fs : List (Nat × Frame)) : Prop :=
  ∃ n ongoing, first = some n ∧ fs = (n, .opening) :: ongoing ∧ ∀ f ∈ ongoing, f.2.IsOngoing

/-- Each of these carriers is told to go away. -/
def turnedAway (ns : List Nat) : List (Nat × Frame) := ns.map fun n => (n, .goAway)

/-- The language of a session with these turns, and how often the application was told of it. -/
def Grammar [Carrier C] (told : Nat) (ts : List (Turn C)) (s : Session C) : Prop :=
  match s.phase with
  | .fresh => told = 0 ∧ arrivals ts = [] ∧ s.handed = []
  | .live => told = 1 ∧ Spoken (arrivals ts).head? s.handed
  | .closed => ∃ pre t post, ts = pre ++ t :: post ∧ t.after.phase = .closed ∧
      (t.before.phase = .fresh ∧ told = 0 ∧ s.handed = turnedAway (arrivals post) ∨
        t.before.phase = .live ∧ told = 1 ∧ ∃ said, Spoken (arrivals ts).head? said ∧
          s.handed = said ++ turnedAway (t.before.attached.toList ++ arrivals post))

theorem arrivals_concat (ts : List (Turn C)) (t : Turn C) :
    arrivals (ts ++ [t]) = arrivals ts ++ t.comer?.toList := by
  rw [arrivals, List.filterMap_append]
  rcases h : t.comer? with - | n
  · simp [arrivals, h]
  · simp [arrivals, h]

/-- Once a carrier came, the first one stays the first. -/
theorem Spoken.concat {ts : List (Turn C)} {said : List (Nat × Frame)}
    (h : Spoken (arrivals ts).head? said) (t : Turn C) :
    Spoken (arrivals (ts ++ [t])).head? said := by
  obtain ⟨n, ongoing, hn, hs, ho⟩ := h
  obtain ⟨rest, hr⟩ := List.head?_eq_some_iff.mp hn
  exact ⟨n, ongoing, by rw [arrivals_concat, hr]; rfl, hs, ho⟩

theorem Spoken.append {first : Option Nat} {said more : List (Nat × Frame)}
    (h : Spoken first said) (hm : ∀ f ∈ more, f.2.IsOngoing) : Spoken first (said ++ more) := by
  obtain ⟨n, ongoing, hn, rfl, ho⟩ := h
  refine ⟨n, ongoing ++ more, hn, rfl, ?_⟩
  intro f hf
  exact (List.mem_append.mp hf).elim (ho f) (hm f)

theorem turnedAway_append (ns ms : List Nat) :
    turnedAway (ns ++ ms) = turnedAway ns ++ turnedAway ms := List.map_append

/-! ### What a deed hands over, phase by phase -/

theorem hands_of_detached {s : Session C} (ha : s.attached = none) (d : Deed C) :
    s.hands d = (s.comer? d).toList.flatMap s.greeting := by
  rcases hc : s.comer? d with - | n
  · cases d with
    | register carrier =>
      simp only [comer?] at hc
      split at hc
      · simp [hands, *]
      · cases hc
    | again n =>
      simp only [comer?] at hc
      split at hc
      · cases hc
      · simp only [hands]
        rw [if_neg (by assumption)]
        rfl
    | _ => simp [hands, ha]
  · rw [hands_of_comer hc, Option.toList_some, List.flatMap_cons, List.flatMap_nil, List.append_nil]

theorem comer?_of_gone {s : Session C} (hg : s.gone = true) (d : Deed C) : s.comer? d = none := by
  cases d with
  | register | again => simp [comer?, hg]
  | _ => rfl

/-- A session that is gone hands nothing over. -/
theorem Sound.hands_of_gone {s : Session C} (hs : s.Sound) (hg : s.gone = true) (d : Deed C) :
    s.hands d = [] := by
  cases d with
  | beat => simp [hands, hs.quiet hg]
  | register | again | write | depart => simp [hands, hg]
  | _ => rfl

/-- Only an open session has a carrier to hand something to. -/
theorem Sound.hands_of_not_live {s : Session C} (hs : s.Sound) (hp : s.phase ≠ .live)
    (d : Deed C) : s.hands d = (s.comer? d).toList.flatMap s.greeting := by
  rcases hg : s.gone with - | -
  -- at any stage but one there is no carrier attached
  · apply hands_of_detached
    rcases ha : s.attached with - | n
    · rfl
    · exact absurd ((hs.staged hg).holds_attached ha).1 hp
  · rw [hs.hands_of_gone hg, comer?_of_gone hg]
    rfl

theorem Sound.hands_of_fresh {s : Session C} (hs : s.Sound) (hp : s.phase = .fresh)
    (d : Deed C) : s.hands d = (s.comer? d).toList.map fun n => (n, .opening) := by
  rw [hs.hands_of_not_live (by simp [hp])]
  rcases s.comer? d with - | n
  · rfl
  · simp [greeting, hp]

theorem Sound.hands_of_closed {s : Session C} (hs : s.Sound) (hp : s.phase = .closed)
    (d : Deed C) : s.hands d = turnedAway (s.comer? d).toList := by
  rw [hs.hands_of_not_live (by simp [hp])]
  rcases s.comer? d with - | n
  · rfl
  · simp [greeting, hp, turnedAway]

/-- An open session that stays open hands over heartbeats and messages. -/
theorem ongoing_of_live {s : Session C} (hp : s.phase = .live) {d : Deed C}
    (hd : s.phaseAfter d = .live) : ∀ f ∈ s.hands d, f.2.IsOngoing := by
  intro f hf
  rcases mem_hands hf with ⟨n, -, hf⟩ | ⟨n, -, ⟨-, rfl⟩ | ⟨message, -, -, rfl⟩ | ⟨rfl, hg, -⟩⟩
  · simp only [greeting, hp] at hf
    split at hf
    · cases hf
    · rw [List.mem_singleton.mp hf]
      assumption
  · exact trivial
  · exact List.append_ne_nil_of_right_ne_nil _ (List.cons_ne_nil _ _)
  · simp [phaseAfter, hg] at hd

/-! ### One turn -/

variable [Carrier C]

theorem Turn.handed_after {t : Turn C} (hs : t.before.Sound) :
    t.after.handed = t.before.handed ++ t.before.hands t.deed :=
  handed_does hs.seated t.now t.deed

theorem Turn.phase_after (t : Turn C) : t.after.phase = t.before.phaseAfter t.deed :=
  phase_does t.now t.before t.deed

/-- A carrier that comes to a session that is not closed finds it open or opens it. -/
theorem Turn.live_of_comer {t : Turn C} {n : Nat} (hc : t.comer? = some n)
    (hp : t.before.phase ≠ .closed) : t.after.phase = .live := by
  rw [Turn.comer?] at hc
  rw [t.phase_after]
  obtain ⟨now, s, d⟩ := t
  cases d with
  | depart => cases hc
  | _ => simp [phaseAfter, hc, hp]

/-- Without a carrier that comes, a session stays in its phase or closes. -/
theorem Turn.phase_of_not_comer {t : Turn C} (hc : t.comer? = none) :
    t.after.phase = t.before.phase ∨
      (t.after.phase = .closed ∧ t.before.gone = false ∧ t.deed = .depart) := by
  rw [Turn.comer?] at hc
  rw [t.phase_after]
  obtain ⟨now, s, d⟩ := t
  cases d with
  | depart =>
    simp only [phaseAfter]
    split
    · exact .inl rfl
    · rename_i hg
      exact .inr ⟨rfl, by simpa using hg, trivial⟩
  | _ => exact .inl (by simp [phaseAfter, hc])

theorem Turn.opens_eq (t : Turn C) :
    t.opens = (t.before.phase == .fresh && t.comer?.isSome) := by
  rw [Bool.eq_iff_iff, Turn.opens_iff]
  simp [Turn.comer?]

/-- How often the application is told of the session up to a turn. -/
def told (ts : List (Turn C)) : Nat := ts.countP (·.opens)

theorem told_concat (ts : List (Turn C)) (t : Turn C) :
    told (ts ++ [t]) = told ts + if t.opens then 1 else 0 := by
  rw [told, List.countP_append, List.countP_singleton]
  rfl

variable {ts : List (Turn C)} {t : Turn C}

theorem Grammar.turn_fresh (hs : t.before.Sound) (hp : t.before.phase = .fresh)
    (h : Grammar (told ts) ts t.before) : Grammar (told (ts ++ [t])) (ts ++ [t]) t.after := by
  have hh := t.handed_after hs
  simp only [Grammar, hp] at h
  obtain ⟨h0, harr, hnil⟩ := h
  rw [hs.hands_of_fresh hp, hnil, List.nil_append] at hh
  rw [told_concat, h0, t.opens_eq, hp]
  rcases hc : t.comer? with - | n
  -- nobody comes: it stays fresh, or closes without a word
  · rw [show t.before.comer? t.deed = none from hc] at hh
    rcases t.phase_of_not_comer hc with hp' | ⟨hp', -, hd⟩
    · simp only [Grammar, hp', hp, arrivals_concat, harr, hc]
      exact ⟨rfl, rfl, hh⟩
    · simp only [Grammar, hp']
      exact ⟨ts, t, [], rfl, hp', .inl ⟨hp, rfl, hh⟩⟩
  -- the first carrier comes, and the session opens
  · rw [show t.before.comer? t.deed = some n from hc] at hh
    simp only [Grammar, t.live_of_comer hc (by simp [hp]), arrivals_concat, harr, hc]
    exact ⟨rfl, n, [], rfl, hh, by simp⟩

theorem Grammar.turn_live (hs : t.before.Sound) (hp : t.before.phase = .live)
    (h : Grammar (told ts) ts t.before) : Grammar (told (ts ++ [t])) (ts ++ [t]) t.after := by
  have hh := t.handed_after hs
  simp only [Grammar, hp] at h
  obtain ⟨h1, hsaid⟩ := h
  have ht : told (ts ++ [t]) = 1 := by
    rw [told_concat, h1, t.opens_eq, hp]
    rfl
  -- while the session lives on, what it says is added to what it said
  have goes : t.after.phase = .live →
      Grammar (told (ts ++ [t])) (ts ++ [t]) t.after := by
    intro hp'
    have ho := ongoing_of_live hp (t.phase_after.symm.trans hp')
    simp only [Grammar, hp']
    rw [hh]
    exact ⟨ht, (hsaid.concat t).append ho⟩
  rcases hc : t.comer? with - | n
  · rcases t.phase_of_not_comer hc with hp' | ⟨hp', hg, hd⟩
    · exact goes (hp'.trans hp)
    -- it closes here: what was said stays, and the attached carrier is told
    · simp only [Grammar, hp']
      refine ⟨ts, t, [], rfl, hp', .inr ⟨hp, ht, t.before.handed, hsaid.concat t, ?_⟩⟩
      rw [hh, hd, hands, if_neg (by simp [hg, hp])]
      simp [turnedAway, arrivals]
  · exact goes (t.live_of_comer hc (by simp [hp]))

theorem Grammar.turn_closed (hs : t.before.Sound) (hp : t.before.phase = .closed)
    (h : Grammar (told ts) ts t.before) : Grammar (told (ts ++ [t])) (ts ++ [t]) t.after := by
  have hh := t.handed_after hs
  rw [hs.hands_of_closed hp] at hh
  have hp' : t.after.phase = .closed := closed_does hp t.now t.deed
  have ht : told (ts ++ [t]) = told ts := by
    rw [told_concat, t.opens_eq, hp]
    rfl
  simp only [Grammar, hp] at h
  obtain ⟨pre, t', post, he, hc, h⟩ := h
  simp only [Grammar, hp']
  refine ⟨pre, t', post ++ [t], by rw [he]; simp, hc, ?_⟩
  rw [ht, arrivals_concat]
  -- whichever way it closed, a carrier that comes now is turned away behind the others
  rcases h with ⟨hf, h0, hsaid⟩ | ⟨hl, h1, said, hsaid, hall⟩
  · refine .inl ⟨hf, h0, ?_⟩
    rw [hh, hsaid, turnedAway_append]
    rfl
  · refine .inr ⟨hl, h1, said, hsaid.concat t, ?_⟩
    rw [hh, hall, ← List.append_assoc _ _ t.comer?.toList, turnedAway_append _ t.comer?.toList,
      List.append_assoc]
    rfl

/-- **A turn keeps a session to its grammar.** -/
theorem Grammar.turn (hs : t.before.Sound) (h : Grammar (told ts) ts t.before) :
    Grammar (told (ts ++ [t])) (ts ++ [t]) t.after := by
  rcases hp : t.before.phase
  · exact h.turn_fresh hs hp
  · exact h.turn_live hs hp
  · exact h.turn_closed hs hp

/-! ### Batches -/

/-- A carrier that comes to an open session is handed the whole queue, if there is one. -/
theorem Turn.handed_of_comer (hs : t.before.Sound) (hp : t.before.phase = .live) {n : Nat}
    (hc : t.comer? = some n) :
    t.after.handed = t.before.handed ++
      if t.before.outbound = [] then [] else [(n, .batch t.before.outbound)] := by
  rw [t.handed_after hs, hands_of_comer hc, greeting, hp]

/-- A message written to an attached carrier goes out alone. -/
theorem Turn.handed_of_write (hs : t.before.Sound) (hg : t.before.gone = false) {n : Nat}
    (ha : t.before.attached = some n) {message : String} (hd : t.deed = .write message) :
    t.after.handed = t.before.handed ++ [(n, .batch [message])] := by
  obtain ⟨hp, -, -, -, ho⟩ := (hs.staged hg).holds_attached ha
  rw [t.handed_after hs, hd, hands, if_neg (by simp [hg, hp]), ha, ho]
  rfl

/-- A message written while no carrier is attached waits behind the others. -/
theorem Turn.outbound_of_write (hg : t.before.gone = false) (hp : t.before.phase ≠ .closed)
    (ha : t.before.attached = none) {message : String} (hd : t.deed = .write message) :
    t.after.outbound = t.before.outbound ++ [message] ∧ t.after.handed = t.before.handed := by
  have h : t.after = t.before.enqueue t.now message := by
    rw [Turn.after, hd]
    simp [Session.does, hg, write_of_detached hp ha]
  rw [h]
  exact ⟨rfl, handed_enqueue t.now message t.before⟩

theorem Spoken.ne_batch_nil {first : Option Nat} {said : List (Nat × Frame)}
    (h : Spoken first said) : ∀ f ∈ said, f.2 ≠ .batch [] := by
  obtain ⟨n, ongoing, -, rfl, ho⟩ := h
  intro f hf he
  rcases List.mem_cons.mp hf with rfl | hf
  · cases he
  · have := ho f hf
    rw [he] at this
    exact this rfl

omit [Carrier C] in
theorem ne_batch_nil_of_turnedAway {ns : List Nat} : ∀ f ∈ turnedAway ns, f.2 ≠ .batch [] := by
  intro f hf
  obtain ⟨n, -, rfl⟩ := List.mem_map.mp hf
  rintro ⟨⟩

/-- No batch is empty. -/
theorem Grammar.ne_batch_nil {told : Nat} {s : Session C} (h : Grammar told ts s) :
    ∀ f ∈ s.handed, f.2 ≠ .batch [] := by
  unfold Grammar at h
  split at h
  · simp [h.2.2]
  · exact h.2.ne_batch_nil
  · obtain ⟨_, _, _, -, -, ⟨-, -, hh⟩ | ⟨-, -, said, hsaid, hh⟩⟩ := h
    · rw [hh]
      exact ne_batch_nil_of_turnedAway
    · rw [hh]
      intro f hf
      exact (List.mem_append.mp hf).elim (hsaid.ne_batch_nil f) (ne_batch_nil_of_turnedAway f)

end Session

/-! ### Runs -/

namespace World

open Session

variable [Carrier C]

theorem grammar_of_run {ms : List (Move C)} (he : Entitled {} ms) {k : Nat} {s : Session C}
    (hs : (({} : World C).after ms).sessions[k]? = some s) :
    Grammar ((({} : World C).after ms).sockets.count k) (turns k {} ms) s := by
  rw [count_sockets]
  have hsound : ∀ t ∈ turns k {} ms, t.before.Sound := by
    intro t ht
    exact sound_of_turn he ht
  refine session_run_of_turns (P := fun ts s => Grammar (told ts) ts s) ?_ ?_ ms hsound hs
  · intro s hnew
    obtain ⟨_, _, _, _, _, rfl⟩ := hnew
    exact ⟨rfl, rfl, rfl⟩
  · intro ts t hbefore h
    exact h.turn hbefore

/-- A move tells the application of a session when it opens it, and then just the opening was
handed over. -/
theorem opening_of_told {pre : List (Move C)} {m : Move C} (he : Entitled {} pre) (k : Nat) :
    let w := ({} : World C).after pre
    (w.move m).sockets.count k = w.sockets.count k ∨
      ∃ s s' n, w.sessions[k]? = some s ∧ s.phase = .fresh ∧
        (w.move m).sessions[k]? = some s' ∧ s'.handed = [(n, .opening)] ∧
        (w.move m).sockets = w.sockets ++ [k] ∧
        (w.move m).tasks = .act (s.onOpen k) :: w.tasks := by
  intro w
  rcases sockets_move w m with ⟨h, -⟩ | ⟨j, t, hj, ho, h, htasks⟩
  · exact .inl (by rw [h])
  by_cases hk : j = k
  -- the move is a turn of this session, which hands the opening frame to its first carrier
  · subst hk
    have ht : t ∈ turnOf j w m := hj ▸ List.mem_singleton_self t
    obtain ⟨hsession, -, -⟩ := mem_turnOf.mp ht
    obtain ⟨hf, hc⟩ := Turn.opens_iff.mp ho
    obtain ⟨n, hc⟩ := Option.isSome_iff_exists.mp hc
    have hsound := sound_of_run he hsession
    have hg := grammar_of_run he hsession
    simp only [Grammar, hf] at hg
    refine .inr ⟨t.before, t.after, n, hsession, hf, session_of_turn ht, ?_, h, htasks⟩
    rw [t.handed_after hsound, hsound.hands_of_fresh hf, hc, hg.2.2]
    rfl
  -- the socket given is that of another session
  · refine .inl ?_
    rw [h, List.count_append, List.count_singleton]
    simp [hk]

/-- What session `s`, the `k`th one of a run, hands over, and when its application is told of it. -/
structure Language (k : Nat) (ms : List (Move C)) (s : Session C) : Prop where
  /-- The frames are in the grammar, and the application was told as often as that says. -/
  grammar : Grammar ((({} : World C).after ms).sockets.count k) (turns k {} ms) s
  /-- It is told in the move that opens the session, and then just the opening was handed over. -/
  told : ∀ pre m post, ms = pre ++ m :: post →
    let w := ({} : World C).after pre
    (w.move m).sockets.count k = w.sockets.count k ∨
      ∃ s s' n, w.sessions[k]? = some s ∧ s.phase = .fresh ∧
        (w.move m).sessions[k]? = some s' ∧ s'.handed = [(n, .opening)] ∧
        (w.move m).sockets = w.sockets ++ [k] ∧
        (w.move m).tasks = .act (s.onOpen k) :: w.tasks
  /-- A carrier that comes to the open session is handed the whole queue, if there is one. -/
  comer : ∀ t ∈ turns k {} ms, t.before.phase = .live → ∀ n, t.comer? = some n →
    t.after.handed = t.before.handed ++
      if t.before.outbound = [] then [] else [(n, .batch t.before.outbound)]
  /-- A message written while a carrier is attached is handed to it alone. -/
  written : ∀ t ∈ turns k {} ms, t.before.gone = false → ∀ message, t.deed = .write message →
    ∀ n, t.before.attached = some n → t.after.handed = t.before.handed ++ [(n, .batch [message])]
  /-- A message written while no carrier is attached goes to the end of the queue. -/
  queued : ∀ t ∈ turns k {} ms, t.before.gone = false → t.before.phase ≠ .closed →
    ∀ message, t.deed = .write message → t.before.attached = none →
    t.after.outbound = t.before.outbound ++ [message] ∧ t.after.handed = t.before.handed
  /-- No batch is empty. -/
  batch : ∀ f ∈ s.frames, f ≠ .batch []

/-- **The language of a session.**  In every run in which only sockets are written to, with
carriers of any kind, every session keeps to its language. -/
theorem language_of_run {ms : List (Move C)} (he : Entitled {} ms) {k : Nat} {s : Session C}
    (hs : (({} : World C).after ms).sessions[k]? = some s) : Language k ms s := by
  have hg : Grammar ((({} : World C).after ms).sockets.count k) (turns k {} ms) s :=
    grammar_of_run he hs
  refine ⟨hg, ?told, ?comer, ?written, ?queued, ?batch⟩
  case told =>
    intro pre m post hms
    rw [hms] at he
    exact opening_of_told (entitled_of_append he) k
  case comer =>
    intro t ht hp n hc
    exact t.handed_of_comer (sound_of_turn he ht) hp hc
  case written =>
    intro t ht hgone message hd n ha
    exact t.handed_of_write (sound_of_turn he ht) hgone ha hd
  case queued =>
    intro t _ hgone hp message hd ha
    exact t.outbound_of_write hgone hp ha hd
  -- the grammar has no empty batch
  case batch =>
    intro f hf
    obtain ⟨nf, hnf, rfl⟩ := List.mem_map.mp hf
    exact hg.ne_batch_nil nf hnf

/-- A session is polled and written to, the message waits for a stream, one more is written to the
stream, which hears a heartbeat, and the session closes; a poll comes late. -/
def visited : List (Move Conduit) :=
  [.make "s" (.polling {}) (fun k => .write k "hello" fun _ => .done) none true true,
    .register 0 (.stream { framing := .poll }), .step, .step,
    .register 0 (.stream { framing := .events 131072 }),
    .call (.write 0 "again" fun _ => .done), .step, .step,
    .pass 25000, .elapse 0, .close 0, .step,
    .register 0 (.stream { framing := .poll })]

theorem entitled_visited : Entitled {} visited := by
  refine ⟨trivial, trivial, ?_, ?_, trivial, trivial, ?_, ?_, trivial, trivial, trivial, ?_,
    trivial, trivial⟩
  -- two programs write, and both to the socket that was given
  · rintro k message next rest ⟨⟩
    exact List.mem_singleton_self 0
  · rintro k message next rest ⟨⟩
  · rintro k message next rest ⟨⟩
    exact List.mem_singleton_self 0
  · rintro k message next rest ⟨⟩
  · rintro k message next rest ⟨⟩

theorem language_of_visited :
    ∃ s, (({} : World Conduit).after visited).sessions[0]? = some s ∧
      s.frames = [.opening, .batch ["hello"], .batch ["again"], .heartbeat, .goAway, .goAway] ∧
        Language 0 visited s := by
  have h : ((({} : World Conduit).after visited).sessions[0]?).map (·.frames) =
      some [.opening, .batch ["hello"], .batch ["again"], .heartbeat, .goAway, .goAway] := by
    decide +kernel
  obtain ⟨s, hs, hframes⟩ := Option.map_eq_some_iff.mp h
  exact ⟨s, hs, hframes, language_of_run entitled_visited hs⟩

end World

end Duplex
