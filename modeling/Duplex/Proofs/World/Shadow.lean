/-
Duplex/Proofs/World/Shadow.lean

What a world shows of one of its sessions.

The *shadow* of a world at session `k` is a world with that session alone: its
entry, what waits to be done for it, and the same time.  There it has number
zero, and turns are not counted (`Session.plain`).

When a world stays apart, its shadow is a world that moves by itself.  What is
done to session `k` is done to the shadow (`Shadow.perform` and its like), and
what is done to any other session leaves it as it is (`Shadow.other`).  So every
step of the world is a step of the shadow, or none, or nothing but time that
passes (`Shadow.go?`); and as nothing is left to do in a world but what is left
to do in its shadows, both come to rest together (`Shadow.rests`).
-/
import Duplex.Proofs.Session.Plain
import Duplex.Proofs.World.Apart

namespace Duplex

variable {C : Type}

/-- The same task for the first socket in place of every socket. -/
def Task.plain : Task → Task
  | .act p => .act p.plain
  | .drain _ => .drain 0
  | .returned _ message => .returned 0 message
  | .close _ => .close 0

namespace World

/-- The second row has the tasks of the first that are for session `k`. -/
inductive Shares (k : Nat) : List Task → List Task → Prop
  | nil : Shares k [] []
  | own {t ts us} (h : t.On (· = k)) (rest : Shares k ts us) : Shares k (t :: ts) (t.plain :: us)
  | other {t ts us} (j : Nat) (hj : j ≠ k) (h : t.On (· = j)) (rest : Shares k ts us) :
      Shares k (t :: ts) us

theorem Shares.append_other {k j : Nat} (hj : j ≠ k) {ts rest us : List Task}
    (h : ∀ t ∈ ts, t.On (· = j)) (hrest : Shares k rest us) : Shares k (ts ++ rest) us := by
  induction ts with
  | nil => exact hrest
  | cons t ts ih =>
    exact .other j hj (h t List.mem_cons_self) (ih fun t' ht' => h t' (List.mem_cons_of_mem t ht'))

/-- The second world is what the first one shows of session `k`. -/
structure Shadow (k : Nat) (w u : World C) : Prop where
  now : u.now = w.now.plain
  sessions : u.sessions = (w.sessions[k]?).toList.map (Session.plain k)
  registry : u.registry = (w.registry.filter (·.2 == k)).map fun e => (e.1, 0)
  tasks : Shares k w.tasks u.tasks

namespace Shadow

variable {k j limit : Nat} {w u w₁ : World C}

/-! ### What is seen of the session -/

theorem getElem? (h : Shadow k w u) : u.sessions[0]? = (w.sessions[k]?).map (Session.plain k) := by
  rw [h.sessions]
  cases w.sessions[k]? <;> rfl

/-- Something keeps the session, in the world and in its shadow, or nothing does. -/
theorem live?_cases (h : Shadow k w u) :
    (w.live? k = none ∧ u.live? 0 = none) ∨
      ∃ s, w.live? k = some s ∧ u.live? 0 = some (s.plain k) := by
  have hlive : u.live? 0 = (w.live? k).map (Session.plain k) := by
    rw [live?, live?, h.getElem?]
    rcases w.sessions[k]? with - | s
    · rfl
    · rcases hg : s.gone with - | -
      · simp [Option.filter, Session.plain, hg]
      · simp [Option.filter, Session.plain, hg]
  rcases hl : w.live? k with - | s
  · exact .inl ⟨rfl, by rw [hlive, hl, Option.map_none]⟩
  · exact .inr ⟨s, rfl, by rw [hlive, hl, Option.map_some]⟩

theorem view (h : Shadow k w u) : u.view 0 = w.view k := by
  rw [World.view, World.view, h.getElem?]
  cases w.sessions[k]? <;> rfl

theorem isKept (h : Shadow k w u) (s : Session C) :
    u.isKept 0 (s.plain k) = w.isKept k s := by
  have hentry : u.registry.any (·.2 == 0) = w.registry.any (·.2 == k) := by
    rw [h.registry]
    simp [List.any_map, List.any_filter, Function.comp_def]
  rw [World.isKept, World.isKept, hentry]
  rfl

/-! ### What is done to the session -/

theorem modify (h : Shadow k w u) {f g : Session C → Session C}
    (hfg : ∀ s, w.sessions[k]? = some s → (f s).plain k = g (s.plain k)) :
    Shadow k (w.modify k f) (u.modify 0 g) := by
  refine ⟨h.now, ?_, h.registry, h.tasks⟩
  show u.sessions.modify 0 g = _
  rw [h.sessions, sessions_modify, List.getElem?_modify_eq]
  rcases hs : w.sessions[k]? with - | s
  · rfl
  · simp [hfg s hs]

theorem set (h : Shadow k w u) (s : Session C) :
    Shadow k (w.modify k fun _ => s) (u.modify 0 fun _ => s.plain k) := h.modify fun _ _ => rfl

theorem push (h : Shadow k w u) {t : Task} (ht : t.On (· = k)) :
    Shadow k (w.push t) (u.push t.plain) :=
  ⟨h.now, h.sessions, h.registry, .own ht h.tasks⟩

theorem act (h : Shadow k w u) {p : Program} (hp : p.On (· = k)) :
    Shadow k (w.act p) (u.act p.plain) := h.push (t := .act p) hp

theorem actIf (h : Shadow k w u) {p : Option Program} (hp : ∀ q, p = some q → q.On (· = k)) :
    Shadow k (w.actIf p) (u.actIf (p.map Program.plain)) := by
  cases p with
  | none => exact h
  | some q => exact h.act (hp q rfl)

theorem unregister (h : Shadow k w u) : Shadow k (w.unregister k) (u.unregister 0) := by
  refine ⟨h.now, h.sessions, ?_, h.tasks⟩
  -- on both sides no entry is left
  show u.registry.filter (·.2 != 0) = ((w.registry.filter (·.2 != k)).filter (·.2 == k)).map _
  have hnone : (w.registry.filter (·.2 != k)).filter (·.2 == k) = [] := by
    simp [List.filter_eq_nil_iff]
  rw [h.registry, hnone, List.map_nil, List.filter_eq_nil_iff]
  intro e he
  obtain ⟨_, -, rfl⟩ := List.mem_map.mp he
  simp

theorem receive (h : Shadow k w u) (messages : Option (List String)) :
    Shadow k (w.receive k messages) (u.receive 0 messages) := by
  cases messages with
  | none => exact h.push (t := .close k) rfl
  | some messages =>
    refine (h.modify fun s _ => ?_).push (t := .drain k) rfl
    rw [h.now, Session.plain_receive]

section Carriers

variable [Carrier C]

theorem attach (h : Shadow k w u) (hw : ∀ s, w.sessions[k]? = some s → s.Minds k) (n : Nat) :
    Shadow k (w.attach k n) (u.attach 0 n) := by
  rcases h.live?_cases with ⟨hlive, hl⟩ | ⟨s, hlive, hl⟩
  · simpa [World.attach, hlive, hl] using h
  · have hattach : Shadow k (w.modify k (·.attach w.now n)) (u.modify 0 (·.attach u.now n)) :=
      h.modify fun s _ => by rw [h.now, Session.plain_attach]
    have hp : (s.plain k).phase = s.phase := rfl
    simp only [World.attach, hlive, hl, hp]
    split
    · have hopen : Shadow k
          { w.modify k (·.attach w.now n) with sockets := w.sockets ++ [k] }
          { u.modify 0 (·.attach u.now n) with sockets := u.sockets ++ [0] } :=
        ⟨hattach.now, hattach.sessions, hattach.registry, hattach.tasks⟩
      exact hopen.act (hw s (live?_eq_some.mp hlive).1).onOpen
    · exact hattach

theorem register (h : Shadow k w u) (hw : ∀ s, w.sessions[k]? = some s → s.Minds k) (c : C) :
    Shadow k (w.register k c) (u.register 0 c) := by
  rcases h.live?_cases with ⟨hlive, hl⟩ | ⟨s, hlive, hl⟩
  · simpa [World.register, hlive, hl] using h
  · have hadd : Shadow k (w.modify k (·.addCarrier c)) (u.modify 0 (·.addCarrier c)) :=
      h.modify fun _ _ => rfl
    simp only [World.register, hlive, hl]
    refine hadd.attach ?_ s.carriers.length
    intro s' hs'
    rw [sessions_modify, List.getElem?_modify_eq] at hs'
    obtain ⟨s₀, hs₀, rfl⟩ := Option.map_eq_some_iff.mp hs'
    obtain ⟨⟨hhandler, hfarewell⟩, honOpen⟩ := hw s₀ hs₀
    exact ⟨⟨hhandler, hfarewell⟩, honOpen⟩

theorem close (h : Shadow k w u) (hw : ∀ s, w.sessions[k]? = some s → s.Minds k) :
    Shadow k (w.close k) (u.close 0) := by
  rcases h.live?_cases with ⟨hlive, hl⟩ | ⟨s, hlive, hl⟩
  · simpa [World.close, hlive, hl] using h
  · have hs := (live?_eq_some.mp hlive).1
    by_cases hp : s.phase = .closed
    · have hp' : (s.plain k).phase = .closed := hp
      rw [close_of_closed hs hp, close_of_closed (live?_eq_some.mp hl).1 hp']
      exact h
    · have hp' : (s.plain k).phase ≠ .closed := hp
      have hdepart := Session.depart_plain (k := k) w.now s
      rw [close_of_live hlive hp, close_of_live hl hp', h.now, hdepart]
      refine (h.set (s.depart w.now).1).unregister.actIf ?_
      -- only the farewell it keeps is to run, and what it keeps is for itself
      intro q hq
      rw [Session.depart_snd hp] at hq
      obtain ⟨⟨n, p⟩, hf, rfl⟩ := Option.map_eq_some_iff.mp hq
      exact (hw s hs).keeps.farewell n p hf

omit [Carrier C] in
theorem drain (h : Shadow k w u) (hw : ∀ s, w.sessions[k]? = some s → s.Minds k) :
    Shadow k (w.drain k) (u.drain 0) := by
  rcases h.live?_cases with ⟨hlive, hl⟩ | ⟨s, hlive, hl⟩
  · simpa [World.drain, hlive, hl] using h
  · have hdeliver := Session.deliver?_plain (k := k) w.now s
    rw [← h.now] at hdeliver
    rcases hd : s.deliver? w.now with - | ⟨message, p, s'⟩
    · rw [hd] at hdeliver
      simpa [World.drain, hlive, hl, hd, hdeliver] using h
    · rw [hd] at hdeliver
      simp only [World.drain, hlive, hl, Option.bind_some, hd, hdeliver, Option.map_some]
      refine (((h.set s').push (t := .drain k) rfl).push (t := .returned k message) rfl).act ?_
      obtain ⟨-, -, n, f, _, hf, -, rfl, -⟩ := Session.deliver?_eq_some.mp hd
      exact (hw s (live?_eq_some.mp hlive).1).keeps.handler n f hf message

theorem perform (h : Shadow k w u) {p : Program} (hp : p.On (· = k)) :
    Shadow k (w.perform p) (u.perform p.plain) := by
  cases p with
  | done => exact h
  | note j entry rest =>
    obtain ⟨rfl, hrest⟩ := hp
    refine Shadow.act (h.modify fun s _ => ?_) hrest
    rw [h.now, Session.plain_record]
  -- from here on both ask for the session, and both find it or neither
  | pause j rest =>
    obtain ⟨rfl, hrest⟩ := hp
    rcases h.live?_cases with ⟨hlive, hl⟩ | ⟨s, hlive, hl⟩
    · simp only [World.perform, Program.plain, hlive, hl]
      exact h.act hrest
    · have hpause : Shadow j (w.modify j fun s => { s with paused := true })
          (u.modify 0 fun s => { s with paused := true }) := h.modify fun _ _ => rfl
      simp only [World.perform, Program.plain, hlive, hl]
      exact hpause.act hrest
  | resume j rest =>
    obtain ⟨rfl, hrest⟩ := hp
    rcases h.live?_cases with ⟨hlive, hl⟩ | ⟨s, hlive, hl⟩
    · simp only [World.perform, Program.plain, hlive, hl]
      exact h.act hrest
    · have hresume : Shadow j (w.modify j fun s => { s with paused := false })
          (u.modify 0 fun s => { s with paused := false }) := h.modify fun _ _ => rfl
      simp only [World.perform, Program.plain, hlive, hl]
      exact (hresume.act hrest).push (t := .drain j) rfl
  | close j rest =>
    obtain ⟨rfl, hrest⟩ := hp
    exact (h.act hrest).push (t := .close j) rfl
  | look j next =>
    obtain ⟨rfl, hnext⟩ := hp
    simp only [World.perform, Program.plain, h.view]
    exact h.act (hnext _)
  | onMessage j handler rest =>
    obtain ⟨rfl, -, hrest⟩ := hp
    rcases h.live?_cases with ⟨hlive, hl⟩ | ⟨s, hlive, hl⟩
    · simp only [World.perform, Program.plain, hlive, hl]
      exact h.act hrest
    · simp only [World.perform, Program.plain, hlive, hl]
      refine Shadow.push (t := .drain j) (Shadow.act (h.modify fun s _ => ?_) hrest) rfl
      rw [h.now, Session.plain_setHandler]
  | write j message next =>
    obtain ⟨rfl, hnext⟩ := hp
    rcases h.live?_cases with ⟨hlive, hl⟩ | ⟨s, hlive, hl⟩
    · simp only [World.perform, Program.plain, hlive, hl]
      exact h.act (hnext _)
    · have hwrite := Session.write_plain (k := j) w.now message s
      simp only [World.perform, Program.plain, hlive, hl, h.now, hwrite]
      exact (h.set (s.write w.now message).1).act (hnext _)
  | onClose j handler rest =>
    obtain ⟨rfl, hhandler, hrest⟩ := hp
    rcases h.live?_cases with ⟨hlive, hl⟩ | ⟨s, hlive, hl⟩
    · -- nothing keeps it any more: the handler runs, and it is not stored
      simp only [World.perform, Program.plain, hlive, hl]
      refine (Shadow.act (h.modify fun s _ => ?_) hrest).act hhandler
      rw [h.now, Session.plain_passFarewell]
    · have hset := Session.setFarewell_plain (k := j) w.now handler s
      simp only [World.perform, Program.plain, hlive, hl, h.now, hset]
      refine ((h.set (s.setFarewell w.now handler).1).act hrest).actIf ?_
      intro q hq
      simp only [Session.setFarewell] at hq
      split at hq
      · cases hq
        exact hhandler
      · cases hq
  | feed => exact hp.elim

/-! ### What is done to other sessions -/

/-- What is done to another session does not show. -/
theorem other (h : Shadow k w u) (hw : w.Apart) {m : Move C} (hm : w.IsFor j m) (hj : j ≠ k)
    (hrest : Shares k (m.rest w.tasks) u.tasks) : Shadow k (w.move m) u := by
  obtain ⟨ts, hts, hall⟩ := tasks_of_for hm (hw.minds j)
  refine ⟨?now, ?sessions, ?registry, ?tasks⟩
  case now =>
    rw [now_of_for hm, h.now]
  case sessions =>
    rw [session_of_for hm (Ne.symm hj), h.sessions]
  case registry =>
    rw [entry_of_for hm (Ne.symm hj), h.registry]
  case tasks =>
    rw [hts]
    exact hrest.append_other hj hall

/-! ### What the world does next -/

/-- The next task is for the session or does not show. -/
theorem step (h : Shadow k w u) (hw : w.Apart) {t : Task} {rest : List Task}
    (ht : w.tasks = t :: rest) :
    u.tasks ≠ [] ∧ Shadow k w.step u.step ∨ Shadow k w.step u := by
  have hshares := h.tasks
  rw [ht] at hshares
  generalize hus : u.tasks = us at hshares
  cases hshares with
  -- the shadow has the task as well, and does it too
  | own hon hrest =>
    rename_i us
    have h' : Shadow k { w with tasks := rest } { u with tasks := us } :=
      ⟨h.now, h.sessions, h.registry, hrest⟩
    refine .inl ⟨by simp, ?_⟩
    cases t with
    | act p =>
      simp only [World.step, ht, hus, Task.plain]
      exact h'.perform hon
    | drain j =>
      obtain rfl : j = k := hon
      simp only [World.step, ht, hus, Task.plain]
      exact h'.drain (hw.minds j)
    | returned j message =>
      obtain rfl : j = k := hon
      simp only [World.step, ht, hus, Task.plain]
      exact h'.modify fun s _ => by rw [h'.now, Session.plain_record]
    | close j =>
      obtain rfl : j = k := hon
      simp only [World.step, ht, hus, Task.plain]
      exact h'.close (hw.minds j)
  -- the task is not in the shadow
  | other j hj hon hrest =>
    refine .inr (h.other hw (m := .step) ⟨t, rest, ht, hon⟩ hj ?_)
    rw [Move.rest, ht, List.tail_cons, hus]
    exact hrest

/-! ### What the clock of the world does -/

omit [Carrier C] in
theorem reach (h : Shadow k w u) (time : Nat) : Shadow k (w.reach time) (u.reach time) := by
  refine ⟨?_, h.sessions, h.registry, h.tasks⟩
  rw [World.reach, World.reach, h.now]
  rfl

omit [Carrier C] in
theorem paced (h : Shadow k w u) {pace : Moment → Moment} (hpace : ∀ m, (pace m).plain = m.plain) :
    Shadow k (w.paced pace) u :=
  ⟨h.now.trans (hpace w.now).symm, h.sessions, h.registry, h.tasks⟩

theorem elapse (h : Shadow k w u) : Shadow k (w.elapse k) (u.elapse 0) := by
  have hs := h.getElem?
  rcases hsession : w.sessions[k]? with - | s
  · rw [hsession] at hs
    simp only [World.elapse, hsession, hs, Option.map_none, Option.bind_none]
    exact h.push (t := .close k) rfl
  · rw [hsession] at hs
    have hb : (s.plain k).nextBeat = s.nextBeat := rfl
    simp only [World.elapse, hsession, hs, Option.map_some, Option.bind_some, hb]
    split
    · exact h.modify fun s _ => by rw [h.now, Session.plain_beat]
    · exact h.push (t := .close k) rfl

variable {s : Session C}

omit [Carrier C] in
theorem sessions_eq (h : Shadow k w u) (hs : w.sessions[k]? = some s) :
    u.sessions = [s.plain k] := by
  rw [h.sessions, hs]
  rfl

omit [Carrier C] in
theorem unkept? (h : Shadow k w u) (hs : w.sessions[k]? = some s) :
    u.unkept? = if !s.gone && !w.isKept k s then some 0 else none := by
  have hg : (s.plain k).gone = s.gone := rfl
  rw [World.unkept?, h.sessions_eq hs]
  rcases hb : !s.gone && !w.isKept k s with - | -
  · simp [h.isKept, hg, hb]
  · simp [h.isKept, hg, hb]

theorem stranded? (h : Shadow k w u) (hs : w.sessions[k]? = some s) :
    u.stranded? = if !s.gone && s.isStranded then some 0 else none := by
  have hg : (s.plain k).gone = s.gone := rfl
  rw [World.stranded?, h.sessions_eq hs]
  simp [List.findIdx?_cons, Session.isStranded_plain, hg]

omit [Carrier C] in
theorem nextDue? (h : Shadow k w u) (hs : w.sessions[k]? = some s) :
    u.nextDue? = s.due?.map (·, 0) := by
  rw [World.nextDue?, h.sessions_eq hs]
  rfl

omit [Carrier C] in
theorem tasks_eq_nil (h : Shadow k w u) (ht : w.tasks = []) : u.tasks = [] := by
  have hshares := h.tasks
  rw [ht] at hshares
  generalize u.tasks = us at hshares
  cases hshares
  rfl

omit [Carrier C] in
theorem of_session (h : Shadow k w u) {i : Nat} {s' : Session C} (hs' : u.sessions[i]? = some s') :
    i = 0 ∧ ∃ s, w.sessions[k]? = some s ∧ s' = s.plain k := by
  rcases hs : w.sessions[k]? with - | s
  · rw [h.sessions, hs] at hs'
    cases hs'
  · rw [h.sessions_eq hs] at hs'
    cases i with
    | zero => exact ⟨rfl, s, rfl, (Option.some.inj hs').symm⟩
    | succ i => cases hs'

theorem stir?_eq_none (h : Shadow k w u) (hw : w.stir? = none) : u.stir? = none := by
  obtain ⟨ht, hunkept, hstranded⟩ := World.stir?_eq_none.mp hw
  refine World.stir?_eq_none.mpr
    ⟨h.tasks_eq_nil ht, unkept?_eq_none.mpr ?_, stranded?_eq_none.mpr ?_⟩
  · intro i s' hs' hg
    obtain ⟨rfl, s, hs, rfl⟩ := h.of_session hs'
    rw [h.isKept]
    exact unkept?_eq_none.mp hunkept k s hs hg
  · intro i s' hs' hg
    obtain ⟨rfl, s, hs, rfl⟩ := h.of_session hs'
    exact stranded?_eq_none.mp hstranded k s hs hg

omit [Carrier C] in
/-- What is due in the shadow is due in the world. -/
theorem due (h : Shadow k w u) {P : Nat → Prop}
    (hw : ∀ s ∈ w.sessions, ∀ t, s.due? = some t → P t) :
    ∀ s ∈ u.sessions, ∀ t, s.due? = some t → P t := by
  intro s' hs' t ht
  obtain ⟨i, hi⟩ := List.mem_iff_getElem?.mp hs'
  obtain ⟨-, s, hs, rfl⟩ := h.of_session hi
  exact hw s (List.mem_of_getElem? hs) t ht

/-- When the world has no next step the shadow has none. -/
theorem go?_eq_none (h : Shadow k w u) (hgo : w.go? limit = none) : u.go? limit = none := by
  obtain ⟨hstir, hlater⟩ := World.go?_eq_none.mp hgo
  exact World.go?_eq_none.mpr ⟨h.stir?_eq_none hstir, h.due hlater⟩

/-- **The next step of a world shows in its shadow** as its next step, or as time that passes, or
not at all. -/
theorem go? (h : Shadow k w u) (hw : w.Apart) (hgo : w.go? limit = some w₁) :
    ∃ u₁, Shadow k w₁ u₁ ∧ ∀ u', Rests id limit u₁ u' → Rests id limit u u' := by
  have same (h' : Shadow k w₁ u) :
      ∃ u₁, Shadow k w₁ u₁ ∧ ∀ u', Rests id limit u₁ u' → Rests id limit u u' :=
    ⟨u, h', fun u' hr => hr⟩
  have tick {u₁ : World C} (h' : Shadow k w₁ u₁) (hu : u.go? limit = some u₁) :
      ∃ u₁, Shadow k w₁ u₁ ∧ ∀ u', Rests id limit u₁ u' → Rests id limit u u' :=
    ⟨u₁, h', fun u' hr => .tick hu hr⟩
  rcases ht : w.tasks with - | ⟨t, rest⟩
  · have htu := h.tasks_eq_nil ht
    have hrest : Shares k w.tasks u.tasks := h.tasks
    rcases go?_cases ht hgo with
      ⟨j, s, hs, hg, hkept, rfl⟩ | ⟨j, s, n, hs, hg, hst, ha, hunkept, rfl⟩ |
      ⟨j, s, t, hs, hd, hle, hmin, hstir, rfl⟩
    -- a session is forgotten
    · by_cases hj : j = k
      · subst hj
        have hu : u.go? limit = some (u.modify 0 Session.forget) := by
          simp [World.go?, World.stir?, htu, h.unkept? hs, hg, hkept]
        exact tick (h.modify fun _ _ => rfl) hu
      · exact same (h.other hw (m := .forget j) rfl hj hrest)
    -- a session loses its carrier
    · by_cases hj : j = k
      · subst hj
        have hkept := unkept?_eq_none.mp hunkept j s hs hg
        have hu : u.go? limit = some (u.modify 0 (·.detach u.now)) := by
          simp [World.go?, World.stir?, htu, h.unkept? hs, h.stranded? hs, hg, hkept, hst]
        refine tick (h.modify fun s _ => ?_) hu
        rw [h.now, Session.plain_detach]
      · refine same ?_
        rw [← move_lose hs hg ha]
        exact h.other hw (m := .lose j n) rfl hj hrest
    -- something is due in a session
    · have h' := h.reach t
      by_cases hj : j = k
      · subst hj
        refine tick h'.elapse ?_
        simp only [World.go?, h.stir?_eq_none hstir, fire?, h.nextDue? hs, hd, Option.map_some, hle,
          if_true]
        rfl
      · refine ⟨u.reach t, ?_, fun u' hr => hr.of_reach (h.stir?_eq_none hstir) (h.due hmin) hle⟩
        exact h'.other (hw.reach hmin) (m := .elapse j) rfl hj hrest
  · obtain rfl := Option.some.inj ((go?_of_tasks (by simp [ht])).symm.trans hgo)
    rcases h.step hw ht with ⟨hne, h'⟩ | h'
    · exact tick h' (go?_of_tasks hne)
    · exact same h'

/-- **A world and its shadow come to rest together.** -/
theorem rests {pace : Moment → Moment} {w' : World C} (hpace : ∀ m, (pace m).plain = m.plain)
    (hr : Rests pace limit w w') (hw : w.Apart) (h : Shadow k w u) :
    ∃ u', Rests id limit u u' ∧ Shadow k w' u' := by
  have htime (m : Moment) : (pace m).time = m.time := Moment.time_eq_of_plain (hpace m)
  induction hr generalizing u with
  | @rest w hn =>
    exact ⟨u.reach limit, .rest ((h.paced hpace).go?_eq_none hn), h.reach limit⟩
  | @tick w w₁ w' hs _ ih =>
    have hpaced : (w.paced pace).Apart := hw.paced (htime w.now)
    obtain ⟨u₁, h₁, hback⟩ := (h.paced hpace).go? hpaced hs
    obtain ⟨u', hr', h'⟩ := ih (hpaced.go? hs) h₁
    exact ⟨u', hback u' hr', h'⟩

end Carriers

end Shadow

end World

end Duplex
