/-
Duplex/Proofs/World/Entries.lean

The entries of the registry.

An entry is made together with its session and goes when that session closes,
and in no other way.  So the registry holds, under the name of each, the
sessions that were entered and are not closed (`Entries`).  Sessions are told
apart by their numbers, not by their names: a session that was never entered
takes nothing with it when it closes, whatever its name is.

A session that is registered is kept, and in a mindful run what is kept is not
forgotten.  `Entries.move` is the step, and `roll_of_run` says what it comes to
over a whole run.
-/
import Duplex.Proofs.World.Closing

namespace Duplex.World

open Session

variable {C : Type}

/-! ### Forgetting -/

/-- A registered session is kept. -/
theorem isKept_of_mem {w : World C} {e : String × Nat} (he : e ∈ w.registry) (s : Session C) :
    w.isKept e.2 s = true := by
  simp only [isKept, Bool.or_eq_true, List.any_eq_true, beq_iff_eq]
  exact .inr ⟨e, he, rfl⟩

/-- Sessions are forgotten by the move made for it. -/
theorem forget_of_deed {tasks : List Task} {m : Move C} {k : Nat}
    (hm : m.deed? tasks = some (k, .forget)) : m = .forget k := by
  cases m with
  | forget j =>
    cases hm
    rfl
  | step =>
    obtain ⟨t, _, -, ht⟩ := Move.deed?_step.mp hm
    cases t with
    | act p =>
      cases p with
      | feed j payload next =>
        obtain ⟨_, -, he⟩ := Option.map_eq_some_iff.mp ht
        cases he
      | _ => cases ht
    | _ => cases ht
  | feed j payload =>
    obtain ⟨_, -, he⟩ := Option.map_eq_some_iff.mp hm
    cases he
  | _ => cases hm

variable [Carrier C]

/-! ### One move -/

/-- The registry holds sessions that are there and not over, each under its name, one for a name and
once each. -/
structure Entries (w : World C) : Prop where
  stand : ∀ e ∈ w.registry, ∃ s, w.sessions[e.2]? = some s ∧ s.id = e.1 ∧ s.isClosed = false
  names : (w.registry.map (·.1)).Nodup
  numbers : (w.registry.map (·.2)).Nodup

omit [Carrier C] in
theorem entries_empty : Entries ({} : World C) :=
  ⟨fun _ h => (List.not_mem_nil h).elim, List.nodup_nil, List.nodup_nil⟩

omit [Carrier C] in
/-- A registered session is found under its name. -/
theorem Entries.find? {w : World C} (h : Entries w) {id : String} {k : Nat}
    (he : (id, k) ∈ w.registry) : w.find? id = some k := by
  obtain ⟨before, after, hr⟩ := List.append_of_mem he
  refine List.lookup_eq_some_iff.mpr ⟨before, after, hr, ?_⟩
  intro e hb
  have hn := h.names
  rw [hr, List.map_append, List.nodup_append] at hn
  have hne := hn.2.2 e.1 (List.mem_map_of_mem hb) id (by simp)
  simpa using hne.symm

omit [Carrier C] in
theorem Entries.live? {w : World C} (h : Entries w) {e : String × Nat} (he : e ∈ w.registry) :
    ∃ s, w.live? e.2 = some s ∧ s.phase ≠ .closed := by
  obtain ⟨s, hs, -, hc⟩ := h.stand e he
  obtain ⟨hp, hg⟩ := isClosed_eq_false.mp hc
  exact ⟨s, live?_eq_some.mpr ⟨hs, hg⟩, hp⟩

/-- **An entry stays until its session closes.** -/
theorem mem_registry_move {w : World C} (h : Entries w) (m : Move C) {e : String × Nat}
    (he : e ∈ w.registry) :
    e ∈ (w.move m).registry ∨
      ∃ t ∈ turnOf e.2 w m, t.before.phase ≠ .closed ∧ t.after.phase = .closed := by
  rcases registry_move w m with hr | ⟨id, _, _, _, _, -, -, hr, -⟩ | ⟨k, rest, rfl, ht, hr⟩
  · exact .inl (hr ▸ he)
  · exact .inl (hr ▸ List.mem_append_left _ he)
  · by_cases hk : e.2 = k
    -- the session that is told to close is there and not over, so now it closes
    · obtain ⟨s, hl, hp⟩ := h.live? he
      obtain ⟨hs, hg⟩ := live?_eq_some.mp hl
      have hd : Move.deed? w.tasks (.step : Move C) = some (e.2, .depart) := by
        simp [Move.deed?, ht, Task.deed?, hk]
      refine .inr ⟨⟨w.now, s, .depart⟩, mem_turnOf.mpr ⟨hs, rfl, hd⟩, hp, ?_⟩
      rw [Turn.after, phase_does]
      simp [phaseAfter, hg]
    · rw [hr, List.mem_filter]
      exact .inl ⟨he, by simpa using hk⟩

/-- A session that closes takes its own entry with it and no other. -/
theorem registry_of_closing {w : World C} {m : Move C} {k : Nat} {t : Turn C}
    (ht : t ∈ turnOf k w m) (hp : t.before.phase ≠ .closed) (hp' : t.after.phase = .closed) :
    (w.move m).registry = w.registry.filter (·.2 != k) := by
  obtain ⟨-, rest, -, hw⟩ := move_of_closing ht hp hp'
  rw [hw, registry_actIf]
  rfl

/-- A registered session that a mindful move leaves in the registry is not over after it. -/
theorem Entries.stand_move {w : World C} (h : Entries w) {m : Move C} (hm : w.IsMindful m)
    {e : String × Nat} (he : e ∈ w.registry) (he' : e ∈ (w.move m).registry) :
    ∃ s, (w.move m).sessions[e.2]? = some s ∧ s.id = e.1 ∧ s.isClosed = false := by
  obtain ⟨s, hs, hid, hc⟩ := h.stand e he
  obtain ⟨hp, hg⟩ := isClosed_eq_false.mp hc
  rcases hs' : (w.move m).sessions[e.2]? with - | s'
  · cases hs.symm.trans (session_of_move hs').1
  refine ⟨s', rfl, ?_⟩
  rcases session_move hs' with ⟨s₀, hk, ⟨-, rfl⟩ | ⟨d, ht, rfl⟩⟩ | ⟨hk, -, -⟩
  -- the move is not for the session
  · obtain rfl := Option.some.inj (hs.symm.trans hk)
    exact ⟨hid, hc⟩
  · obtain rfl := Option.some.inj (hs.symm.trans hk)
    refine ⟨(made_does w.now s d).1.trans hid, isClosed_eq_false.mpr ⟨?_, ?_⟩⟩
    -- if it closed, its entry went with it
    · intro hp'
      have hmem : ⟨w.now, s, d⟩ ∈ turnOf e.2 w m := ht ▸ List.mem_singleton_self _
      rw [registry_of_closing hmem hp hp'] at he'
      simpa using (List.mem_filter.mp he').2
    -- it is not forgotten while the registry keeps it
    · rw [gone_does, hg]
      rintro rfl
      have hmem : ⟨w.now, s, .forget⟩ ∈ turnOf e.2 w m := ht ▸ List.mem_singleton_self _
      rw [forget_of_deed (mem_turnOf.mp hmem).2.2] at hm
      have hkept := hm s hs
      rw [isKept_of_mem he] at hkept
      cases hkept
  · cases hs.symm.trans hk

/-- **A mindful move keeps the entries in order.** -/
theorem Entries.move {w : World C} (h : Entries w) {m : Move C} (hm : w.IsMindful m) :
    Entries (w.move m) := by
  have lt {e : String × Nat} (he : e ∈ w.registry) : e.2 < w.sessions.length := by
    obtain ⟨s, hs, -⟩ := h.stand e he
    exact (List.getElem?_eq_some_iff.mp hs).1
  have shrunk (hr : (w.move m).registry.Sublist w.registry) : Entries (w.move m) :=
    ⟨fun e he => h.stand_move hm (hr.mem he) he, h.names.sublist (hr.map _),
      h.numbers.sublist (hr.map _)⟩
  rcases registry_move w m with
    hr | ⟨id, _, _, _, _, -, hf, hr, hs⟩ | ⟨_, _, _, _, hr⟩
  · exact shrunk (hr ▸ List.Sublist.refl _)
  -- an entry is new: for a name without one, and for the next number
  · refine ⟨?_, ?_, ?_⟩
    · intro e he
      rw [hr] at he
      rcases List.mem_append.mp he with he₀ | he₀
      · exact h.stand_move hm he₀ (hr ▸ he)
      · rw [List.mem_singleton.mp he₀, hs]
        exact ⟨_, List.getElem?_concat_length .., rfl, rfl⟩
    · rw [hr, List.map_append, List.nodup_append]
      refine ⟨h.names, List.pairwise_singleton _ _, ?_⟩
      rintro _ ha _ hb rfl
      obtain ⟨e, he, rfl⟩ := List.mem_map.mp ha
      have hne := List.lookup_eq_none_iff.mp hf e he
      simp at hb
      simp [hb] at hne
    · rw [hr, List.map_append, List.nodup_append]
      refine ⟨h.numbers, List.pairwise_singleton _ _, ?_⟩
      rintro _ ha _ hb rfl
      obtain ⟨e, he, rfl⟩ := List.mem_map.mp ha
      have hlt := lt he
      simp at hb
      omega
  -- an entry is taken away
  · exact shrunk (hr ▸ List.filter_sublist)

/-! ### Runs -/

/-- In every mindful run the entries are in order. -/
theorem entries_of_run {ms : List (Move C)} (hm : Mindful {} ms) :
    Entries (({} : World C).after ms) := by
  induction ms using List.reverseRecOn with
  | nil => exact entries_empty
  | append_singleton ms m ih =>
    obtain ⟨hms, hm, -⟩ := (mindful_append _ _ _).mp hm
    rw [after_append, after_cons, after_nil]
    exact (ih hms).move hm

/-- A session that has no entry gets none any more. -/
theorem not_entered_after {w : World C} {k : Nat} {s : Session C} (hs : w.sessions[k]? = some s)
    (h : ∀ e ∈ w.registry, e.2 ≠ k) (ms : List (Move C)) :
    ∀ e ∈ (w.after ms).registry, e.2 ≠ k := by
  induction ms generalizing w s with
  | nil => exact h
  | cons m ms ih =>
    rcases hs' : (w.move m).sessions[k]? with - | s'
    · cases hs.symm.trans (session_of_move hs').1
    refine ih hs' ?_
    intro e he
    rcases registry_move w m with hr | ⟨_, _, _, _, _, -, -, hr, -⟩ | ⟨_, _, _, _, hr⟩
    · exact h e (hr ▸ he)
    · rw [hr] at he
      rcases List.mem_append.mp he with he | he
      · exact h e he
      -- a new entry is for a new number
      · rw [List.mem_singleton.mp he]
        exact (Nat.ne_of_lt (List.getElem?_eq_some_iff.mp hs).1).symm
    · exact h e (List.mem_filter.mp (hr ▸ he)).1

/-- A session that has an entry has it as long as it is not closed. -/
theorem entered_after {w : World C} (h : Entries w) {e : String × Nat} (he : e ∈ w.registry)
    {ms : List (Move C)} (hm : Mindful w ms) {s : Session C}
    (hs : (w.after ms).sessions[e.2]? = some s) (hp : s.phase ≠ .closed) :
    e ∈ (w.after ms).registry := by
  induction ms generalizing w with
  | nil => exact he
  | cons m ms ih =>
    rcases mem_registry_move h m he with he' | ⟨t, ht, -, hp'⟩
    · exact ih (h.move hm.1) he' hm.2 hs
    -- if it closed with this move it would be closed in the end
    · have kept (s : Session C) (now : Moment) (d : Deed C) (hp : s.phase = .closed) :
          (s.does now d).phase = .closed := closed_does hp now d
      obtain ⟨s', hs', hc⟩ := session_after_of_kept kept (session_of_turn ht) hp' ms
      exact absurd (Option.some.inj (hs.symm.trans hs') ▸ hc) hp

/-- A farewell is run when its session closes, or when it is over already. -/
theorem over_of_parting {t : Turn C} (h : t.parting?.isSome) :
    (t.before.phase ≠ .closed ∧ t.after.phase = .closed) ∨ t.before.isClosed = true := by
  obtain ⟨now, s, d⟩ := t
  cases d with
  | depart =>
    by_cases hc : s.isClosed = true
    · exact .inr hc
    · obtain ⟨hp, hg⟩ := isClosed_eq_false.mp (Bool.eq_false_iff.mpr hc)
      refine .inl ⟨hp, ?_⟩
      rw [Turn.after, phase_does]
      simp [phaseAfter, hg]
  | setFarewell p =>
    by_cases hc : s.isClosed = true
    · exact .inr hc
    · simp [Turn.parting?, hc] at h
  | _ => cases h

/-- Session `k` was entered under that name, and stands there until it closes. -/
structure Standing (id : String) (k : Nat) (w : World C) (s : Session C) : Prop where
  name : s.id = id
  entry : (id, k) ∈ w.registry ↔ s.phase ≠ .closed
  /-- It is the one that is found, and none is made in its place. -/
  found : s.phase ≠ .closed → w.find? id = some k ∧ ∀ make, w.ensure id make = (k, w)

/-- What becomes of the registry in a run. -/
structure Roll (ms : List (Move C)) : Prop where
  /-- It holds sessions that are there and not over, each under its name, one for a name. -/
  entries : Entries (({} : World C).after ms)
  /-- A session that is entered when it is made has its entry exactly until it closes. -/
  entered : ∀ pre id timing onOpen peer held post,
    ms = pre ++ .make id timing onOpen peer held true :: post →
    (({} : World C).after pre).find? id = none →
    ∃ s, (({} : World C).after ms).sessions[(({} : World C).after pre).sessions.length]? = some s ∧
      Standing id (({} : World C).after pre).sessions.length (({} : World C).after ms) s
  /-- One that is not entered when it is made is never entered. -/
  stray : ∀ pre id timing onOpen peer held post,
    ms = pre ++ .make id timing onOpen peer held false :: post →
    ∀ e ∈ (({} : World C).after ms).registry, e.2 ≠ (({} : World C).after pre).sessions.length
  /-- A session that closes takes its own entry with it and no other; without one, nothing goes. -/
  closed : ∀ pre m post, ms = pre ++ m :: post → ∀ k, ∀ t ∈ turnOf k (({} : World C).after pre) m,
    t.before.phase ≠ .closed → t.after.phase = .closed →
    (({} : World C).after (pre ++ [m])).registry =
        (({} : World C).after pre).registry.filter (·.2 != k) ∧
      ((∀ e ∈ (({} : World C).after pre).registry, e.2 ≠ k) →
        (({} : World C).after (pre ++ [m])).registry = (({} : World C).after pre).registry)
  /-- No entry goes in any other way. -/
  kept : ∀ pre m post, ms = pre ++ m :: post → ∀ e ∈ (({} : World C).after pre).registry,
    e ∈ (({} : World C).after (pre ++ [m])).registry ∨
      ∃ t ∈ turnOf e.2 (({} : World C).after pre) m,
        t.before.phase ≠ .closed ∧ t.after.phase = .closed
  /-- When a farewell is about to run its session has no entry, and never again. -/
  parted : ∀ pre m mid post, ms = pre ++ m :: mid ++ post → ∀ k,
    ∀ t ∈ turnOf k (({} : World C).after pre) m, t.parting?.isSome →
    ∀ e ∈ (({} : World C).after (pre ++ m :: mid)).registry, e.2 ≠ k

/-- A session just entered. -/
theorem standing_of_make {pre post : List (Move C)} {id : String} {timing : Timing}
    {onOpen : Nat → Program} {peer : Option Peer} {held : Bool}
    (hm : Mindful {} (pre ++ .make id timing onOpen peer held true :: post))
    (hf : (({} : World C).after pre).find? id = none) :
    ∃ s, (({} : World C).after (pre ++ .make id timing onOpen peer held true :: post)).sessions[
        (({} : World C).after pre).sessions.length]? = some s ∧
      Standing id (({} : World C).after pre).sessions.length
        (({} : World C).after (pre ++ .make id timing onOpen peer held true :: post)) s := by
  have hlast := entries_of_run hm
  obtain ⟨hpre, hmake, hpost⟩ := (mindful_append _ _ _).mp hm
  rw [after_append, after_cons] at hlast ⊢
  generalize hw : ({} : World C).after pre = w at hf hmake hpost hlast ⊢
  have hentries : Entries (w.move (.make id timing onOpen peer held true)) := by
    rw [← hw] at hmake ⊢
    exact (entries_of_run hpre).move hmake
  have hmade : w.move (.make id timing onOpen peer held true) =
      { w.add { id, timing, onOpen, peer, held } with
        registry := w.registry ++ [(id, w.sessions.length)] } := by
    simp [move, ensure, hf]
  generalize hw' : w.move (.make id timing onOpen peer held true) = w' at *
  have he : (id, w.sessions.length) ∈ w'.registry := by
    rw [hmade]
    exact List.mem_append_right _ (List.mem_singleton_self _)
  -- it is there under its name, and nothing changes the name
  obtain ⟨s₀, hs₀, hid₀, -⟩ := hentries.stand _ he
  obtain ⟨s, hs, hid⟩ := session_after_of_kept (Q := fun s => s.id = id)
    (fun s now d h => (made_does now s d).1.trans h) hs₀ hid₀ post
  refine ⟨s, hs, hid, ?_, ?_⟩
  -- it has its entry as long as it is not closed
  · constructor
    · intro he'
      obtain ⟨s', hs', hp⟩ := hlast.live? he'
      exact Option.some.inj (hs.symm.trans (live?_eq_some.mp hs').1) ▸ hp
    · exact entered_after hentries he hpost hs
  -- and while it has it, it is found
  · intro hp
    have hfound := hlast.find? (entered_after hentries he hpost hs hp)
    exact ⟨hfound, fun make => by simp [ensure, hfound]⟩

/-- **What becomes of the registry in a run**: every session that is entered stands in it, under its
name and as the only one, from the moment at which it is made until it closes. -/
theorem roll_of_run {ms : List (Move C)} (hm : Mindful {} ms) : Roll ms := by
  refine ⟨entries_of_run hm, ?entered, ?stray, ?closed, ?kept, ?parted⟩
  case entered =>
    rintro pre id timing onOpen peer held post rfl hf
    exact standing_of_make hm hf
  case stray =>
    rintro pre id timing onOpen peer held post rfl
    have hentries := entries_of_run ((mindful_append _ _ _).mp hm).1
    rw [after_append, after_cons]
    refine not_entered_after (s := { id, timing, onOpen, peer, held }) ?_ ?_ post
    · exact List.getElem?_concat_length ..
    · intro e he
      obtain ⟨s, hs, -⟩ := hentries.stand e he
      exact Nat.ne_of_lt (List.getElem?_eq_some_iff.mp hs).1
  case closed =>
    rintro pre m post rfl k t ht hp hp'
    have hr := registry_of_closing ht hp hp'
    rw [after_append, after_cons, after_nil]
    refine ⟨hr, fun hnone => ?_⟩
    rw [hr, List.filter_eq_self]
    simpa using hnone
  case kept =>
    rintro pre m post rfl e he
    rw [after_append, after_cons, after_nil]
    exact mem_registry_move (entries_of_run ((mindful_append _ _ _).mp hm).1) m he
  case parted =>
    rintro pre m mid post rfl k t ht hrun
    have hentries := entries_of_run ((mindful_append _ _ _).mp
      ((mindful_append _ _ _).mp hm).1).1
    rw [after_append, after_cons]
    rcases over_of_parting hrun with ⟨hp, hp'⟩ | hc
    · refine not_entered_after (session_of_turn ht) ?_ mid
      rw [registry_of_closing ht hp hp']
      intro e he
      simpa using (List.mem_filter.mp he).2
    -- it was over before, so it had no entry
    · obtain ⟨hs, -, -⟩ := mem_turnOf.mp ht
      refine not_entered_after hs ?_ (m :: mid)
      rintro e he rfl
      obtain ⟨s, hs', -, hc'⟩ := hentries.stand e he
      obtain rfl := Option.some.inj (hs.symm.trans hs')
      rw [hc] at hc'
      cases hc'

/-- Two sessions of one name, of which the first is entered.  The other one closes before it. -/
def namesakes : List (Move Conduit) :=
  [.make "s" (.polling {}) (fun _ => .done) none true true,
    .make "s" (.polling {}) (fun _ => .done) none true false,
    .close 1, .step, .close 0, .step]

theorem roll_of_namesakes :
    Mindful {} namesakes ∧ (({} : World Conduit).after (namesakes.take 4)).registry = [("s", 0)] ∧
      (({} : World Conduit).after namesakes).registry = [] ∧ Roll namesakes := by
  have hm : Mindful {} namesakes := by
    refine ⟨trivial, trivial, trivial, trivial, trivial, trivial, trivial⟩
  exact ⟨hm, by decide, by decide, roll_of_run hm⟩

end Duplex.World
