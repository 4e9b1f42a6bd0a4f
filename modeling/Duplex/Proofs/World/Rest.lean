/-
Duplex/Proofs/World/Rest.lean

Worlds come to rest.

`settle` takes step after step until none is left, and stops before that when it
has no fuel.  `Rests` is the same without fuel: it says to which world a world
comes to rest, if it does.  With enough fuel the two agree (`Rests.settle`).

A world does come to rest when its applications use nothing but sockets
(`exists_rests`).  Tasks come to an end (`exists_ends`).  Between tasks a session
is forgotten, or loses its carrier, or sends a heartbeat, or closes, and each of
these leaves the sessions together with less `stamina`, which no task makes
larger.
-/
import Duplex.Proofs.Session.Clocks
import Duplex.Proofs.World.Closing
import Duplex.Proofs.World.Ending

namespace Duplex.World

open Session (Deed)

variable {C : Type}

/-! ### What is due first -/

theorem earlier_eq_or (a b : Option (Nat × Nat)) : earlier a b = a ∨ earlier a b = b := by
  rcases a with - | ⟨t, k⟩
  · exact .inr rfl
  · rcases b with - | ⟨t', k'⟩
    · exact .inl rfl
    · by_cases h : t' < t
      · exact .inr (by simp [earlier, h])
      · exact .inl (by simp [earlier, h])

theorem earlier_le_left {a b : Option (Nat × Nat)} {t k : Nat} (h : a = some (t, k)) :
    ∃ t' k', earlier a b = some (t', k') ∧ t' ≤ t := by
  subst h
  rcases b with - | ⟨t', k'⟩
  · exact ⟨t, k, rfl, Nat.le_refl _⟩
  · by_cases h : t' < t
    · exact ⟨t', k', by simp [earlier, h], Nat.le_of_lt h⟩
    · exact ⟨t, k, by simp [earlier, h], Nat.le_refl _⟩

theorem earlier_le_right {a b : Option (Nat × Nat)} {t k : Nat} (h : b = some (t, k)) :
    ∃ t' k', earlier a b = some (t', k') ∧ t' ≤ t := by
  subst h
  rcases a with - | ⟨t', k'⟩
  · exact ⟨t, k, rfl, Nat.le_refl _⟩
  · by_cases h : t < t'
    · exact ⟨t, k, by simp [earlier, h], Nat.le_refl _⟩
    · exact ⟨t', k', by simp [earlier, h], Nat.le_of_not_lt h⟩

/-- The earliest of what is due, beginning with `best`. -/
def foldDue (l : List (Session C × Nat)) (best : Option (Nat × Nat)) : Option (Nat × Nat) :=
  l.foldl (fun best (s, k) => earlier best (s.due?.map (·, k))) best

theorem foldDue_le {l : List (Session C × Nat)} {best : Option (Nat × Nat)} {t : Nat}
    (h : (∃ k, best = some (t, k)) ∨ ∃ s k, (s, k) ∈ l ∧ s.due? = some t) :
    ∃ t' k', foldDue l best = some (t', k') ∧ t' ≤ t := by
  induction l generalizing best t with
  | nil =>
    rcases h with ⟨k, h⟩ | ⟨_, _, hm, -⟩
    · exact ⟨t, k, h, Nat.le_refl _⟩
    · cases hm
  | cons p l ih =>
    -- the best so far is no later after the first session, if it had that time or has it
    obtain ⟨s, j⟩ := p
    have hnext : (∃ t', t' ≤ t ∧ ∃ k, earlier best (s.due?.map (·, j)) = some (t', k)) ∨
        ∃ s k, (s, k) ∈ l ∧ s.due? = some t := by
      rcases h with ⟨k, h⟩ | ⟨s', k, hm, hd⟩
      · obtain ⟨t', k', he, hle⟩ := earlier_le_left (b := s.due?.map (·, j)) h
        exact .inl ⟨t', hle, k', he⟩
      · rcases List.mem_cons.mp hm with he | hm
        · cases he
          obtain ⟨t', k', he, hle⟩ := earlier_le_right (a := best) (b := s.due?.map (·, j))
            (t := t) (k := j) (by simp [hd])
          exact .inl ⟨t', hle, k', he⟩
        · exact .inr ⟨s', k, hm, hd⟩
    rcases hnext with ⟨t', hle, hbest⟩ | hl
    · obtain ⟨t'', k, he, hle'⟩ := ih (.inl hbest)
      exact ⟨t'', k, he, Nat.le_trans hle' hle⟩
    · exact ih (.inr hl)

theorem of_foldDue {l : List (Session C × Nat)} {best : Option (Nat × Nat)} {t k : Nat}
    (h : foldDue l best = some (t, k)) :
    best = some (t, k) ∨ ∃ s, (s, k) ∈ l ∧ s.due? = some t := by
  induction l generalizing best with
  | nil => exact .inl h
  | cons p l ih =>
    obtain ⟨s, j⟩ := p
    rcases ih h with hbest | ⟨s', hm, hd⟩
    · rcases earlier_eq_or best (s.due?.map (·, j)) with he | he
      · exact .inl (he.symm.trans hbest)
      · obtain ⟨t', hd, he'⟩ := Option.map_eq_some_iff.mp (he.symm.trans hbest)
        cases he'
        exact .inr ⟨s, List.mem_cons_self, hd⟩
    · exact .inr ⟨s', List.mem_cons_of_mem _ hm, hd⟩

variable {w w' w₁ : World C} {limit t k : Nat}

/-- What is due in a session is not due before what is due first. -/
theorem nextDue?_le {s : Session C} (hs : s ∈ w.sessions) (hd : s.due? = some t) :
    ∃ t' k, w.nextDue? = some (t', k) ∧ t' ≤ t := by
  obtain ⟨j, hj⟩ := List.mem_iff_getElem?.mp hs
  exact foldDue_le (.inr ⟨s, j, List.mem_zipIdx_iff_getElem?.mpr hj, hd⟩)

/-- What is due first is due in a session, and in none before that. -/
theorem nextDue?_eq_some (h : w.nextDue? = some (t, k)) :
    (∃ s, w.sessions[k]? = some s ∧ s.due? = some t) ∧
      ∀ s ∈ w.sessions, ∀ t', s.due? = some t' → t ≤ t' := by
  constructor
  · rcases of_foldDue h with h' | ⟨s, hm, hd⟩
    · cases h'
    · exact ⟨s, List.mem_zipIdx_iff_getElem?.mp hm, hd⟩
  · intro s hs t' hd
    obtain ⟨t₁, k₁, he, hle⟩ := nextDue?_le hs hd
    cases he.symm.trans h
    exact hle

theorem nextDue?_eq_none (h : w.nextDue? = none) : ∀ s ∈ w.sessions, s.due? = none := by
  intro s hs
  rcases hd : s.due? with - | t
  · rfl
  · obtain ⟨_, _, he, -⟩ := nextDue?_le hs hd
    cases he.symm.trans h

variable [Carrier C]

/-! ### Coming to rest -/

/-- The next step of either kind. -/
def go? (w : World C) (limit : Nat) : Option (World C) :=
  match w.stir? with
  | some w => some w
  | none => w.fire? limit

/-- Tasks come first. -/
theorem go?_of_tasks (ht : w.tasks ≠ []) : w.go? limit = some w.step := by
  simp [go?, stir?, ht]

omit [Carrier C] in
theorem unkept?_eq_none : w.unkept? = none ↔
    ∀ k s, w.sessions[k]? = some s → s.gone = false → w.isKept k s = true := by
  simp only [unkept?, Option.map_eq_none_iff, List.find?_eq_none, Prod.forall,
    List.mem_zipIdx_iff_getElem?, Bool.and_eq_true, Bool.not_eq_true', not_and,
    Bool.not_eq_false]
  exact ⟨fun h k s hs => h s k hs, fun h s k hs => h k s hs⟩

theorem stranded?_eq_none : w.stranded? = none ↔
    ∀ (k : Nat) (s : Session C), w.sessions[k]? = some s → s.gone = false →
      s.isStranded = false := by
  simp only [stranded?, List.findIdx?_eq_none_iff, Bool.and_eq_false_imp, Bool.not_eq_true']
  refine ⟨fun h k s hs => h s (List.mem_of_getElem? hs), fun h s hs => ?_⟩
  obtain ⟨k, hk⟩ := List.mem_iff_getElem?.mp hs
  exact h k s hk

/-- A world does nothing at the present moment when no task is left, every session is kept or gone,
and no carrier has lost its connection. -/
theorem stir?_eq_none : w.stir? = none ↔ w.tasks = [] ∧ w.unkept? = none ∧ w.stranded? = none := by
  rcases ht : w.tasks with - | ⟨t, rest⟩
  · rcases hk : w.unkept? with - | k
    · simp [stir?, ht, hk]
    · simp [stir?, ht, hk]
  · simp [stir?, ht]

/-- A world has no next step when, besides, nothing is due up to the limit. -/
theorem go?_eq_none : w.go? limit = none ↔
    w.stir? = none ∧ ∀ s ∈ w.sessions, ∀ t, s.due? = some t → limit < t := by
  rcases hs : w.stir? with - | w₁
  · rcases hd : w.nextDue? with - | ⟨t, k⟩
    · simp only [go?, hs, fire?, hd, true_and, true_iff]
      intro s hs t ht
      cases (nextDue?_eq_none hd s hs).symm.trans ht
    · obtain ⟨⟨s, hk, ht⟩, hmin⟩ := nextDue?_eq_some hd
      by_cases hle : t ≤ limit
      · simp only [go?, hs, fire?, hd, hle, if_true, reduceCtorEq, true_and, false_iff]
        intro h
        exact absurd hle (Nat.not_le_of_lt (h s (List.mem_of_getElem? hk) t ht))
      · simp only [go?, hs, fire?, hd, hle, if_false, true_and, true_iff]
        intro s' hs' t' ht'
        exact Nat.lt_of_lt_of_le (Nat.lt_of_not_le hle) (hmin s' hs' t' ht')
  · simp [go?, hs]

/-- The world when its moment has changed as `pace` says. -/
def paced (pace : Moment → Moment) (w : World C) : World C := { w with now := pace w.now }

/-- The world comes to rest at `limit`, and this is what it is then. -/
inductive Rests (pace : Moment → Moment) (limit : Nat) : World C → World C → Prop
  | rest {w : World C} (h : (w.paced pace).go? limit = none) : Rests pace limit w (w.reach limit)
  | tick {w w₁ w' : World C} (h : (w.paced pace).go? limit = some w₁)
      (rest : Rests pace limit w₁ w') : Rests pace limit w w'

variable {pace : Moment → Moment}

/-- A world comes to rest in one way. -/
theorem Rests.unique {w'' : World C} (h : Rests pace limit w w') (h' : Rests pace limit w w'') :
    w' = w'' := by
  induction h with
  | rest hn =>
    cases h' with
    | rest => rfl
    | tick hs => cases hn.symm.trans hs
  | tick hs _ ih =>
    cases h' with
    | rest hn => cases hn.symm.trans hs
    | tick hs' hr =>
      obtain rfl := Option.some.inj (hs.symm.trans hs')
      exact ih hr

/-- **What `settle` comes to with enough fuel.** -/
theorem Rests.settle (h : Rests Moment.next limit w w') :
    ∃ n, ∀ fuel, n ≤ fuel → w.settle limit fuel = w' := by
  induction h with
  | @rest w hn =>
    refine ⟨1, fun fuel hf => ?_⟩
    obtain ⟨fuel, rfl⟩ := Nat.exists_eq_add_of_le' hf
    have hnone : w.tick? limit = none := hn
    simp only [World.settle, hnone]
  | @tick w w₁ w' hs _ ih =>
    obtain ⟨n, ih⟩ := ih
    refine ⟨n + 1, fun fuel hf => ?_⟩
    obtain ⟨fuel, rfl⟩ : ∃ fuel', fuel = fuel' + 1 := ⟨fuel - 1, by omega⟩
    have hsome : w.tick? limit = some w₁ := hs
    simp only [World.settle, hsome]
    exact ih fuel (by omega)

/-- While a world waits, time may pass up to what is due first. -/
theorem go?_reach {time : Nat} (hstir : w.stir? = none)
    (hdue : ∀ s ∈ w.sessions, ∀ t, s.due? = some t → time ≤ t) :
    (w.reach time).go? limit = w.go? limit := by
  have hstir' : (w.reach time).stir? = none := by
    obtain ⟨ht, hunkept, hstranded⟩ := stir?_eq_none.mp hstir
    exact stir?_eq_none.mpr ⟨ht, hunkept, hstranded⟩
  have hnext : (w.reach time).nextDue? = w.nextDue? := rfl
  rcases hd : w.nextDue? with - | ⟨t, k⟩
  · simp only [go?, hstir, hstir', fire?, hnext, hd]
  · obtain ⟨⟨s, hk, ht⟩, -⟩ := nextDue?_eq_some hd
    have hle : time ≤ t := hdue s (List.mem_of_getElem? hk) t ht
    have hnow : (w.reach time).now.reach t = w.now.reach t := by
      simp [reach, Moment.reach, Nat.max_assoc, Nat.max_eq_right hle]
    simp only [go?, hstir, hstir', fire?, hnext, hd, hnow]
    rfl

/-- It comes to rest as if no time had passed. -/
theorem Rests.of_reach {time : Nat} (hstir : w.stir? = none)
    (hdue : ∀ s ∈ w.sessions, ∀ t, s.due? = some t → time ≤ t) (hle : time ≤ limit)
    (h : Rests id limit (w.reach time) w') : Rests id limit w w' := by
  have hgo : ((w.reach time).paced id).go? limit = (w.paced id).go? limit := go?_reach hstir hdue
  cases h with
  | rest hn =>
    have hend : (w.reach time).reach limit = w.reach limit := by
      simp [reach, Moment.reach, Nat.max_assoc, Nat.max_eq_right hle]
    rw [hend]
    exact .rest (hgo ▸ hn)
  | tick hs hr => exact .tick (hgo ▸ hs) hr

/-! ### What a world does when no task is left -/

/-- The next step of a world without tasks: a session is forgotten, or its carrier is lost, or
something is due. -/
theorem go?_cases (ht : w.tasks = []) (h : w.go? limit = some w₁) :
    (∃ k s, w.sessions[k]? = some s ∧ s.gone = false ∧ w.isKept k s = false ∧
      w₁ = w.modify k Session.forget) ∨
    (∃ k s n, w.sessions[k]? = some s ∧ s.gone = false ∧ s.isStranded = true ∧
      s.attached = some n ∧ w.unkept? = none ∧ w₁ = w.modify k (·.detach w.now)) ∨
    ∃ k s t, w.sessions[k]? = some s ∧ s.due? = some t ∧ t ≤ limit ∧
      (∀ s' ∈ w.sessions, ∀ t', s'.due? = some t' → t ≤ t') ∧ w.stir? = none ∧
      w₁ = ({ w with now := w.now.reach t } : World C).elapse k := by
  unfold go? at h
  split at h
  -- there is something to do at the present moment
  · rename_i w₂ hstir
    obtain rfl := Option.some.inj h
    simp only [stir?, ht, List.isEmpty_nil, Bool.not_true, Bool.false_eq_true, if_false] at hstir
    split at hstir
    · rename_i k hk
      obtain ⟨s, hs, hg, hkept⟩ := of_unkept? hk
      exact .inl ⟨k, s, hs, hg, hkept, (Option.some.inj hstir).symm⟩
    -- every session is kept, and one has lost its carrier
    · rename_i hunkept
      obtain ⟨k, hk, rfl⟩ := Option.map_eq_some_iff.mp hstir
      obtain ⟨hlt, hs, -⟩ := List.findIdx?_eq_some_iff_getElem.mp hk
      simp only [Bool.and_eq_true, Bool.not_eq_true'] at hs
      rcases ha : w.sessions[k].attached with - | n
      · simp [Session.isStranded, ha] at hs
      · exact .inr (.inl ⟨k, w.sessions[k], n, List.getElem?_eq_getElem hlt, hs.1, hs.2, ha,
          hunkept, rfl⟩)
  -- only time moves on
  · rename_i hstir
    unfold fire? at h
    split at h
    · cases h
    · rename_i t k hdue
      split at h
      · rename_i hle
        obtain ⟨⟨s, hs, hd⟩, hmin⟩ := nextDue?_eq_some hdue
        exact .inr (.inr ⟨k, s, t, hs, hd, hle, hmin, hstir, (Option.some.inj h).symm⟩)
      · cases h

/-! ### Every world comes to rest -/

/-- Sessions are wound, and applications use nothing but sockets. -/
structure Orderly (w : World C) : Prop where
  wound : ∀ s ∈ w.sessions, s.Wound
  tame : w.IsTame
  tasks : ∀ t ∈ w.tasks, t.IsTame

/-- How often sessions may do something by themselves up to `limit`. -/
def stamina (limit : Nat) (w : World C) : Nat := (w.sessions.map (Session.stamina limit)).sum

omit [Carrier C] in
theorem stamina_modify {s : Session C} (hs : w.sessions[k]? = some s)
    {f : Session C → Session C} (h : (f s).stamina limit < s.stamina limit) :
    (w.modify k f).stamina limit < w.stamina limit := by
  have hsum := sum_modify (Session.stamina limit) f hs
  rw [stamina, stamina, sessions_modify]
  omega

/-- Steps are ticks of a world in which tasks wait. -/
theorem Runs.rests {w'' : World C} (h : Runs pace w w') (h' : Rests pace limit w' w'') :
    Rests pace limit w w'' := by
  induction h with
  | refl => exact h'
  | @step w w' ht _ ih =>
    exact .tick (go?_of_tasks (w := w.paced pace) ht) (ih h')

/-- Tasks come to an end, and nothing goes on for longer by that. -/
theorem Orderly.ends (h : w.Orderly) (limit : Nat) :
    ∃ w', Runs pace w w' ∧ w'.tasks = [] ∧ w'.Orderly ∧ w'.stamina limit ≤ w.stamina limit := by
  obtain ⟨w', hends⟩ : ∃ w', Ends pace w [] w' :=
    exists_ends h.tame h.tasks (List.append_nil _).symm
  refine ⟨w', hends.runs, hends.tasks, ⟨?_, hends.worked.keeps h.tame, by simp [hends.tasks]⟩, ?_⟩
  · exact hends.worked.kept (fun s now d _ _ hs => hs.does now d) h.wound
  · exact hends.worked.sum_le fun s now d task => Session.stamina_does now s task limit

/-- The next task leaves an orderly world. -/
theorem Orderly.step (h : w.Orderly) {t : Task} {rest : List Task} (ht : w.tasks = t :: rest) :
    w.step.Orderly := by
  have htame : t.IsTame := h.tasks t (by simp [ht])
  have hworked := worked_step ht htame
  obtain ⟨ts, hts, htsTame⟩ := tasks_step_on ht htame
    fun k s _ hs => h.tame s (List.mem_of_getElem? hs)
  refine ⟨hworked.kept (fun s now d _ _ hs => hs.does now d) h.wound, hworked.keeps h.tame, ?_⟩
  intro t' ht'
  rw [hts] at ht'
  rcases List.mem_append.mp ht' with ht' | ht'
  · exact htsTame t' ht'
  · exact h.tasks t' (by simp [ht, ht'])

/-- When the deadline of a session runs out, the task that this sets off closes it. -/
theorem stamina_step_close {s : Session C} {rest : List Task} (ht : w.tasks = .close k :: rest)
    (hs : w.sessions[k]? = some s) (hc : s.isClosed = false) :
    w.step.stamina limit < w.stamina limit := by
  have hsessions : w.step.sessions = w.sessions.modify k (·.does w.now .depart) := by
    rw [sessions_step, ht]
    rfl
  have hsum := sum_modify (Session.stamina limit) (·.does w.now .depart) hs
  have hless := Session.stamina_depart hc w.now limit
  rw [stamina, stamina, hsessions]
  omega

/-- **What a world does by itself when no task is left.** A deed is done to a session, which goes on
for less long after it and takes no program from it, or a session that is open is told to close. -/
theorem does_of_go? (hwound : ∀ s ∈ w.sessions, s.Wound) (ht : w.tasks = [])
    (hgo : w.go? limit = some w₁) :
    (w₁.tasks = [] ∧ w₁.stamina limit < w.stamina limit ∧ ∃ (k : Nat) (now : Moment) (d : Deed C),
      (∀ P, d.Brings P) ∧ w₁.sessions = w.sessions.modify k (·.does now d)) ∨
    ∃ k s, w₁.tasks = [.close k] ∧ w₁.sessions = w.sessions ∧ w.sessions[k]? = some s ∧
      s.isClosed = false := by
  rcases go?_cases ht hgo with
    ⟨k, s, hs, hg, -, rfl⟩ | ⟨k, s, n, hs, hg, -, ha, -, rfl⟩ | ⟨k, s, t, hs, hd, hle, -, -, rfl⟩
  -- a session is forgotten
  · exact .inl ⟨ht, stamina_modify hs (Session.stamina_forget hg limit), k, w.now, .forget,
      fun _ => trivial, rfl⟩
  -- a carrier is lost
  · refine .inl ⟨ht, stamina_modify hs (Session.stamina_detach ha _ limit), k, w.now, .lose n,
      fun _ => trivial, ?_⟩
    exact modify_congr_of_some hs (by simp [Session.does, hg, ha])
  · have hwound' : s.Wound := hwound s (List.mem_of_getElem? hs)
    rcases hb : s.nextBeat with - | b
    · -- its deadline runs out
      have hopen : s.isClosed = false := by
        by_contra hc
        obtain ⟨hb, hdead⟩ := hwound'.silent (by simpa using hc)
        simp [Session.due?, hb, hdead] at hd
      have helapse : (w.reach t).elapse k = (w.reach t).push (.close k) := by
        simp [elapse, reach, hs, hb]
      refine .inr ⟨k, s, ?_⟩
      show ((w.reach t).elapse k).tasks = [.close k] ∧
        ((w.reach t).elapse k).sessions = w.sessions ∧ _
      rw [helapse]
      exact ⟨congrArg (Task.close k :: ·) ht, rfl, hs, hopen⟩
    · -- it sends a heartbeat
      obtain rfl : b = t := by simpa [Session.due?, hb] using hd
      have hdoes (now : Moment) : s.does now .beat = s.beat now := by simp [Session.does, hb]
      have helapse : (w.reach b).elapse k = (w.reach b).modify k (·.beat (w.reach b).now) := by
        simp [elapse, reach, hs, hb]
      refine .inl ?_
      show ((w.reach b).elapse k).tasks = [] ∧ ((w.reach b).elapse k).stamina limit < _ ∧
        ∃ k now, ∃ d : Deed C, _ ∧ ((w.reach b).elapse _).sessions = _
      rw [helapse]
      refine ⟨ht, stamina_modify (w := w.reach b) hs ?_, k, (w.reach b).now, .beat,
        fun _ => trivial, modify_congr_of_some hs (hdoes _).symm⟩
      exact Session.stamina_beat hwound' hb (Nat.le_max_right _ _) hle

/-- **Whatever a world does by itself when no task is left, it goes on for less long.** -/
theorem Orderly.go? (h : w.Orderly) (ht : w.tasks = [])
    (hgo : (w.paced pace).go? limit = some w₁) :
    ∃ w₂, w₂.Orderly ∧ w₂.stamina limit < w.stamina limit ∧
      ∀ w', Rests pace limit w₂ w' → Rests pace limit w w' := by
  rcases does_of_go? (w := w.paced pace) h.wound ht hgo with
    ⟨ht₁, hless, k, now, d, hd, hs₁⟩ | ⟨k, s, ht₁, hs₁, hs, hopen⟩
  -- the session had a deed done to it, and the world is in order as before
  · refine ⟨w₁, ⟨?_, ?_, by simp [ht₁]⟩, hless, fun w' hr => .tick hgo hr⟩
    · rw [hs₁]
      exact forall_modify (fun _ hs => hs.does now d) h.wound k
    · rw [IsTame, hs₁]
      exact forall_modify (fun _ hs => hs.does now (hd _)) h.tame k
  -- the session closes with the next tick
  · have htold : (w₁.paced pace).Orderly := by
      refine ⟨?_, ?_, ?_⟩
      · show ∀ s ∈ w₁.sessions, s.Wound
        rw [hs₁]
        exact h.wound
      · show ∀ s ∈ w₁.sessions, s.Keeps Program.IsTame
        rw [hs₁]
        exact h.tame
      · show ∀ t ∈ w₁.tasks, t.IsTame
        rw [ht₁]
        exact List.forall_mem_singleton.mpr trivial
    have hless : (w₁.paced pace).step.stamina limit < w₁.stamina limit :=
      stamina_step_close (w := w₁.paced pace) ht₁ (hs₁ ▸ hs) hopen
    have hsame : w₁.stamina limit = w.stamina limit := by
      rw [stamina, stamina, hs₁]
      rfl
    refine ⟨_, htold.step ht₁, hsame ▸ hless, fun w' hr => .tick hgo (.tick ?_ hr)⟩
    exact go?_of_tasks (by simp [paced, ht₁])

/-- **A world comes to rest** if its applications use nothing but sockets. -/
theorem exists_rests (h : w.Orderly) : ∃ w', Rests pace limit w w' := by
  generalize hN : w.stamina limit = N
  induction N using Nat.strongRecOn generalizing w with
  | ind N ih =>
    obtain ⟨w₀, hruns, ht, h₀, hle⟩ : ∃ w₀, Runs pace w w₀ ∧ w₀.tasks = [] ∧ w₀.Orderly ∧
      w₀.stamina limit ≤ w.stamina limit := h.ends limit
    rcases hgo : (w₀.paced pace).go? limit with - | w₁
    · exact ⟨_, hruns.rests (.rest hgo)⟩
    · obtain ⟨w₂, h₂, hless, hback⟩ := h₀.go? ht hgo
      obtain ⟨w', hr⟩ := ih (w₂.stamina limit) (by omega) h₂ rfl
      exact ⟨w', hruns.rests (hback w' hr)⟩

end Duplex.World
