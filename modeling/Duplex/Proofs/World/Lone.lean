/-
Duplex/Proofs/World/Lone.lean

A session that is alone comes to rest, whatever its application does.

An application may feed its own sessions, as their clients would, and sessions
that go on feeding each other never come to rest.  A session that is alone is
safe from that while it is left to itself: all that its application hears of it
then is that it closes, and a session that is closed takes nothing in.

Among sessions that are over (`Muted`) every program comes to its end, whatever
it does (`fades_act`), and nothing but forgetting is left to do after it.
-/
import Duplex.Proofs.World.Rest

namespace Duplex.World

open Session (Deed)

variable {C : Type}

/-- Every session is over, and its clocks are silent. -/
def Muted (w : World C) : Prop := ∀ s ∈ w.sessions, s.isClosed = true ∧ s.Wound

/-- No session has another one beside it. -/
structure Lone (w : World C) : Prop where
  single : w.sessions.length ≤ 1
  wound : ∀ s ∈ w.sessions, s.Wound

variable {w w' w₁ : World C} {s : Session C} {k limit : Nat} {t : Task} {ts rest : List Task}

/-- A session that is kept among those that are over is closed. -/
theorem Muted.closed (h : w.Muted) (hs : w.sessions[k]? = some s) (hg : s.gone = false) :
    s.phase = .closed := by
  simpa [Session.isClosed, hg] using (h s (List.mem_of_getElem? hs)).1

/-- Where there is one session and it is over, all of them are. -/
theorem Lone.muted (h : w.Lone) (hs : w.sessions[k]? = some s) (hc : s.isClosed = true) :
    w.Muted := by
  intro s' hs'
  obtain ⟨i, hi⟩ := List.mem_iff_getElem?.mp hs'
  obtain ⟨hk, -⟩ := List.getElem?_eq_some_iff.mp hs
  obtain ⟨hlt, -⟩ := List.getElem?_eq_some_iff.mp hi
  have hsingle := h.single
  obtain rfl : i = k := by omega
  obtain rfl := Option.some.inj (hs.symm.trans hi)
  exact ⟨hc, h.wound s hs'⟩

variable [Carrier C]

variable {now : Moment} {d : Deed C}

/-- Sessions that are over stay so. -/
theorem Muted.does (h : w.Muted) (hw : w'.sessions = w.sessions.modify k (·.does now d)) :
    w'.Muted := by
  rw [Muted, hw]
  exact forall_modify (fun _ hs => ⟨Session.isClosed_does hs.1 now d, hs.2.does now d⟩) h k

theorem Muted.step (h : w.Muted) : w.step.Muted := by
  have hstep := sessions_step w
  rcases hd : (w.tasks.head?.bind Task.deed? : Option (Nat × Deed C)) with - | ⟨k, d⟩
  · rw [hd] at hstep
    rw [Muted, hstep]
    exact h
  · rw [hd] at hstep
    exact h.does hstep

/-- A session that is alone stays so. -/
theorem Lone.does (h : w.Lone) (hw : w'.sessions = w.sessions.modify k (·.does now d)) :
    w'.Lone := by
  refine ⟨?_, ?_⟩
  · rw [hw, List.length_modify]
    exact h.single
  · rw [hw]
    exact forall_modify (fun _ hs => hs.does now d) h.wound k

/-! ### Programs among sessions that are over -/

variable {pace : Moment → Moment}

/-- Some steps among sessions that are over, after which the tasks `rest` are left. -/
structure Fading (pace : Moment → Moment) (w : World C) (rest : List Task) (w' : World C) :
    Prop where
  runs : Runs pace w w'
  tasks : w'.tasks = rest
  muted : w'.Muted

variable (C pace) in
/-- Among sessions that are over the task comes to an end, whatever waits under it. -/
def Fades (t : Task) : Prop :=
  ∀ (w : World C) (rest : List Task), w.Muted → w.tasks = t :: rest → ∃ w', Fading pace w rest w'

/-- Tasks come to an end one after another. -/
theorem fading_of_each (each : ∀ t ∈ ts, Fades C pace t) (h : w.Muted)
    (ht : w.tasks = ts ++ rest) : ∃ w', Fading pace w rest w' := by
  induction ts generalizing w with
  | nil => exact ⟨w, .refl w, ht, h⟩
  | cons t ts ih =>
    obtain ⟨w₁, h₁⟩ := each t List.mem_cons_self w (ts ++ rest) h ht
    obtain ⟨w₂, h₂⟩ := ih (fun t' ht' => each t' (List.mem_cons_of_mem t ht')) h₁.muted h₁.tasks
    exact ⟨w₂, h₁.runs.trans h₂.runs, h₂.tasks, h₂.muted⟩

/-- A task comes to an end if all that its step leaves to do does. -/
theorem fades_of_step (step : ∀ (w : World C) (rest : List Task), w.Muted → w.tasks = t :: rest →
    ∃ ts, w.step.tasks = ts ++ rest ∧ ∀ t' ∈ ts, Fades C pace t') : Fades C pace t := by
  intro w rest h ht
  have hpaced : (w.paced pace).Muted := h
  obtain ⟨ts, hts, each⟩ := step (w.paced pace) rest hpaced ht
  obtain ⟨w', h'⟩ := fading_of_each each hpaced.step hts
  exact ⟨w', .step (by simp [ht]) h'.runs, h'.tasks, h'.muted⟩

theorem fades_drain (k : Nat) : Fades C pace (.drain k) := by
  apply fades_of_step
  intro w rest h ht
  simp only [World.step, ht]
  rcases tasks_drain { w with tasks := rest } k with hts | ⟨s, message, p, s', hl, hd, -⟩
  · exact ⟨[], hts, by simp⟩
  · obtain ⟨hs, hg⟩ := live?_eq_some.mp hl
    simp [Session.deliver?, h.closed hs hg] at hd

theorem fades_close (k : Nat) : Fades C pace (.close k) := by
  apply fades_of_step
  intro w rest h ht
  simp only [World.step, ht]
  rcases tasks_close { w with tasks := rest } k with hts | ⟨s, n, p, hl, hp, -, -⟩
  · exact ⟨[], hts, by simp⟩
  · obtain ⟨hs, hg⟩ := live?_eq_some.mp hl
    exact absurd (h.closed hs hg) hp

/-- **Among sessions that are over every program comes to its end.** -/
theorem fades_act (p : Program) : Fades C pace (.act p) := by
  induction p using Program.part_wellFounded.induction with
  | _ p ih =>
    apply fades_of_step
    intro w rest _ ht
    obtain ⟨ts, hleaves, hts⟩ := leaves_perform { w with tasks := rest } p
    refine ⟨ts, by simpa only [World.step, ht] using hts, ?_⟩
    cases hleaves with
    | done => simp
    | rest left => simpa using ih _ (.next left)
    | drain left => simpa using ⟨fades_drain _, ih _ (.next left)⟩
    | close left => simpa using ⟨fades_close _, ih _ (.next left)⟩
    | farewell => simpa using ⟨ih _ .farewell, ih _ (.next .onClose)⟩

/-! ### Rest -/

/-- Sessions that are over come to rest. -/
theorem Muted.exists_rests (h : w.Muted) (ht : w.tasks = []) : ∃ w', Rests pace limit w w' := by
  generalize hN : w.stamina limit = N
  induction N using Nat.strongRecOn generalizing w with
  | ind N ih =>
    rcases hgo : (w.paced pace).go? limit with - | w₁
    · exact ⟨_, .rest hgo⟩
    have hpaced : (w.paced pace).Muted := h
    rcases does_of_go? (fun s hs => (hpaced s hs).2) ht hgo with
      ⟨ht₁, hless, k, now, d, -, hs₁⟩ | ⟨k, s, -, -, hs, hopen⟩
    · obtain ⟨w', hr⟩ := ih _ (hN ▸ hless) (hpaced.does hs₁) ht₁ rfl
      exact ⟨w', .tick hgo hr⟩
    · -- none is left that could close
      rw [(h s (List.mem_of_getElem? hs)).1] at hopen
      cases hopen

/-- A session that is alone and is to close comes to rest. -/
theorem Lone.exists_rests_of_close (h : w.Lone) (hs : w.sessions[k]? = some s)
    (ht : w.tasks = [.close k]) : ∃ w', Rests pace limit w w' := by
  have hsessions : (w.stepAt pace).sessions =
      w.sessions.modify k (·.does (pace w.now) .depart) := by
    rw [stepAt, sessions_step]
    simp only [ht]
    rfl
  have hmuted : (w.stepAt pace).Muted := by
    obtain ⟨s', hs', hc⟩ := isClosed_of_close (w := w.paced pace) hs (by simp [paced, ht])
    exact (h.does hsessions).muted hs' hc
  obtain ⟨ts, hts, each⟩ : ∃ ts, (w.stepAt pace).tasks = ts ++ [] ∧ ∀ t ∈ ts, Fades C pace t := by
    simp only [stepAt, step, ht]
    rcases tasks_close ({ w with now := pace w.now, tasks := [] } : World C) k with
      hts | ⟨_, _, p, -, -, -, hts⟩
    · exact ⟨[], hts, by simp⟩
    · exact ⟨[.act p], hts, by simpa using fades_act p⟩
  obtain ⟨w₁, h₁⟩ := fading_of_each each hmuted hts
  obtain ⟨w', hr⟩ := h₁.muted.exists_rests h₁.tasks
  exact ⟨w', (Runs.step (by simp [ht]) h₁.runs).rests hr⟩

/-- **A session that is alone comes to rest**, whatever its application does. -/
theorem Lone.exists_rests (h : w.Lone) (ht : w.tasks = []) : ∃ w', Rests pace limit w w' := by
  generalize hN : w.stamina limit = N
  induction N using Nat.strongRecOn generalizing w with
  | ind N ih =>
    rcases hgo : (w.paced pace).go? limit with - | w₁
    · exact ⟨_, .rest hgo⟩
    have hpaced : (w.paced pace).Lone := ⟨h.single, h.wound⟩
    obtain ⟨w', hr⟩ : ∃ w', Rests pace limit w₁ w' := by
      rcases does_of_go? hpaced.wound ht hgo with
        ⟨ht₁, hless, k, now, d, -, hs₁⟩ | ⟨k, s, ht₁, hs₁, hs, -⟩
      · exact ih _ (hN ▸ hless) (hpaced.does hs₁) ht₁ rfl
      · have h₁ : w₁.Lone := ⟨hs₁ ▸ h.single, hs₁ ▸ h.wound⟩
        exact h₁.exists_rests_of_close (hs₁ ▸ hs) ht₁
    exact ⟨w', .tick hgo hr⟩

end Duplex.World
