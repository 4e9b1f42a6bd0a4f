/-
Duplex/Proofs/World/Advancing.lean

Time goes on in pieces, or all at once.

To advance a world by `n` is to let it settle `n` milliseconds later
(`Advances`).  It does not matter where the way is cut: what is done up to the
cut is what is done first in one go, and a world that rests at the cut goes on
from there as if it had not stopped (`Rests.split`).  So

  advance a, then b  =  advance (a + b)

for the worlds themselves, with their histories, clocks and tasks.

Every session is left to itself on the way
(`session_of_rests`), so it sends a heartbeat at most for every millisecond that
passes, as long as none was overdue.  None is, wherever time passed by advances
alone (`Reached.prompt`).
-/
import Duplex.Proofs.Session.Allowance
import Duplex.Proofs.World.Lone

namespace Duplex

variable {C : Type}

namespace World

/-! ### Cutting the way to rest -/

section Cutting

variable [Carrier C] {w w' w₁ w₂ : World C} {a b limit : Nat}

/-- What is done up to a limit is done first on the way to a later one. -/
theorem go?_of_le (h : w.go? a = some w') (hle : a ≤ b) : w.go? b = some w' := by
  unfold go? at h ⊢
  split at h
  · exact h
  · unfold fire? at h ⊢
    split at h
    · cases h
    · rename_i t k hdue
      split at h
      · rename_i ht
        simpa only [if_pos (Nat.le_trans ht hle)] using h
      · cases h

omit [Carrier C] in
theorem reach_reach (hle : a ≤ b) : (w.reach a).reach b = w.reach b := by
  simp [reach, Moment.reach, Nat.max_assoc, Nat.max_eq_right hle]

/-- **A world that rested on the way goes on as if it had not.** -/
theorem Rests.split (h : Rests Moment.next a w w₁) (hle : a ≤ b)
    (h' : Rests Moment.next b w w₂) : Rests Moment.next b w₁ w₂ := by
  induction h with
  | @rest w hn =>
    obtain ⟨hstir, hdue⟩ := go?_eq_none.mp hn
    have hgo : ((w.reach a).paced Moment.next).go? b = (w.paced Moment.next).go? b :=
      go?_reach (w := w.paced Moment.next) hstir fun s hs t ht => Nat.le_of_lt (hdue s hs t ht)
    cases h' with
    | rest hn' =>
      rw [← reach_reach hle]
      exact .rest (hgo.trans hn')
    | tick hs hr => exact .tick (hgo.trans hs) hr
  | tick hs _ ih =>
    have hs' := go?_of_le hs hle
    cases h' with
    | rest hn => cases hn.symm.trans hs'
    | tick hs'' hr =>
      obtain rfl := Option.some.inj (hs'.symm.trans hs'')
      exact ih hr

end Cutting

/-! ### What an advance makes of a session -/

section Sessions

variable [Carrier C] {w w' w₁ : World C} {s : Session C} {k limit : Nat}
  {pace : Moment → Moment}

/-- A move with which no carrier comes lets a session pass, if heartbeats are sent when due. -/
theorem passes_move {m : Move C} (hs : w.sessions[k]? = some s) (hm : m.isComing = false)
    (hbeat : m = .elapse k → ∀ b, s.nextBeat = some b → b ≤ w.now.time ∧ b ≤ limit) :
    ∃ s', (w.move m).sessions[k]? = some s' ∧ s.Passes limit s' := by
  rcases session_of_before hs m with ⟨-, hs'⟩ | ⟨d, hturn, hs'⟩
  · exact ⟨s, hs', .refl s⟩
  · have hmem : ⟨w.now, s, d⟩ ∈ turnOf k w m := hturn ▸ List.mem_singleton_self _
    obtain ⟨-, -, hd⟩ := mem_turnOf.mp hmem
    refine ⟨_, hs', .turn w.now d (comer?_of_not_coming hm hd s) ?_ (.refl _)⟩
    rintro rfl
    exact hbeat (elapse_of_beat hd)

/-- What a world does by itself lets every session pass. -/
theorem session_of_go? (hgo : w.go? limit = some w₁) (hs : w.sessions[k]? = some s) :
    ∃ s', w₁.sessions[k]? = some s' ∧ s.Passes limit s' := by
  by_cases ht : w.tasks = []
  · rcases go?_cases ht hgo with ⟨j, s₀, -, -, -, rfl⟩ | ⟨j, s₀, n, hs₀, hg, -, ha, -, rfl⟩ |
      ⟨j, s₀, t, hs₀, hd, hle, -, -, rfl⟩
    · exact passes_move (m := .forget j) hs rfl (by simp)
    · have hlose : w.modify j (·.detach w.now) = w.move (.lose j n) := by
        simp [move, live?_eq_some.mpr ⟨hs₀, hg⟩, ha]
      rw [hlose]
      exact passes_move hs rfl (by simp)
    · refine passes_move (w := w.reach t) (m := .elapse j) hs rfl ?_
      -- the session that has something to do does it when it is due
      intro hjk b hb
      obtain rfl := Move.elapse.inj hjk
      obtain rfl := Option.some.inj (hs₀.symm.trans hs)
      obtain rfl : b = t := by simpa [Session.due?, hb] using hd
      exact ⟨Nat.le_max_right _ _, hle⟩
  · rw [go?_of_tasks ht] at hgo
    obtain rfl := Option.some.inj hgo
    exact passes_move (m := .step) hs rfl (by simp)

/-- **On the way to rest every session passes.** -/
theorem session_of_rests (h : Rests pace limit w w') (hs : w.sessions[k]? = some s) :
    ∃ s', w'.sessions[k]? = some s' ∧ s.Passes limit s' := by
  induction h generalizing s with
  | rest => exact ⟨s, hs, .refl s⟩
  | @tick w w₁ w' hgo _ ih =>
    obtain ⟨s₁, hs₁, h₁⟩ := session_of_go? (w := w.paced pace) hgo hs
    obtain ⟨s', hs', h'⟩ := ih hs₁
    exact ⟨s', hs', h₁.trans h'⟩

/-- What a world does by itself takes no turn, and no more time than there is. -/
theorem now_of_go? (hgo : w.go? limit = some w₁) :
    w₁.now.turn = w.now.turn ∧ (w.now.time ≤ limit → w₁.now.time ≤ limit) := by
  by_cases ht : w.tasks = []
  · rcases go?_cases ht hgo with ⟨_, _, -, -, -, rfl⟩ | ⟨_, _, _, -, -, -, -, -, rfl⟩ |
      ⟨j, _, t, -, -, hle, -, -, rfl⟩
    · exact ⟨rfl, fun h => h⟩
    · exact ⟨rfl, fun h => h⟩
    · have hnow : ((w.reach t).elapse j).now = w.now.reach t := by
        unfold elapse
        split
        · rfl
        · rfl
      show ((w.reach t).elapse j).now.turn = _ ∧ (_ → ((w.reach t).elapse j).now.time ≤ limit)
      rw [hnow]
      exact ⟨rfl, fun h => Nat.max_le.mpr ⟨h, hle⟩⟩
  · rw [go?_of_tasks ht] at hgo
    obtain rfl := Option.some.inj hgo
    obtain ⟨_, _, _, hstep⟩ := step_frame w
    rw [hstep]
    exact ⟨rfl, fun h => h⟩

/-- A world that comes to rest is at rest, at the time asked for. -/
theorem Rests.atRest (h : Rests Moment.next limit w w') (hle : w.now.time ≤ limit) :
    w'.now.time = limit ∧ w'.AtRest := by
  induction h with
  | @rest w hn =>
    have htime : (w.reach limit).now.time = limit := Nat.max_eq_right hle
    obtain ⟨hstir, hdue⟩ := go?_eq_none.mp hn
    refine ⟨htime, ?_⟩
    show (w.reach limit).tick? (w.reach limit).now.time = none
    rw [htime]
    exact (go?_reach (w := w.next) hstir fun s hs t ht => Nat.le_of_lt (hdue s hs t ht)).trans hn
  | @tick w w₁ w' hgo _ ih =>
    apply ih
    exact (now_of_go? (w := w.paced Moment.next) hgo).2 hle

end Sessions

/-! ### Advancing -/

section Advances

variable [Carrier C] {w w' w₁ w₂ : World C} {a b n : Nat}

/-- The world goes on for `n` milliseconds, and this is what it is then. -/
def Advances (n : Nat) (w w' : World C) : Prop :=
  ∃ enough, ∀ fuel, enough ≤ fuel → w.settle (w.now.time + n) fuel = w'

/-- With some fuel a world comes to rest, or it takes a turn for each bit of it. -/
theorem rests_or_turns (limit fuel : Nat) (w : World C) :
    Rests Moment.next limit w (w.settle limit fuel) ∨
      (w.settle limit fuel).now.turn = w.now.turn + fuel := by
  induction fuel generalizing w with
  | zero => exact .inr rfl
  | succ fuel ih =>
    unfold settle
    split
    · rename_i w₁ htick
      have hgo : (w.paced Moment.next).go? limit = some w₁ := htick
      rcases ih w₁ with hr | hturn
      · exact .inl (.tick hgo hr)
      · refine .inr ?_
        rw [hturn, (now_of_go? hgo).1]
        show w.now.turn + 1 + fuel = w.now.turn + (fuel + 1)
        omega
    · rename_i htick
      exact .inl (.rest htick)

/-- **To go on for a while is to come to rest** after that time. -/
theorem advances_iff : w.Advances n w' ↔ Rests Moment.next (w.now.time + n) w w' := by
  constructor
  · rintro ⟨enough, h⟩
    -- a world that still takes turns with so much fuel takes another one with more
    rcases rests_or_turns (w.now.time + n) enough w with hr | hturn
    · rwa [h enough (Nat.le_refl _)] at hr
    rcases rests_or_turns (w.now.time + n) (enough + 1) w with hr | hturn'
    · rwa [h (enough + 1) (Nat.le_succ _)] at hr
    · rw [h enough (Nat.le_refl _)] at hturn
      rw [h (enough + 1) (Nat.le_succ _)] at hturn'
      omega
  · exact Rests.settle

theorem Advances.atRest (h : w.Advances n w') :
    w'.now.time = w.now.time + n ∧ w'.AtRest :=
  (advances_iff.mp h).atRest (Nat.le_add_right _ _)

/-- Going on from a cut on the way leads to where the whole way leads. -/
theorem Advances.split (h : w.Advances a w₁) (h' : w.Advances (a + b) w₂) : w₁.Advances b w₂ := by
  rw [advances_iff, h.atRest.1, Nat.add_assoc]
  exact (advances_iff.mp h).split (by omega) (advances_iff.mp h')

theorem Advances.session {s : Session C} {k : Nat} (h : w.Advances n w')
    (hs : w.sessions[k]? = some s) :
    ∃ s', w'.sessions[k]? = some s' ∧ s.Passes (w.now.time + n) s' :=
  session_of_rests (advances_iff.mp h) hs

theorem Advances.unique (h : w.Advances n w₁) (h' : w.Advances n w₂) : w₁ = w₂ :=
  (advances_iff.mp h).unique (advances_iff.mp h')

end Advances

/-! ### Worlds in which time passes by advances -/

section Reached

variable [Carrier C] {w w' : World C} {n : Nat}

/-- The worlds that come about when anything may happen and time passes by advances alone. -/
inductive Reached : World C → Prop
  | empty : Reached {}
  | move {w : World C} (m : Move C) (pass : ∀ time, m ≠ .pass time) (h : Reached w) :
      Reached (w.move m)
  | advance {w w' : World C} {n : Nat} (ha : w.Advances n w') (h : Reached w) : Reached w'

theorem Reached.after (h : Reached w) {ms : List (Move C)}
    (hms : ∀ m ∈ ms, ∀ time, m ≠ .pass time) : Reached (w.after ms) := by
  induction ms generalizing w with
  | nil => exact h
  | cons m ms ih =>
    obtain ⟨hm, hms⟩ := List.forall_mem_cons.mp hms
    exact ih (.move m hm h) hms

/-- They are worlds of runs. -/
theorem Reached.exists_run (h : Reached w) : ∃ ms, w = ({} : World C).after ms := by
  induction h with
  | empty => exact ⟨[], rfl⟩
  | move m _ _ ih =>
    obtain ⟨ms, rfl⟩ := ih
    exact ⟨ms ++ [m], by rw [after_append, after_cons, after_nil]⟩
  | @advance w w' n ha _ ih =>
    obtain ⟨ms, rfl⟩ := ih
    obtain ⟨enough, hsettle⟩ := ha
    obtain ⟨ms', h', -⟩ := exists_settle_eq_after
      ((({} : World C).after ms).now.time + n) enough (({} : World C).after ms)
    exact ⟨ms ++ ms', by rw [after_append, ← h', hsettle enough (Nat.le_refl _)]⟩

/-- What new sessions are, and every deed keeps, the sessions of these worlds are. -/
theorem Reached.session {Q : Session C → Prop} (h : Reached w) (new : ∀ s, s.IsNew → Q s)
    (kept : ∀ s now d, Q s → Q (s.does now d)) {k : Nat} {s : Session C}
    (hs : w.sessions[k]? = some s) : Q s := by
  obtain ⟨ms, rfl⟩ := h.exists_run
  exact session_run (P := fun _ => Q) new (fun _ t => kept t.before t.now t.deed) ms hs

theorem Reached.wound (h : Reached w) : ∀ s ∈ w.sessions, s.Wound := by
  intro s hs
  obtain ⟨k, hk⟩ := List.mem_iff_getElem?.mp hs
  exact h.session (fun _ hn => hn.wound) (fun _ now d hw => hw.does now d) hk

/-- All heartbeats that are due are still to come. -/
def Prompt (w : World C) : Prop := ∀ s ∈ w.sessions, ∀ b, s.nextBeat = some b → w.now.time < b

theorem AtRest.prompt (h : w.AtRest) : w.Prompt := by
  intro s hs b hb
  exact h.due.2 s hs b (by simp [Session.due?, hb])

theorem Prompt.move (h : w.Prompt) (hw : ∀ s ∈ w.sessions, s.Wound) {m : Move C}
    (pass : ∀ time, m ≠ .pass time) : (w.move m).Prompt := by
  intro s' hs' b hb
  rw [time_move w pass]
  obtain ⟨k, hk⟩ := List.mem_iff_getElem?.mp hs'
  rcases session_move hk with ⟨s, hs, ⟨-, rfl⟩ | ⟨d, -, rfl⟩⟩ | ⟨-, -, hnew⟩
  · exact h _ (List.mem_of_getElem? hs) b hb
  · have hmem := List.mem_of_getElem? hs
    cases Session.clocks_does (hw s hmem) w.now d with
    | same hsame => exact h s hmem b (hsame.nextBeat ▸ hb)
    | beats b' _ _ _ hb' hdue _ =>
      obtain rfl := Option.some.inj (hb'.symm.trans hb)
      rcases hdue with hdue | rfl
      · exact h s hmem b' hdue
      · exact Nat.lt_add_of_pos_right s.timing.period_pos
    | waits _ _ _ hnone => cases hnone.symm.trans hb
    | ends _ _ _ hnone => cases hnone.symm.trans hb
  · obtain ⟨_, _, _, _, _, rfl⟩ := hnew
    cases hb

/-- **No heartbeat is overdue where time passes by advances alone.** -/
theorem Reached.prompt (h : Reached w) : w.Prompt := by
  induction h with
  | empty =>
    intro s hs
    cases hs
  | move m pass h ih => exact ih.move h.wound pass
  | advance ha => exact ha.atRest.2.prompt

/-- A session that is left to itself for `n` milliseconds sends `n` heartbeats at most. -/
theorem Reached.heartbeats_le (h : Reached w) (ha : w.Advances n w') {k : Nat} {s : Session C}
    (hs : w.sessions[k]? = some s) :
    ∃ s', w'.sessions[k]? = some s' ∧ s.past <:+ s'.past ∧
      Session.heartbeats (s'.since s) ≤ n := by
  obtain ⟨s', hs', hpass⟩ := ha.session hs
  refine ⟨s', hs', hpass.suffix, ?_⟩
  have hwound : s.Wound := h.wound s (List.mem_of_getElem? hs)
  have harmed : s.Wound ∧ s.Armed := h.session (Q := fun s => s.Wound ∧ s.Armed)
    (fun _ hn => ⟨hn.wound, hn.armed⟩)
    (fun _ now d hd => ⟨hd.1.does now d, hd.2.does hd.1 now d⟩) hs
  have hseat : s.Seated := h.session (fun _ hn => hn.seated) (fun _ now d hd => hd.does now d) hs
  have hless := hpass.allowance_le hwound harmed.2 hseat
  rw [Session.beats_eq_heartbeats hpass.suffix] at hless
  have hleft : s.allowance (w.now.time + n) ≤ n := by
    rcases hb : s.nextBeat with - | b
    · simp only [Session.allowance, hb, Nat.zero_le]
    · have := h.prompt s (List.mem_of_getElem? hs) b hb
      simp only [Session.allowance, hb]
      omega
  omega

/-- The world comes to rest, if its applications use nothing but sockets, or it has one session. -/
theorem Reached.exists_advances (h : Reached w) (ht : w.tasks = [])
    (hw : w.IsTame ∨ w.sessions.length ≤ 1) (n : Nat) : ∃ w', w.Advances n w' := by
  simp only [advances_iff]
  rcases hw with htame | hsingle
  · exact exists_rests ⟨h.wound, htame, by simp [ht]⟩
  · exact Lone.exists_rests ⟨hsingle, h.wound⟩ ht

/-- How a world goes on: it comes to rest after any time, by a way that may be cut anywhere, and
heartbeats on it are no more than milliseconds. -/
structure Advancing (w : World C) : Prop where
  /-- To go on for any time comes to an end, at rest and at that time. -/
  ends : ∀ n, ∃ w', w.Advances n w' ∧ w'.AtRest ∧ w'.now.time = w.now.time + n
  /-- To go on for one time and then for another leads where their sum leads, and nowhere else. -/
  adds : ∀ a b w₁ w₂, w.Advances a w₁ → (w₁.Advances b w₂ ↔ w.Advances (a + b) w₂)
  /-- What happens to a session meanwhile is what happens in the first part, then in the second. -/
  logs : ∀ a b w₁ w₂, w.Advances a w₁ → w₁.Advances b w₂ → ∀ (k : Nat) (s : Session C),
    w.sessions[k]? = some s → ∃ s₁ s₂ : Session C, w₁.sessions[k]? = some s₁ ∧
      w₂.sessions[k]? = some s₂ ∧ s₂.since s = s₁.since s ++ s₂.since s₁
  /-- Histories go on from where they were, with a heartbeat for each millisecond at most. -/
  heartbeats : ∀ n w', w.Advances n w' → ∀ (k : Nat) (s : Session C), w.sessions[k]? = some s →
    ∃ s', w'.sessions[k]? = some s' ∧ s.past <:+ s'.past ∧ Session.heartbeats (s'.since s) ≤ n

/-- **Advancing is additive and finite**, whatever the heartbeat period and the timeout of the
sessions are. -/
theorem advancing_of_reached (h : Reached w) (ht : w.tasks = [])
    (hw : w.IsTame ∨ w.sessions.length ≤ 1) : Advancing w where
  ends n := by
    obtain ⟨w', ha⟩ := h.exists_advances ht hw n
    exact ⟨w', ha, ha.atRest.2, ha.atRest.1⟩
  adds a b w₁ w₂ ha := by
    constructor
    · intro hb
      obtain ⟨w', hab⟩ := h.exists_advances ht hw (a + b)
      rwa [hb.unique (ha.split hab)]
    · exact ha.split
  logs a b w₁ w₂ ha hb k s hs := by
    obtain ⟨s₁, hs₁, h₁⟩ := ha.session hs
    obtain ⟨s₂, hs₂, h₂⟩ := hb.session hs₁
    exact ⟨s₁, s₂, hs₁, hs₂, Session.since_append h₁.suffix h₂.suffix⟩
  heartbeats n w' ha k s hs := h.heartbeats_le ha hs

/-- A session with no time between its heartbeats and no patience, attached to a connection; its
application feeds it at the end. -/
def hasty : List (Move Conduit) :=
  [.make "s" { heartbeat := 0, patience := some 0 }
      (fun k => .onClose k (.feed k "\"late\"" fun _ => .done) .done) none true true,
    .register 0 (.queue {}), .step, .step, .step]

theorem advancing_of_hasty :
    (({} : World Conduit).after hasty).tasks = [] ∧
      Advancing (({} : World Conduit).after hasty) := by
  have hreached : Reached (({} : World Conduit).after hasty) :=
    Reached.empty.after (by simp [hasty])
  have ht : (({} : World Conduit).after hasty).tasks = [] := by
    apply List.isEmpty_iff.mp
    decide +kernel
  exact ⟨ht, advancing_of_reached hreached ht (.inr (by decide +kernel))⟩

end Reached

end World

end Duplex
