/-
Duplex/Proofs/World/Apart.lean

Worlds in which every session is left to itself.

An application that uses no socket but its own does nothing to other sessions.
`Apart` says so of a whole world: what a session keeps for later, and what waits
to be done, uses the socket of one session and no other.  `IsFor` says of a move
which session it is for.

A move for one session leaves nothing to do but for that session
(`tasks_of_for`), and the other sessions and their entries as they are
(`sessions_of_for`, `entry_of_for`).  So worlds stay apart, whatever is done to
one session after another (`Apart.move`) and whatever their clock does
(`Apart.go?`).
-/
import Duplex.Proofs.World.Rest
import Duplex.Proofs.World.Sockets

namespace Duplex

variable {C : Type}

/-- What session `j` does with its socket, now or later, uses no other socket. -/
structure Session.Minds (j : Nat) (s : Session C) : Prop where
  keeps : s.Keeps (·.On (· = j))
  onOpen : (s.onOpen j).On (· = j)

theorem Session.Minds.does [Carrier C] {j : Nat} {s : Session C} (h : s.Minds j) (now : Moment)
    {d : Session.Deed C} (hd : d.Brings (·.On (· = j))) : (s.does now d).Minds j := by
  obtain ⟨-, -, honOpen⟩ := Session.made_does now s d
  exact ⟨h.keeps.does now hd, honOpen ▸ h.onOpen⟩

namespace World

/-- The move is for session `j`: it is done to it, or by a program that uses its socket alone. -/
def IsFor (w : World C) (j : Nat) : Move C → Prop
  | .step => ∃ t rest, w.tasks = t :: rest ∧ t.On (· = j)
  | .call program => program.On (· = j)
  | .hold k _ | .introduce k _ | .register k _ | .again k _ | .stir k _ _ | .lose k _ | .feed k _
  | .close k | .elapse k | .forget k => k = j
  | .next | .pass _ | .make .. | .closeAll | .shutdown => False

/-- Every session is left to itself: its application uses its own socket, and so does all that
waits.  No clock was to run out before the present moment. -/
structure Apart (w : World C) : Prop where
  minds : ∀ j (s : Session C), w.sessions[j]? = some s → s.Minds j
  clocks : ∀ s ∈ w.sessions, s.Wound ∧ s.Ahead w.now.time
  tasks : ∀ t ∈ w.tasks, ∃ j, t.On (· = j)

variable [Carrier C] {w w₁ : World C} {m : Move C} {j k limit : Nat}

/-! ### Moves for one session -/

omit [Carrier C] in
theorem deed_of_for (hm : w.IsFor j m) {i : Nat} {d : Session.Deed C}
    (hd : m.deed? w.tasks = some (i, d)) : i = j ∧ d.Brings (·.On (· = j)) := by
  cases m with
  | step =>
    obtain ⟨t, rest, ht, hon⟩ := hm
    obtain ⟨t', rest', ht', hd'⟩ := Move.deed?_step.mp hd
    obtain ⟨rfl, -⟩ := List.cons.inj (ht.symm.trans ht')
    obtain ⟨hi, -, hbrings⟩ := hon.deed hd'
    exact ⟨hi, hbrings⟩
  | feed i' payload =>
    obtain ⟨messages, -, he⟩ := Option.map_eq_some_iff.mp hd
    cases he
    exact ⟨hm, trivial⟩
  | hold | introduce | register | again | stir | lose | elapse | forget =>
    cases hd
    exact ⟨hm, trivial⟩
  | next | pass | call | make | close | closeAll | shutdown => cases hd

/-- It does nothing to the sessions, or one deed to the session it is for. -/
theorem sessions_of_for (hm : w.IsFor j m) :
    (w.move m).sessions = w.sessions ∨ ∃ d : Session.Deed C, d.Brings (·.On (· = j)) ∧
      (w.move m).sessions = w.sessions.modify j (·.does w.now d) := by
  have hsame : (w.move m).sessions = w.doneTo (m.deed? w.tasks) := by
    cases m with
    | make => exact hm.elim
    | _ => exact sessions_of_not_making w rfl
  rw [hsame]
  rcases hd : m.deed? w.tasks with - | ⟨i, d⟩
  · exact .inl rfl
  · obtain ⟨rfl, hbrings⟩ := deed_of_for hm hd
    exact .inr ⟨d, hbrings, rfl⟩

theorem session_of_for (hm : w.IsFor j m) (hk : k ≠ j) :
    (w.move m).sessions[k]? = w.sessions[k]? := by
  rcases sessions_of_for hm with h | ⟨d, -, h⟩
  · rw [h]
  · rw [h, List.getElem?_modify_ne _ _ (Ne.symm hk)]

theorem now_of_for (hm : w.IsFor j m) : (w.move m).now = w.now := by
  have other (m' : Move C) (hm' : ¬w.IsFor j m') : m ≠ m' := by
    rintro rfl
    exact hm' hm
  obtain ⟨_, _, _, _, h⟩ :=
    move_frame w (other .next id) (fun time => other (.pass time) id) (other .shutdown id)
  rw [h]

/-- The entries of the other sessions stay. -/
theorem entry_of_for (hm : w.IsFor j m) (hk : k ≠ j) :
    (w.move m).registry.filter (·.2 == k) = w.registry.filter (·.2 == k) := by
  rcases registry_move w m with h | ⟨_, _, _, _, _, rfl, -⟩ | ⟨i, rest, rfl, ht, h⟩
  · rw [h]
  · exact hm.elim
  · obtain ⟨t, rest', ht', hon⟩ := hm
    obtain ⟨rfl, -⟩ := List.cons.inj (ht.symm.trans ht')
    obtain rfl : i = j := hon
    rw [h, List.filter_filter]
    apply List.filter_congr
    intro e _
    by_cases he : e.2 = k
    · simp [he, hk]
    · simp [he]

omit [Carrier C] in
/-- It asks no other session to close. -/
theorem asks_of_for (hm : w.IsFor j m) (h : m.Asks k w) : k = j := by
  cases m with
  | step =>
    obtain ⟨t, rest, ht, hon⟩ := hm
    obtain ⟨p, rest', ht', hasks⟩ := h
    obtain ⟨rfl, -⟩ := List.cons.inj (ht.symm.trans ht')
    exact Program.On.of_asks hon hasks
  | close i => exact h.symm.trans hm
  | feed i payload => exact h.1.symm.trans hm
  | elapse i => exact h.1.symm.trans hm
  | closeAll | shutdown => exact hm.elim
  | _ => exact h.elim

/-- What it leaves to do is for the same session. -/
theorem tasks_of_for (hm : w.IsFor j m) (hw : ∀ s, w.sessions[j]? = some s → s.Minds j) :
    ∃ ts, (w.move m).tasks = ts ++ m.rest w.tasks ∧ ∀ t ∈ ts, t.On (· = j) := by
  obtain ⟨ts, hleaves, hts⟩ := leaves_move w m
  -- a step is the work of a task, and what that leaves is known
  cases hleaves with
  | task top leaves =>
    obtain ⟨t, rest, ht, hon⟩ := hm
    obtain ⟨ts, hts, hall⟩ := tasks_step_on ht hon (by
      rintro k s rfl hs
      exact (hw s hs).keeps)
    exact ⟨ts, by rw [Move.rest, ht]; exact hts, hall⟩
  | none => exact ⟨[], hts, by simp⟩
  | call => exact ⟨_, hts, List.forall_mem_singleton.mpr hm⟩
  | opens deed live =>
    obtain ⟨rfl, -⟩ := deed_of_for hm deed
    exact ⟨_, hts, List.forall_mem_singleton.mpr (hw _ (live?_eq_some.mp live).1).onOpen⟩
  | wakes deed => exact ⟨_, hts, List.forall_mem_singleton.mpr (deed_of_for hm deed).1⟩
  | asks asks => exact ⟨_, hts, List.forall_mem_singleton.mpr (asks_of_for hm asks)⟩
  | general general =>
    cases m with
    | closeAll | shutdown => exact hm.elim
    | _ => cases general

/-- **What is done to one session leaves a world apart.** -/
theorem Apart.move (h : w.Apart) (hm : w.IsFor j m) : (w.move m).Apart := by
  refine ⟨?_, ?_, ?_⟩
  -- the session that the move is for minds its socket as before, the others are the same
  · intro i s hs
    rcases sessions_of_for hm with he | ⟨d, hd, he⟩
    · exact h.minds i s (he ▸ hs)
    · rw [he, List.getElem?_modify] at hs
      obtain ⟨s₀, hs₀, rfl⟩ := Option.map_eq_some_iff.mp hs
      split
      · rename_i hij
        subst hij
        exact (h.minds _ s₀ hs₀).does w.now hd
      · exact h.minds i s₀ hs₀
  -- no time passes, so no clock falls behind
  · rw [now_of_for hm]
    intro s hs
    rcases sessions_of_for hm with he | ⟨d, -, he⟩
    · exact h.clocks s (he ▸ hs)
    · rw [he] at hs
      exact forall_modify (fun _ hs => ⟨hs.1.does w.now d, hs.2.does hs.1 d⟩) h.clocks j s hs
  · obtain ⟨ts, hts, hall⟩ := tasks_of_for hm (h.minds j)
    intro t ht
    rw [hts] at ht
    rcases List.mem_append.mp ht with ht | ht
    · exact ⟨j, hall t ht⟩
    · exact h.tasks t ((m.suffix_rest w.tasks).mem ht)

/-! ### The clock -/

omit [Carrier C] in
theorem Apart.paced (h : w.Apart) {pace : Moment → Moment}
    (hpace : (pace w.now).time = w.now.time) : (w.paced pace).Apart :=
  ⟨h.minds, fun s hs => by rw [World.paced, hpace]; exact h.clocks s hs, h.tasks⟩

omit [Carrier C] in
/-- Time may pass as long as nothing is due. -/
theorem Apart.reach (h : w.Apart) {time : Nat}
    (hdue : ∀ s ∈ w.sessions, ∀ t, s.due? = some t → time ≤ t) : (w.reach time).Apart := by
  refine ⟨h.minds, ?_, h.tasks⟩
  intro s hs
  obtain ⟨hwound, hahead⟩ := h.clocks s hs
  refine ⟨hwound, hwound.ahead fun t ht => ?_⟩
  exact Nat.max_le.mpr ⟨hahead.due ht, hdue s hs t ht⟩

/-- To let an attached carrier go is the move made for it. -/
theorem move_lose {s : Session C} {n : Nat} (hs : w.sessions[k]? = some s) (hg : s.gone = false)
    (ha : s.attached = some n) : w.move (.lose k n) = w.modify k (·.detach w.now) := by
  simp [move, live?_eq_some.mpr ⟨hs, hg⟩, ha]

/-- What a world does next it does for one session, when some time has passed perhaps. -/
theorem Apart.go?_eq_move (h : w.Apart) (hgo : w.go? limit = some w₁) :
    ∃ time ≤ limit, ∃ j m, (∀ s ∈ w.sessions, ∀ t, s.due? = some t → time ≤ t) ∧ w.IsFor j m ∧
      w₁ = (w.reach time).move m := by
  have now {j : Nat} {m : Move C} (hm : w.IsFor j m) (he : w₁ = w.move m) :
      ∃ time ≤ limit, ∃ j m, (∀ s ∈ w.sessions, ∀ t, s.due? = some t → time ≤ t) ∧ w.IsFor j m ∧
        w₁ = (w.reach time).move m := by
    have hsame : w.reach 0 = w := by simp [World.reach, Moment.reach]
    exact ⟨0, Nat.zero_le limit, j, m, fun _ _ t _ => Nat.zero_le t, hm, by rw [hsame, he]⟩
  rcases ht : w.tasks with - | ⟨t, rest⟩
  · rcases go?_cases ht hgo with
      ⟨j, s, hs, hg, -, rfl⟩ | ⟨j, s, n, hs, hg, -, ha, -, rfl⟩ |
      ⟨j, s, t, hs, hd, hle, hmin, -, rfl⟩
    · exact now (m := .forget j) rfl rfl
    · exact now (m := .lose j n) rfl (move_lose hs hg ha).symm
    · exact ⟨t, hle, j, .elapse j, hmin, rfl, rfl⟩
  · have hstep : w.go? limit = some w.step := go?_of_tasks (by simp [ht])
    obtain ⟨j, hj⟩ := h.tasks t (by simp [ht])
    exact now (m := .step) ⟨t, rest, ht, hj⟩ (Option.some.inj (hgo.symm.trans hstep))

/-- **Whatever its clock does leaves a world apart.** -/
theorem Apart.go? (h : w.Apart) (hgo : w.go? limit = some w₁) : w₁.Apart := by
  obtain ⟨time, -, j, m, hdue, hm, rfl⟩ := h.go?_eq_move hgo
  exact (h.reach hdue).move hm

/-- So does coming to rest. -/
theorem Apart.rests {pace : Moment → Moment} (hpace : ∀ m, (pace m).time = m.time)
    (h : w.Apart) (hr : Rests pace limit w w₁) : w₁.Apart := by
  induction hr with
  | @rest w hn =>
    obtain ⟨-, hlater⟩ := go?_eq_none.mp hn
    exact h.reach fun s hs t ht => Nat.le_of_lt (hlater s hs t ht)
  | tick hs _ ih => exact ih ((h.paced (hpace _)).go? hs)

/-- What the moves for single sessions keep at every time is kept until a world is at rest. -/
theorem Apart.rests_of_kept {pace : Moment → Moment} (hpace : ∀ m, (pace m).time = m.time)
    {P : World C → Prop} (now : ∀ w m, P w → P { w with now := m })
    (move : ∀ w j m, IsFor w j m → P w → P (w.move m))
    (h : w.Apart) (hr : Rests pace limit w w₁) (hw : P w) : P w₁ := by
  induction hr with
  | rest => exact now _ _ hw
  | tick hs _ ih =>
    have hpaced := h.paced (hpace _)
    obtain ⟨time, -, j, m, -, hm, he⟩ := hpaced.go?_eq_move hs
    refine ih (hpaced.go? hs) ?_
    rw [he]
    exact move _ j m hm (now _ _ (now _ _ hw))

/-- A world that has come to rest is there, and has nothing to do. -/
theorem Apart.at_rest {pace : Moment → Moment} (hpace : ∀ m, (pace m).time = m.time)
    (h : w.Apart) (hr : Rests pace limit w w₁) (hle : w.now.time ≤ limit) :
    w₁.now.time = limit ∧ w₁.go? limit = none := by
  induction hr with
  | @rest w hn =>
    obtain ⟨hstir, hlater⟩ := go?_eq_none.mp hn
    obtain ⟨ht, hunkept, hstranded⟩ := stir?_eq_none.mp hstir
    exact ⟨Nat.max_eq_right hle,
      go?_eq_none.mpr ⟨stir?_eq_none.mpr ⟨ht, hunkept, hstranded⟩, hlater⟩⟩
  | @tick w w₁ w' hs _ ih =>
    have hpaced := h.paced (hpace w.now)
    refine ih (hpaced.go? hs) ?_
    obtain ⟨time, htime, j, m, -, hm, rfl⟩ := hpaced.go?_eq_move hs
    rw [now_of_for (w := (w.paced pace).reach time) hm]
    exact Nat.max_le.mpr ⟨hpace w.now ▸ hle, htime⟩

omit [Carrier C] in
theorem Apart.orderly (h : w.Apart) : w.Orderly := by
  refine ⟨fun s hs => (h.clocks s hs).1, ?_, ?_⟩
  · intro s hs
    obtain ⟨j, hj⟩ := List.mem_iff_getElem?.mp hs
    have hkeeps := (h.minds j s hj).keeps
    exact ⟨fun n f hf m => (hkeeps.handler n f hf m).isTame,
      fun n p hp => (hkeeps.farewell n p hp).isTame⟩
  · intro t ht
    obtain ⟨j, hj⟩ := h.tasks t ht
    cases t with
    | act p => exact Program.On.isTame hj
    | _ => trivial

end World

end Duplex
