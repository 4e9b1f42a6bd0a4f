/-
Duplex/Proofs/Session/Clocks.lean

The two clocks of a session.

Of the heartbeat and the deadline one is set at most: the heartbeat while a
carrier is attached, the deadline while the session waits for one, and neither
when it is over.  `Wound` says so, and holds of every session of every run, also
of those that are written to before they open.

What a deed makes of the clocks is said once, by `Clocks` and `clocks_does`.  A
clock that is set anew is never set to a time that has passed.
-/
import Duplex.Proofs.Session.Closed

namespace Duplex

variable {C : Type}

theorem Timing.period_pos (t : Timing) : 0 < t.period := by
  unfold Timing.period Moment.waited
  split
  · omega
  · decide

namespace Session

/-! ### Winding -/

/-- A heartbeat is due only while a carrier is attached, and a deadline only without one; a session
that is over has neither. -/
structure Wound (s : Session C) : Prop where
  beating : s.nextBeat.isSome → s.attached.isSome
  waiting : s.attached.isSome → s.deadline = none
  closed : s.phase = .closed → s.attached = none
  silent : s.isClosed = true → s.nextBeat = none ∧ s.deadline = none

theorem IsNew.wound {s : Session C} (h : s.IsNew) : s.Wound := by
  obtain ⟨_, _, _, _, _, rfl⟩ := h
  exact ⟨by simp, by simp, by simp, fun _ => ⟨rfl, rfl⟩⟩

/-- Carrier, clocks and phase are the same. -/
structure SameClocks (s s' : Session C) : Prop where
  attached : s'.attached = s.attached
  nextBeat : s'.nextBeat = s.nextBeat
  deadline : s'.deadline = s.deadline
  phase : s'.phase = s.phase
  gone : s'.gone = s.gone

theorem SameOutward.sameClocks {s s' : Session C} (h : SameOutward s s') : SameClocks s s' :=
  ⟨h.attached, h.nextBeat, h.deadline, h.phase, h.gone⟩

theorem SameClocks.refl (s : Session C) : SameClocks s s := ⟨rfl, rfl, rfl, rfl, rfl⟩

theorem SameClocks.isClosed {s s' : Session C} (h : SameClocks s s') :
    s'.isClosed = s.isClosed := by
  rw [Session.isClosed, h.phase, h.gone]
  rfl

/-- What becomes of the clocks of a session. -/
inductive Clocks (now : Moment) (s s' : Session C) : Prop
  | same (h : SameClocks s s')
  /-- A carrier is attached, and a heartbeat is due as before or after a whole period. -/
  | beats (b : Nat) (opened : s.isClosed = false) (open' : s'.isClosed = false)
      (attached : s'.attached.isSome) (nextBeat : s'.nextBeat = some b)
      (due : s.nextBeat = some b ∨ b = now.time + s.timing.period) (deadline : s'.deadline = none)
  /-- No carrier is attached, and the deadline is set. -/
  | waits (opened : s.isClosed = false) (open' : s'.isClosed = false)
      (attached : s'.attached = none) (nextBeat : s'.nextBeat = none)
      (deadline : s'.deadline = some (now.time + s.timing.grace))
  | ends (closed : s'.isClosed = true) (attached : s'.attached = none ∨ s'.attached = s.attached)
      (phase : s'.phase = .closed → s'.attached = none)
      (nextBeat : s'.nextBeat = none) (deadline : s'.deadline = none)

/-- The same with a session that has the same clocks before or after. -/
theorem Clocks.congr {now : Moment} {s₀ s s' s₁ : Session C} (h : Clocks now s s')
    (h₀ : SameClocks s₀ s) (ht : s.timing = s₀.timing) (h₁ : SameClocks s' s₁) :
    Clocks now s₀ s₁ := by
  cases h with
  | same h =>
    exact .same ⟨h₁.attached.trans (h.attached.trans h₀.attached),
      h₁.nextBeat.trans (h.nextBeat.trans h₀.nextBeat),
      h₁.deadline.trans (h.deadline.trans h₀.deadline),
      h₁.phase.trans (h.phase.trans h₀.phase), h₁.gone.trans (h.gone.trans h₀.gone)⟩
  | beats b hs hs' ha hb hdue hd =>
    rw [h₀.nextBeat, ht] at hdue
    exact .beats b (h₀.isClosed ▸ hs) (h₁.isClosed.trans hs') (h₁.attached ▸ ha)
      (h₁.nextBeat.trans hb) hdue (h₁.deadline.trans hd)
  | waits hs hs' ha hb hd =>
    rw [ht] at hd
    exact .waits (h₀.isClosed ▸ hs) (h₁.isClosed.trans hs') (h₁.attached.trans ha)
      (h₁.nextBeat.trans hb) (h₁.deadline.trans hd)
  | ends hc ha hp hb hd =>
    rw [← h₁.attached, ← h₁.phase] at hp
    rw [← h₁.attached, h₀.attached] at ha
    exact .ends (h₁.isClosed.trans hc) ha hp (h₁.nextBeat.trans hb) (h₁.deadline.trans hd)

theorem Clocks.wound {now : Moment} {s s' : Session C} (h : Clocks now s s') (hs : s.Wound) :
    s'.Wound := by
  cases h with
  | same h =>
    refine ⟨?_, ?_, ?_, ?_⟩
    · rw [h.nextBeat, h.attached]
      exact hs.beating
    · rw [h.attached, h.deadline]
      exact hs.waiting
    · rw [h.phase, h.attached]
      exact hs.closed
    · rw [isClosed, h.phase, h.gone, h.nextBeat, h.deadline]
      exact hs.silent
  | beats b _ hopen ha hb _ hd =>
    refine ⟨fun _ => ha, fun _ => hd, fun hp => ?_, fun hc => ?_⟩
    · exact absurd hp (isClosed_eq_false.mp hopen).1
    · rw [hopen] at hc
      cases hc
  | waits _ hopen ha hb _ =>
    refine ⟨by simp [hb], by simp [ha], fun _ => ha, fun hc => ?_⟩
    rw [hopen] at hc
    cases hc
  -- closing stops both clocks
  | ends _ _ hp hb hd => exact ⟨by simp [hb], fun _ => hd, hp, fun _ => ⟨hb, hd⟩⟩

variable [Carrier C]

/-! ### The clocks under one deed -/

/-- A frame to the attached carrier leaves it attached with a heartbeat ahead, or lets it go. -/
theorem push_clocks {s : Session C} {n : Nat} (ha : s.attached = some n) (now : Moment)
    (f : Frame) :
    ((s.push now f).attached = some n ∧
      (s.push now f).nextBeat = some (s.nextBeat.getD (now.time + s.timing.period)) ∧
      (s.push now f).deadline = s.deadline) ∨
    ((s.push now f).attached = none ∧ (s.push now f).nextBeat = none ∧
      (s.push now f).deadline = some (now.time + s.timing.grace)) := by
  rcases hc : s.carriers[n]? with - | c
  · have h : s.push now f = s.detach now := by simp [push, ha, hand, hc]
    rw [h, detach, ha]
    exact .inr ⟨rfl, rfl, rfl⟩
  · rcases push_cases ha hc now f with ⟨-, h⟩ | ⟨-, h⟩
    · rw [h]
      exact .inl ⟨ha, rfl, rfl⟩
    · rw [h]
      exact .inr ⟨rfl, rfl, rfl⟩

theorem isClosed_push (now : Moment) (f : Frame) (s : Session C) :
    (s.push now f).isClosed = s.isClosed := by
  obtain ⟨_, _, _, _, _, h, -⟩ := push_eq now f s
  rw [h]
  rfl

/-- Pushing a frame when a carrier is attached. -/
theorem clocks_push {s s₀ : Session C} {n : Nat} (hs₀ : s₀.isClosed = false)
    (hs : s.isClosed = false) (ha : s.attached = some n) (hd : s.deadline = none)
    (hb : s.nextBeat = none ∨ s.nextBeat = s₀.nextBeat) (ht : s.timing = s₀.timing) (now : Moment)
    (f : Frame) : Clocks now s₀ (s.push now f) := by
  have hopen : (s.push now f).isClosed = false := (isClosed_push now f s).trans hs
  rcases push_clocks ha now f with ⟨h, hb', hd'⟩ | ⟨h, hb', hd'⟩
  · refine .beats _ hs₀ hopen (by simp [h]) hb' ?_ (hd'.trans hd)
    rcases hn : s.nextBeat with - | b
    · exact .inr (by rw [Option.getD_none, ht])
    · rcases hb with hb | hb
      · cases hn.symm.trans hb
      · exact .inl (hb.symm.trans hn)
  · exact .waits hs₀ hopen h hb' (ht ▸ hd')

theorem clocks_attach {s : Session C} (hg : s.gone = false) (n : Nat) (now : Moment) :
    Clocks now s (s.attach now n) := by
  obtain ⟨_, _, hseat, -⟩ := seat_eq now n s
  have seated (hp : s.phase ≠ .closed) : s.isClosed = false ∧ (s.seat now n).isClosed = false := by
    rw [hseat]
    exact ⟨isClosed_eq_false.mpr ⟨hp, hg⟩, isClosed_eq_false.mpr ⟨by simp, hg⟩⟩
  rcases hp : s.phase
  -- a fresh session pushes the opening frame
  · obtain ⟨hs₀, hs₁⟩ := seated (by simp [hp])
    rw [attach_of_fresh hp]
    have hpush : Clocks now s ((s.seat now n).push now .opening) :=
      clocks_push (n := n) hs₀ hs₁ (by rw [hseat]) (by rw [hseat]) (.inl (by rw [hseat]))
        (by rw [hseat]) now _
    exact hpush.congr (.refl s) rfl ⟨rfl, rfl, rfl, rfl, rfl⟩
  -- a live one arms its beat, or pushes what it has queued
  · obtain ⟨hs₀, hs₁⟩ := seated (by simp [hp])
    rw [attach_of_live hp]
    split
    · rw [hseat]
      exact .beats _ hs₀ (isClosed_eq_false.mpr ⟨by simp [armBeat], hg⟩) rfl rfl (.inr rfl) rfl
    · exact clocks_push (s := { s.seat now n with outbound := [] }) (n := n) hs₀ hs₁
        (by rw [hseat]) (by rw [hseat]) (.inl (by rw [hseat])) (by rw [hseat]) now _
  -- a closed one turns the carrier away and leaves its clocks alone
  · rw [attach_of_closed hp]
    obtain ⟨_, _, hh, -⟩ := hand_eq now n .goAway (s.record now (.attached n))
    rw [finish, hh]
    exact .same ⟨rfl, rfl, rfl, hp ▸ rfl, rfl⟩

theorem clocks_write {s : Session C} (hs : s.Wound) (hg : s.gone = false) (now : Moment)
    (message : String) : Clocks now s (s.write now message).1 := by
  by_cases hp : s.phase = .closed
  · rw [write_of_closed hp]
    exact .same ⟨rfl, rfl, rfl, rfl, rfl⟩
  have hs₀ : s.isClosed = false := isClosed_eq_false.mpr ⟨hp, hg⟩
  rcases ha : s.attached with - | n
  · rw [write_of_detached hp ha]
    exact .same ⟨rfl, rfl, rfl, rfl, rfl⟩
  · rw [write_of_attached hp ha]
    exact clocks_push (s := { s.enqueue now message with outbound := [] }) (n := n) hs₀ hs₀ ha
      (hs.waiting (by simp [ha])) (.inr rfl) rfl now _

theorem clocks_detach {s : Session C} {n : Nat} (hs : s.isClosed = false)
    (ha : s.attached = some n) (now : Moment) : Clocks now s (s.detach now) := by
  rw [detach, ha]
  exact .waits hs hs rfl rfl rfl

theorem clocks_beat {s : Session C} (hs : s.Wound) (hb : s.nextBeat.isSome) (now : Moment) :
    Clocks now s (s.beat now) := by
  obtain ⟨n, ha⟩ := Option.isSome_iff_exists.mp (hs.beating hb)
  have hs₀ : s.isClosed = false := by
    by_contra hc
    rw [(hs.silent (by simpa using hc)).1] at hb
    cases hb
  have hd : s.deadline = none := hs.waiting (by simp [ha])
  have hopen := (isClosed_push now .heartbeat s).trans hs₀
  rw [beat]
  rcases push_clocks ha now .heartbeat with ⟨h, -, hd'⟩ | ⟨h, hb', hd'⟩
  · rw [if_pos (by simp [h])]
    obtain ⟨_, _, _, _, _, hpush, -⟩ := push_eq now .heartbeat s
    refine .beats _ hs₀ hopen (by simp [armBeat, h]) rfl (.inr ?_) (hd'.trans hd)
    rw [hpush]
  · rw [if_neg (by simp [h])]
    exact .waits hs₀ hopen h hb' hd'

theorem clocks_depart (now : Moment) (s : Session C) : Clocks now s (s.depart now).1 := by
  obtain ⟨-, h⟩ | ⟨-, _, _, -, h⟩ := depart_cases now s
  · rw [h]
    exact .same ⟨rfl, rfl, rfl, rfl, rfl⟩
  · rw [h]
    exact .ends (by simp [isClosed]) (.inl rfl) (fun _ => rfl) rfl rfl

/-- **What a deed makes of the clocks.** -/
theorem clocks_does {s : Session C} (hs : s.Wound) (now : Moment) (d : Deed C) :
    Clocks now s (s.does now d) := by
  have h := change_does now s d
  generalize s.does now d = s' at h ⊢
  cases h with
  | inward ho => exact .same (sameOutward_does now s ho).sameClocks
  | idle => exact .same ⟨rfl, rfl, rfl, rfl, rfl⟩
  | forget => exact .ends (by simp [forget, isClosed]) (.inr rfl) hs.closed rfl rfl
  | stir n carrier => exact .same ⟨rfl, rfl, rfl, rfl, rfl⟩
  | register carrier hg =>
    exact (clocks_attach (s := s.addCarrier carrier) hg s.carriers.length now).congr
      ⟨rfl, rfl, rfl, rfl, rfl⟩ rfl (.refl _)
  | again n hg _ => exact clocks_attach hg n now
  | lose n hg ha =>
    have hp : s.phase ≠ .closed := fun hp => by cases ha.symm.trans (hs.closed hp)
    exact clocks_detach (isClosed_eq_false.mpr ⟨hp, hg⟩) ha now
  | beat hb => exact clocks_beat hs hb now
  | write message hg => exact clocks_write hs hg now message
  | depart hg => exact clocks_depart now s

theorem Wound.does {s : Session C} (hs : s.Wound) (now : Moment) (d : Deed C) :
    (s.does now d).Wound := (clocks_does hs now d).wound hs

/-- No clock of the session was to run out before that time. -/
structure Ahead (time : Nat) (s : Session C) : Prop where
  nextBeat : ∀ b, s.nextBeat = some b → time ≤ b
  deadline : ∀ d, s.deadline = some d → time ≤ d

omit [Carrier C] in
theorem Ahead.due {time : Nat} {s : Session C} (h : s.Ahead time) {t : Nat}
    (ht : s.due? = some t) : time ≤ t := by
  rcases hb : s.nextBeat with - | b
  · exact h.deadline t (by simpa [due?, hb] using ht)
  · exact h.nextBeat t (by simpa [due?, hb] using ht)

omit [Carrier C] in
/-- Only the clock that shows what is due may run. -/
theorem Wound.ahead {s : Session C} (hs : s.Wound) {time : Nat}
    (h : ∀ t, s.due? = some t → time ≤ t) : s.Ahead time := by
  refine ⟨fun b hb => h b (by simp [due?, hb]), fun d hd => h d ?_⟩
  rcases hb : s.nextBeat with - | b
  · simp [due?, hb, hd]
  · rw [hs.waiting (hs.beating (by simp [hb]))] at hd
    cases hd

theorem Ahead.does {now : Moment} {s : Session C} (h : s.Ahead now.time) (hs : s.Wound)
    (d : Deed C) : (s.does now d).Ahead now.time := by
  cases clocks_does hs now d with
  | same h' =>
    refine ⟨?_, ?_⟩
    · rw [h'.nextBeat]
      exact h.nextBeat
    · rw [h'.deadline]
      exact h.deadline
  | beats b _ _ _ hb hdue hd =>
    refine ⟨fun b' hb' => ?_, by simp [hd]⟩
    obtain rfl := Option.some.inj (hb.symm.trans hb')
    rcases hdue with hdue | rfl
    · exact h.nextBeat b hdue
    · exact Nat.le_add_right _ _
  | waits _ _ _ hb hd =>
    refine ⟨by simp [hb], fun d' hd' => ?_⟩
    obtain rfl := Option.some.inj (hd.symm.trans hd')
    exact Nat.le_add_right _ _
  | ends _ _ _ hb hd => exact ⟨by simp [hb], by simp [hd]⟩

/-! ### How long a session goes on by itself -/

omit [Carrier C]

/-- What a session has still to lose: that something keeps it, that it is open, its carrier. -/
def prospects (s : Session C) : Nat :=
  (!s.gone).toNat + (s.phase != .closed).toNat + s.attached.isSome.toNat

/-- How many heartbeats may come up to `limit`, and one more while none is due. -/
def beatsLeft (limit : Nat) (s : Session C) : Nat :=
  match s.nextBeat with
  | none => limit + 2
  | some b => limit + 1 - b

/-- How often a session may do something by itself up to `limit`. -/
def stamina (limit : Nat) (s : Session C) : Nat := s.prospects * (limit + 3) + s.beatsLeft limit

variable {limit : Nat} {s s' : Session C}

theorem SameClocks.stamina (h : SameClocks s s') : s'.stamina limit = s.stamina limit := by
  rw [Session.stamina, Session.stamina, prospects, prospects, beatsLeft, beatsLeft, h.gone, h.phase,
    h.attached, h.nextBeat]

/-- Whoever has less to lose goes on for less long. -/
theorem stamina_lt_of_prospects (h : s'.prospects < s.prospects) :
    s'.stamina limit < s.stamina limit := by
  have hbeats : s'.beatsLeft limit < limit + 3 := by
    rw [beatsLeft]
    split
    · omega
    · omega
  calc s'.stamina limit < s'.prospects * (limit + 3) + (limit + 3) := Nat.add_lt_add_left hbeats _
    _ = (s'.prospects + 1) * (limit + 3) := (Nat.succ_mul _ _).symm
    _ ≤ s.prospects * (limit + 3) := Nat.mul_le_mul_right _ h
    _ ≤ s.stamina limit := Nat.le_add_right _ _

theorem stamina_lt_of_beats (h : s'.prospects = s.prospects)
    (hb : s'.beatsLeft limit < s.beatsLeft limit) : s'.stamina limit < s.stamina limit := by
  rw [stamina, stamina, h]
  exact Nat.add_lt_add_left hb _

theorem stamina_forget (hg : s.gone = false) (limit : Nat) :
    s.forget.stamina limit < s.stamina limit := by
  apply stamina_lt_of_prospects
  simp only [prospects, forget, hg, Bool.not_true, Bool.not_false, Bool.toNat_true,
    Bool.toNat_false]
  omega

variable [Carrier C]

theorem stamina_detach {n : Nat} (ha : s.attached = some n) (now : Moment) (limit : Nat) :
    (s.detach now).stamina limit < s.stamina limit := by
  apply stamina_lt_of_prospects
  rw [detach, ha]
  simp [prospects, finish, record, ha]

theorem stamina_depart (hc : s.isClosed = false) (now : Moment) (limit : Nat) :
    (s.does now .depart).stamina limit < s.stamina limit := by
  obtain ⟨hp, hg⟩ := isClosed_eq_false.mp hc
  have hp' : (s.does now .depart).phase = .closed := by
    rw [phase_does]
    simp [phaseAfter, hg]
  have hg' : (s.does now .depart).gone = false := (gone_does now s (by simp)).trans hg
  have ha' : (s.does now .depart).attached = none := by
    simp only [does, hg, Bool.false_eq_true, if_false]
    exact (emptied_depart hp now).attached
  apply stamina_lt_of_prospects
  have hopen : (s.phase != .closed) = true := by simpa using hp
  simp only [prospects, hopen, hp', hg, hg', ha', Option.isSome_none, bne_self_eq_false,
    Bool.not_false, Bool.toNat_true, Bool.toNat_false]
  omega

theorem prospects_push (now : Moment) (f : Frame) (s : Session C) :
    (s.push now f).prospects = (!s.gone).toNat + (s.phase != .closed).toNat +
      (s.push now f).attached.isSome.toNat := by
  obtain ⟨_, _, _, _, _, h, -⟩ := push_eq now f s
  rw [h]
  rfl

/-- A frame to the attached carrier does not make a session go on for longer. -/
theorem stamina_push {n : Nat} (ha : s.attached = some n) (now : Moment) (f : Frame)
    (limit : Nat) : (s.push now f).stamina limit ≤ s.stamina limit := by
  have hpros := prospects_push now f s
  rcases push_clocks ha now f with ⟨h, hb, -⟩ | ⟨h, -, -⟩
  · have hsame : (s.push now f).prospects = s.prospects := by
      rw [hpros, h, prospects, ha]
    rw [stamina, stamina, hsame]
    apply Nat.add_le_add_left
    rw [beatsLeft, beatsLeft, hb]
    rcases s.nextBeat with - | b
    · simp only [Option.getD_none]
      omega
    · exact Nat.le_refl _
  · apply Nat.le_of_lt
    apply stamina_lt_of_prospects
    rw [hpros, h, prospects, ha]
    simp

/-- A heartbeat that is sent when it is due is one less to come. -/
theorem stamina_beat (hs : s.Wound) {b : Nat} (hb : s.nextBeat = some b) {now : Moment}
    (hnow : b ≤ now.time) {limit : Nat} (hlimit : b ≤ limit) :
    (s.beat now).stamina limit < s.stamina limit := by
  obtain ⟨n, ha⟩ := Option.isSome_iff_exists.mp (hs.beating (by simp [hb]))
  have hpros := prospects_push now .heartbeat s
  have hperiod := s.timing.period_pos
  rw [beat]
  rcases push_clocks ha now .heartbeat with ⟨h, -, -⟩ | ⟨h, -, -⟩
  · rw [if_pos (by simp [h])]
    obtain ⟨_, _, _, _, _, hpush, -⟩ := push_eq now .heartbeat s
    have ht : (s.push now .heartbeat).timing = s.timing := by rw [hpush]
    apply stamina_lt_of_beats
    · show (s.push now .heartbeat).prospects = _
      rw [hpros, h, prospects, ha]
    · simp only [beatsLeft, armBeat, hb, ht]
      omega
  · rw [if_neg (by simp [h])]
    apply stamina_lt_of_prospects
    rw [hpros, h, prospects, ha]
    simp

/-- Nothing that a task does makes a session go on for longer. -/
theorem stamina_does (now : Moment) (s : Session C) {d : Deed C} (hd : d.isTask = true)
    (limit : Nat) : (s.does now d).stamina limit ≤ s.stamina limit := by
  cases d with
  | note | finishMessage | pause | setHandler | deliver | setFarewell =>
    exact Nat.le_of_eq (sameOutward_does now s (by rfl)).sameClocks.stamina
  | write message =>
    simp only [does]
    split
    · exact Nat.le_refl _
    -- only a write to an attached carrier pushes
    by_cases hp : s.phase = .closed
    · apply Nat.le_of_eq
      rw [write_of_closed hp]
    rcases ha : s.attached with - | n
    · rw [write_of_detached hp ha]
      exact Nat.le_refl _
    · rw [write_of_attached hp ha]
      exact stamina_push (s := { s.enqueue now message with outbound := [] }) ha now _ limit
  | depart =>
    rcases hg : s.gone with - | -
    -- closing ends both clocks, which is a loss of stamina
    · by_cases hp : s.phase = .closed
      · simp [does, hg, depart_of_closed hp]
      · exact Nat.le_of_lt (stamina_depart (isClosed_eq_false.mpr ⟨hp, hg⟩) now limit)
    · simp [does, hg]
  | _ => cases hd

end Session

namespace World

open Session

variable [Carrier C]

/-- **In every run one clock of a session is set at most.** -/
theorem wound_of_run (ms : List (Move C)) {k : Nat} {s : Session C}
    (hs : (({} : World C).after ms).sessions[k]? = some s) : s.Wound :=
  session_run (P := fun _ s => s.Wound) (fun _ h => h.wound)
    (fun _ t h => h.does t.now t.deed) ms hs

end World

end Duplex
