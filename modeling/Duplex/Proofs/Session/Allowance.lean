/-
Duplex/Proofs/Session/Allowance.lean

How many heartbeats a session may still send.

While a carrier is attached a heartbeat is due (`Armed`), and each one that is
sent puts the next one off by a period, which is a millisecond at least.  So up
to a limit a session sends one heartbeat at most for every millisecond that is
left when the next one is due: with every deed but the coming of a carrier,

  beats so far + allowance up to the limit

does not grow (`allowance_does`).  So it is with a session that is left to
itself for some time (`Passes`): its history goes on from where it was, and the
heartbeats in it are no more than were due.
-/
import Duplex.Proofs.Session.Heartbeats

namespace Duplex.Session

variable {C : Type}

/-- While a carrier is attached to a session that goes on, a heartbeat is due. -/
def Armed (s : Session C) : Prop :=
  s.isClosed = false → s.attached.isSome → s.nextBeat.isSome

/-- How many heartbeats were handed over. -/
def beats (s : Session C) : Nat := s.handed.countP (·.2 == .heartbeat)

/-- What happened to a session since it was `s`, in order of time. -/
def since (s' s : Session C) : List (Moment × Event) :=
  (s'.past.take (s'.past.length - s.past.length)).reverse

/-- How many heartbeats were handed over in these events. -/
def heartbeats (es : List (Moment × Event)) : Nat :=
  (es.filterMap (·.2.handed?)).countP (·.2 == .heartbeat)

/-- How many heartbeats may come up to `limit` if no carrier does. -/
def allowance (limit : Nat) (s : Session C) : Nat :=
  match s.nextBeat with
  | none => 0
  | some b => limit + 1 - b

theorem IsNew.armed {s : Session C} (h : s.IsNew) : s.Armed := by
  obtain ⟨_, _, _, _, _, rfl⟩ := h
  intro _ ha
  cases ha

variable [Carrier C] {s : Session C} {now : Moment} {limit : Nat}

theorem Armed.does (h : s.Armed) (hs : s.Wound) (now : Moment) (d : Deed C) :
    (s.does now d).Armed := by
  intro hopen ha
  cases clocks_does hs now d with
  | same h' =>
    rw [h'.nextBeat]
    exact h (h'.isClosed ▸ hopen) (h'.attached ▸ ha)
  | beats b _ _ _ hb => rw [hb]; rfl
  | waits _ _ hnone => rw [hnone] at ha; cases ha
  | ends hc => exact absurd hopen (by rw [hc]; decide)

/-- A session without a carrier has none after a deed with which none comes. -/
theorem attached_does_of_none {d : Deed C} (hc : s.comer? d = none) (ha : s.attached = none)
    (hb : s.nextBeat = none) : (s.does now d).attached = none := by
  have h := change_does now s d
  generalize s.does now d = s' at h ⊢
  cases h with
  | inward ho => exact (sameOutward_does now s ho).attached.trans ha
  | idle | forget | stir => exact ha
  -- only a carrier that comes could take the place
  | register carrier hg => simp [comer?, hg] at hc
  | again i hg hi => simp [comer?, hg, hi] at hc
  | lose i _ hn => cases ha.symm.trans hn
  | beat hsome => rw [hb] at hsome; cases hsome
  -- a write finds nobody to push to
  | write message _ =>
    by_cases hp : s.phase = .closed
    · rw [write_of_closed hp]
      exact ha
    · rw [write_of_detached hp ha]
      exact ha
  | depart _ =>
    by_cases hp : s.phase = .closed
    · rw [depart_of_closed hp]
      exact ha
    · exact (emptied_depart hp now).attached

theorem beats_does (hs : s.Seated) (now : Moment) (d : Deed C) :
    (s.does now d).beats = s.beats + s.beatsOf d := by
  rw [beats, handed_does hs, List.countP_append]
  rfl

/-- Where no heartbeat is sent, none that was due is put off. -/
theorem allowance_does_of_quiet (hs : s.Wound) (ha : s.Armed) {d : Deed C}
    (hc : s.comer? d = none) (hd : d ≠ .beat) :
    (s.does now d).allowance limit ≤ s.allowance limit := by
  rcases hb' : (s.does now d).nextBeat with - | b'
  -- with no beat armed nothing is allowed
  · simp only [allowance, hb', Nat.zero_le]
  have hs' := hs.does now d
  obtain ⟨m, hm⟩ := Option.isSome_iff_exists.mp (hs'.beating (by rw [hb']; rfl))
  have hopen' : (s.does now d).isClosed = false := by
    by_contra hclosed
    cases (hs'.silent (by simpa using hclosed)).1.symm.trans hb'
  rcases hb : s.nextBeat with - | b
  · -- nothing was attached, so nothing is
    have hopen : s.isClosed = false := by
      by_contra hclosed
      rw [isClosed_does (by simpa using hclosed) now d] at hopen'
      cases hopen'
    have hnone : s.attached = none := by
      rcases hattached : s.attached with - | n
      · rfl
      · have hsome := ha hopen (by rw [hattached]; rfl)
        rw [hb] at hsome
        cases hsome
    cases (attached_does_of_none hc hnone hb).symm.trans hm
  -- an armed beat stays where it is
  · have hsame := nextBeat_does hs hc hd hb (isClosed_eq_false.mp hopen').2 hm
    simp only [allowance, hsame, hb, Nat.le_refl]

/-- A heartbeat that is sent when it is due or later takes one from the allowance. -/
theorem allowance_beat (hs : s.Wound) {b : Nat} (hb : s.nextBeat = some b) (hnow : b ≤ now.time)
    (hle : b ≤ limit) : (s.beat now).allowance limit + 1 ≤ s.allowance limit := by
  have hold : s.allowance limit = limit + 1 - b := by simp only [allowance, hb]
  rw [hold]
  have hperiod := s.timing.period_pos
  rcases hb' : (s.beat now).nextBeat with - | b'
  · simp only [allowance, hb']
    omega
  · have hdoes : s.does now .beat = s.beat now := by simp [Session.does, hb]
    have hs' : (s.beat now).Wound := hdoes ▸ hs.does now .beat
    obtain ⟨m, hm⟩ := Option.isSome_iff_exists.mp (hs'.beating (by rw [hb']; rfl))
    simp only [allowance, nextBeat_beat hm]
    omega

/-- **The heartbeats so far and those that may come do not grow** when no carrier comes and no
heartbeat is sent before it is due. -/
theorem allowance_does (hs : s.Wound) (ha : s.Armed) (hseat : s.Seated) {d : Deed C}
    (hc : s.comer? d = none)
    (hbeat : d = .beat → ∀ b, s.nextBeat = some b → b ≤ now.time ∧ b ≤ limit) :
    (s.does now d).beats + (s.does now d).allowance limit ≤ s.beats + s.allowance limit := by
  rw [beats_does hseat]
  by_cases hd : d = .beat
  · subst hd
    rcases hb : s.nextBeat with - | b
    · have hdoes : s.does now .beat = s := by simp [Session.does, hb]
      apply Nat.le_of_eq
      rw [hdoes, beatsOf_eq_zero fun _ => hb, Nat.add_zero]
    · have hdoes : s.does now .beat = s.beat now := by simp [Session.does, hb]
      obtain ⟨hnow, hle⟩ := hbeat rfl b hb
      have : (s.beat now).allowance limit + 1 ≤ s.allowance limit := allowance_beat hs hb hnow hle
      rw [hdoes, beatsOf_beat hs hb]
      omega
  · rw [beatsOf_eq_zero fun h => absurd h hd, Nat.add_zero]
    exact Nat.add_le_add_left (allowance_does_of_quiet hs ha hc hd) _

/-! ### A session left to itself -/

/-- What becomes of a session, up to `limit`, while no carrier comes and no heartbeat is sent before
it is due. -/
inductive Passes (limit : Nat) : Session C → Session C → Prop
  | refl (s : Session C) : Passes limit s s
  | turn {s s' : Session C} (now : Moment) (d : Deed C) (hc : s.comer? d = none)
      (hbeat : d = .beat → ∀ b, s.nextBeat = some b → b ≤ now.time ∧ b ≤ limit)
      (rest : Passes limit (s.does now d) s') : Passes limit s s'

variable {s' s'' : Session C}

theorem Passes.trans (h : Passes limit s s') (h' : Passes limit s' s'') : Passes limit s s'' := by
  induction h with
  | refl => exact h'
  | turn now d hc hbeat _ ih => exact .turn now d hc hbeat (ih h')

/-- Its history goes on from where it was. -/
theorem Passes.suffix (h : Passes limit s s') : s.past <:+ s'.past := by
  induction h with
  | refl => exact List.suffix_rfl
  | turn now d _ _ _ ih =>
    obtain ⟨es, hes⟩ := stamped_does now _ d
    exact (hes ▸ List.suffix_append _ _).trans ih

theorem Passes.allowance_le (h : Passes limit s s') (hs : s.Wound) (ha : s.Armed)
    (hseat : s.Seated) : s'.beats + s'.allowance limit ≤ s.beats + s.allowance limit := by
  induction h with
  | refl => exact Nat.le_refl _
  | turn now d hc hbeat _ ih =>
    exact Nat.le_trans (ih (hs.does now d) (ha.does hs now d) (hseat.does now d))
      (allowance_does hs ha hseat hc hbeat)

omit [Carrier C]

theorem since_of_past {es : List (Moment × Event)} (h : s'.past = es.reverse ++ s.past) :
    s'.since s = es := by
  simp [since, h]

/-- What happened since then, on top of what had happened. -/
theorem past_eq_since (h : s.past <:+ s'.past) : s'.past = (s'.since s).reverse ++ s.past := by
  obtain ⟨es, hes⟩ := h
  have hsince : s'.since s = es.reverse := since_of_past (by rw [List.reverse_reverse, hes])
  rw [hsince, List.reverse_reverse, hes]

/-- What happened in two stretches, one after the other. -/
theorem since_append (h : s.past <:+ s'.past) (h' : s'.past <:+ s''.past) :
    s''.since s = s'.since s ++ s''.since s' := by
  apply since_of_past
  rw [List.reverse_append, List.append_assoc, ← past_eq_since h]
  exact past_eq_since h'

theorem beats_eq_heartbeats (h : s.past <:+ s'.past) :
    s'.beats = s.beats + heartbeats (s'.since s) := by
  rw [beats, beats, handed, handed, past_eq_since h, heartbeats]
  simp [List.filterMap_append]

end Duplex.Session
