/-
Duplex/Proofs/Session/Patience.lean

How long a session waits for its next carrier.

A session that lost its carrier waits until the next one comes, or until it is
closed.  Since when it waits can be read off its history: `left?` is the time of
the last detachment, if nothing came after it.  The deadline is always that time
and the patience of the session together (`Waiting`), through however many
carriers, and so in a timely run

* whoever is closed by its deadline lost its carrier exactly that long ago, and
  nothing happened to it in between;
* whoever lost its carrier is closed by its deadline exactly then, unless a
  carrier comes before, or it is over in another way.

`patience_of_run` says both.  What follows of it is said of worlds at rest: no
session waits for longer than its patience, and one without patience never waits.
-/
import Duplex.Carrier.ResponseStream
import Duplex.Proofs.World.Stopping
import Duplex.Proofs.World.Timely

namespace Duplex

variable {C : Type}

/-- A carrier came or went, or the session closed. -/
def Event.isChange : Event → Bool
  | .attached _ | .detached _ | .closed => true
  | _ => false

theorem Event.isChange_of_isInward {e : Event} (h : e.isInward = true) : e.isChange = false := by
  cases e with
  | attached | detached | closed => cases h
  | _ => rfl

namespace Session

/-! ### Since when a session waits -/

/-- When the carrier went away, if no other came after that and the session did not close. -/
def left? (s : Session C) : Option Nat :=
  match s.past.find? (·.2.isChange) with
  | some (now, .detached _) => some now.time
  | _ => none

theorem left?_of_inward {s s' : Session C} {now : Moment} {es : List Event}
    (h : s'.past = es.map (now, ·) ++ s.past) (hes : ∀ e ∈ es, e.isInward = true) :
    s'.left? = s.left? := by
  have hnone : (es.map (now, ·)).find? (·.2.isChange) = none := by
    rw [List.find?_eq_none]
    intro p hp
    obtain ⟨e, he, rfl⟩ := List.mem_map.mp hp
    simp [Event.isChange_of_isInward (hes e he)]
  rw [left?, h, List.find?_append, hnone, Option.none_or, left?]

/-- What becomes of the wait of a session, by the carrier that comes, if one does. -/
inductive Parted (now : Moment) (s s' : Session C) (came : Option Nat) : Prop
  | same (attached : s'.attached = s.attached) (left : s'.left? = s.left?)
      (deadline : s'.deadline = s.deadline) (phase : s'.phase = s.phase)
  | seated (moved : s.attached.isSome ∨ came.isSome) (attached : s'.attached.isSome)
      (left : s'.left? = none)
  | away (moved : s.attached.isSome ∨ came.isSome) (attached : s'.attached = none)
      (left : s'.left? = some now.time) (deadline : s'.deadline = some (now.time + s.timing.grace))
  | ends (closed : s'.isClosed = true)

variable {now : Moment} {s s' s₀ : Session C} {n : Nat} {came : Option Nat}

/-- The same before a carrier was attached. -/
theorem Parted.of_seated (h : Parted now s s' came) (ha : s.attached.isSome)
    (hl : s.left? = none) (ht : s.timing = s₀.timing) (n : Nat) : Parted now s₀ s' (some n) := by
  cases h with
  | same attached left => exact .seated (.inr rfl) (attached ▸ ha) (left.trans hl)
  | seated _ attached left => exact .seated (.inr rfl) attached left
  | away _ attached left deadline => exact .away (.inr rfl) attached left (ht ▸ deadline)
  | ends closed => exact .ends closed

/-- The same with a session that waits alike after it. -/
theorem Parted.and_same {s'' : Session C} (h : Parted now s s' came)
    (attached' : s''.attached = s'.attached) (left' : s''.left? = s'.left?)
    (deadline' : s''.deadline = s'.deadline) (phase' : s''.phase = s'.phase)
    (closed' : s''.isClosed = s'.isClosed) : Parted now s s'' came := by
  cases h with
  | same attached left deadline phase =>
    exact .same (attached'.trans attached) (left'.trans left) (deadline'.trans deadline)
      (phase'.trans phase)
  | seated moved attached left => exact .seated moved (attached' ▸ attached) (left'.trans left)
  | away moved attached left deadline =>
    exact .away moved (attached'.trans attached) (left'.trans left) (deadline'.trans deadline)
  | ends closed => exact .ends (closed'.trans closed)

theorem Parted.record (h : Parted now s s' came) {e : Event} (he : e.isChange = false) :
    Parted now s (s'.record now e) came :=
  h.and_same rfl (by simp [left?, Session.record, he]) rfl rfl rfl

variable [Carrier C]

theorem parted_detach (ha : s.attached = some n) (now : Moment) (came : Option Nat) :
    Parted now s (s.detach now) came := by
  rw [detach, ha]
  exact .away (.inl (by rw [ha]; rfl)) rfl rfl rfl

theorem parted_push (ha : s.attached = some n) (now : Moment) (f : Frame) (came : Option Nat) :
    Parted now s (s.push now f) came := by
  rcases hc : s.carriers[n]? with - | c
  · have h : s.push now f = s.detach now := by simp [push, ha, hand, hc]
    rw [h]
    exact parted_detach ha now came
  · rcases push_cases ha hc now f with ⟨-, h⟩ | ⟨-, h⟩
    · rw [h]
      exact .same rfl rfl rfl rfl
    · rw [h]
      exact .away (.inl (by rw [ha]; rfl)) rfl rfl rfl

theorem left?_seat (now : Moment) (n : Nat) (s : Session C) : (s.seat now n).left? = none := rfl

theorem parted_attach (ht : s.timing = s₀.timing) (now : Moment) (n m : Nat) :
    Parted now s₀ (s.attach now n) (some m) := by
  obtain ⟨_, _, hseat, -⟩ := seat_eq now n s
  have ha : (s.seat now n).attached = some n := by rw [hseat]
  have htiming : (s.seat now n).timing = s₀.timing := by rw [hseat, ← ht]
  have hl := left?_seat now n s
  rcases hp : s.phase
  · rw [attach_of_fresh hp]
    have hpush := parted_push ha now .opening none
    exact (hpush.of_seated (by rw [ha]; rfl) hl htiming m).record rfl
  · rw [attach_of_live hp]
    split
    · exact .seated (.inr rfl) (show (s.seat now n).attached.isSome by rw [ha]; rfl) hl
    · have hpush := parted_push (s := { s.seat now n with outbound := [] }) ha now
        (.batch (s.seat now n).outbound) none
      exact hpush.of_seated (by rw [ha]; rfl) hl htiming m
  · rw [attach_of_closed hp]
    obtain ⟨_, _, hh, -⟩ := hand_eq now n .goAway (s.record now (.attached n))
    rw [finish, hh]
    exact .ends (by simp [isClosed, Session.record, hp])

/-- **What a deed makes of the wait of a session.** -/
theorem parted_does (hs : s.Wound) (now : Moment) (d : Deed C) :
    Parted now s (s.does now d) (s.comer? d) := by
  have h := change_does now s d
  generalize s.does now d = s' at h ⊢
  cases h with
  | inward ho =>
    obtain ⟨_, _, _, _, _, _, _, _, es, h, hes⟩ := does_inward_events now s ho
    have hsame := (sameOutward_does now s ho).sameClocks
    exact .same hsame.attached (left?_of_inward (by rw [h]) hes) hsame.deadline hsame.phase
  | idle | stir => exact .same rfl rfl rfl rfl
  | forget => exact .ends (by simp [forget, isClosed])
  | register carrier hg =>
    rw [comer?, if_neg (by simp [hg])]
    exact parted_attach (s := s.addCarrier carrier) (rfl : _ = s.timing) now _ _
  | again n hg hn =>
    rw [comer?, if_pos (by simp [hg, hn])]
    exact parted_attach rfl now n n
  | lose n _ ha => exact parted_detach ha now _
  | beat hb =>
    obtain ⟨n, ha⟩ := Option.isSome_iff_exists.mp (hs.beating hb)
    have hpush := parted_push ha now .heartbeat none
    -- a beat is a push, and arms the next beat if the carrier stays
    rw [beat]
    split
    · exact hpush.and_same rfl rfl rfl rfl rfl
    · exact hpush
  | write message _ =>
    -- a write is a push only where a carrier is attached
    by_cases hp : s.phase = .closed
    · rw [write_of_closed hp]
      exact .same rfl rfl rfl rfl
    rcases ha : s.attached with - | n
    · rw [write_of_detached hp ha]
      exact .same rfl rfl rfl rfl
    · rw [write_of_attached hp ha]
      cases parted_push (s := { s.enqueue now message with outbound := [] }) ha now
        (.batch (s.enqueue now message).outbound) none with
      | same attached left deadline phase => exact .same attached left deadline phase
      | seated moved attached left => exact .seated moved attached left
      | away moved attached left deadline => exact .away moved attached left deadline
      | ends closed => exact .ends closed
  | depart _ =>
    -- closing ends the wait
    refine .ends ?_
    obtain ⟨hp, h⟩ | ⟨-, _, _, -, h⟩ := depart_cases now s
    · simp [h, isClosed, hp]
    · simp [h, isClosed]

/-! ### The deadline -/

omit [Carrier C] in
/-- The deadline of a session is its patience after its carrier went away, and without a carrier it
waits since then. -/
structure Waiting (s : Session C) : Prop where
  deadline : s.isClosed = false → s.deadline = s.left?.map (· + s.timing.grace)
  away : s.phase = .live → s.gone = false → s.attached = none → s.left?.isSome

omit [Carrier C] in
theorem IsNew.waiting (h : s.IsNew) : s.Waiting := by
  obtain ⟨_, _, _, _, _, rfl⟩ := h
  exact ⟨fun _ => rfl, fun hp => by cases hp⟩

omit [Carrier C] in
/-- A session with a carrier does not wait. -/
theorem Waiting.left?_of_attached (h : s.Waiting) (hs : s.Wound) (hc : s.isClosed = false)
    (ha : s.attached.isSome) : s.left? = none := by
  have hd := h.deadline hc
  rw [hs.waiting ha] at hd
  exact Option.map_eq_none_iff.mp hd.symm

omit [Carrier C] in
/-- A session that waits has no carrier, and its deadline is known. -/
theorem Waiting.of_left? (h : s.Waiting) (hs : s.Wound) (hc : s.isClosed = false) {since : Nat}
    (hl : s.left? = some since) : s.attached = none ∧ s.due? = some (since + s.timing.grace) := by
  have ha : s.attached = none := by
    by_contra hn
    rw [h.left?_of_attached hs hc (Option.isSome_iff_ne_none.mpr hn)] at hl
    cases hl
  have hb : s.nextBeat = none := by
    by_contra hn
    have hsome := hs.beating (Option.isSome_iff_ne_none.mpr hn)
    rw [ha] at hsome
    cases hsome
  refine ⟨ha, ?_⟩
  rw [due?, hb, Option.none_or, h.deadline hc, hl]
  rfl

/-- Only a session that was open stays open. -/
theorem isClosed_of_does {d : Deed C} (h : (s.does now d).isClosed = false) :
    s.isClosed = false := by
  obtain ⟨hp, hg⟩ := isClosed_eq_false.mp h
  refine isClosed_eq_false.mpr ⟨fun hc => hp ?_, gone_of_does hg⟩
  exact closed_does hc now d

theorem Waiting.does (h : s.Waiting) (hs : s.Wound) (now : Moment) (d : Deed C) :
    (s.does now d).Waiting := by
  have htiming : (s.does now d).timing = s.timing := (made_does now s d).2.1
  have hs' := hs.does now d
  cases parted_does hs now d with
  | same attached left deadline phase =>
    refine ⟨fun hc => ?_, fun hp hg ha => ?_⟩
    · rw [deadline, left, htiming]
      exact h.deadline (isClosed_of_does hc)
    · rw [left]
      exact h.away (phase ▸ hp) (gone_of_does hg) (attached ▸ ha)
  | seated _ attached left =>
    refine ⟨fun _ => ?_, fun _ _ ha => ?_⟩
    -- an attached carrier leaves nothing to wait for
    · rw [hs'.waiting attached, left]
      rfl
    · rw [ha] at attached
      cases attached
  | away _ _ left deadline =>
    refine ⟨fun _ => ?_, fun _ _ _ => by rw [left]; rfl⟩
    -- the wait begins with this turn
    rw [deadline, left, htiming]
    rfl
  | ends closed =>
    refine ⟨fun hc => ?_, fun hp hg _ => ?_⟩
    · cases closed.symm.trans hc
    · rw [isClosed_eq_false.mpr ⟨by rw [hp]; simp, hg⟩] at closed
      cases closed

/-- The session goes on to wait unless a carrier comes or it is over. -/
theorem Waiting.left?_does (h : s.Waiting) (hs : s.Wound) {since : Nat}
    (hl : s.left? = some since) {d : Deed C} (hc : s.comer? d = none)
    (hopen : (s.does now d).isClosed = false) : (s.does now d).left? = some since := by
  have ha := (h.of_left? hs (isClosed_of_does hopen) hl).1
  have moved {p : Prop} (hm : s.attached.isSome ∨ (s.comer? d).isSome) : p := by
    rw [ha, hc] at hm
    simp at hm
  cases parted_does hs now d with
  | same _ left => exact left.trans hl
  | seated hm => exact moved hm
  | away hm => exact moved hm
  | ends closed => cases closed.symm.trans hopen

/-- The turn ends the wait of a session: a carrier comes, or the session is over. -/
def Turn.EndsWait (t : Turn C) : Prop := (t.before.comer? t.deed).isSome ∨ t.after.isClosed = true

end Session

namespace World

open Session (Deed Turn Wound Waiting)

variable [Carrier C] {k : Nat} {s : Session C} {pre post ms : List (Move C)}

/-! ### Deadlines that come -/

/-- **Every session of every run waits since its carrier went away.** -/
theorem waiting_of_run (ms : List (Move C)) (hs : (({} : World C).after ms).sessions[k]? = some s) :
    s.Waiting :=
  (session_run (P := fun _ s => s.Wound ∧ s.Waiting) (fun _ h => ⟨h.wound, h.waiting⟩)
    (fun _ t h => ⟨h.1.does t.now t.deed, h.2.does h.1 t.now t.deed⟩) ms hs).2

/-- The moves end with the deadline of a session: it is due, and to be closed next. -/
def Lapses (k : Nat) (ms : List (Move C)) : Prop :=
  ∃ pre nexts, ms = pre ++ .elapse k :: nexts ∧ (∀ m ∈ nexts, m = .next) ∧
    ∃ s, (({} : World C).after pre).sessions[k]? = some s ∧ s.nextBeat = none

/-- The session is closed by its deadline at that time. -/
def Expires (k : Nat) (ms : List (Move C)) (time : Nat) : Prop :=
  ∃ pre post, ms = pre ++ .step :: post ∧ Lapses k pre ∧
    (({} : World C).after pre).now.time = time ∧
    ∃ t ∈ turnOf k (({} : World C).after pre) .step,
      t.before.isClosed = false ∧ t.after.phase = .closed

/-- After the first moves, it is not the deadline that ends the wait of a session: a carrier comes
before, or the session is over in another way. -/
def Overtaken (k : Nat) (pre post : List (Move C)) : Prop :=
  ∃ ms m rest, post = ms ++ m :: rest ∧
    (∀ t ∈ turns k (({} : World C).after pre) ms, ¬ t.EndsWait) ∧
    (∃ t ∈ turnOf k (({} : World C).after (pre ++ ms)) m, t.EndsWait) ∧ ¬ Lapses k (pre ++ ms)

omit [Carrier C] in
/-- A move with a turn is made in time only if no task waits, or it is the next task. -/
theorem tasks_of_turn {w : World C} {m : Move C} {t : Turn C} (ht : t ∈ turnOf k w m)
    (hm : w.IsTimely m) : w.tasks = [] ∨ m = .step := by
  cases m with
  | next => cases (mem_turnOf.mp ht).2.2
  | step => exact .inr rfl
  | pass time => exact .inl hm.1
  | elapse j => exact .inl hm.1
  | _ => exact .inl hm

theorem after_nexts {w : World C} (h : ∀ m ∈ ms, m = .next) :
    (w.after ms).sessions = w.sessions ∧ (w.after ms).tasks = w.tasks ∧
      (w.after ms).now.time = w.now.time := by
  induction ms generalizing w with
  | nil => exact ⟨rfl, rfl, rfl⟩
  | cons m ms ih =>
    obtain ⟨rfl, h'⟩ := List.forall_mem_cons.mp h
    obtain ⟨hs, ht, hn⟩ := ih (w := w.next) h'
    exact ⟨hs, ht, hn⟩

/-- A session whose deadline has come is next to be closed, at that time. -/
theorem Lapses.due (h : Lapses k ms) (hms : Timely ({} : World C) ms) :
    (({} : World C).after ms).tasks = [.close k] ∧
      ∃ s, (({} : World C).after ms).sessions[k]? = some s ∧ s.nextBeat = none ∧
        s.deadline = some (({} : World C).after ms).now.time := by
  obtain ⟨pre, nexts, rfl, hnexts, s, hs, hb⟩ := h
  obtain ⟨-, ht, s', hs', hdue⟩ := hms.before
  obtain rfl := Option.some.inj (hs.symm.trans hs')
  rw [after_append, after_cons]
  generalize ({} : World C).after pre = w at hs hs' ht hdue ⊢
  have helapse : w.move (.elapse k) = w.push (.close k) := by simp [move, elapse, hs, hb]
  obtain ⟨hs₁, ht₁, hn₁⟩ := after_nexts (w := w.push (.close k)) hnexts
  rw [helapse, hs₁, ht₁, hn₁]
  rw [Session.due?, hb, Option.none_or] at hdue
  exact ⟨by rw [push, ht], s, hs, hb, hdue⟩

/-- What comes next then is that the session departs. -/
theorem Lapses.departs (h : Lapses k pre) {m : Move C}
    (hms : Timely ({} : World C) (pre ++ m :: post)) {t : Turn C}
    (ht : t ∈ turnOf k (({} : World C).after pre) m) : m = .step ∧ t.deed = .depart := by
  obtain ⟨hpre, hm⟩ := hms.before
  have htasks := (h.due hpre).1
  obtain rfl : m = .step := by
    rcases tasks_of_turn ht hm with hnil | hstep
    · cases htasks.symm.trans hnil
    · exact hstep
  obtain ⟨task, rest, hcons, htask⟩ := Move.deed?_step.mp (mem_turnOf.mp ht).2.2
  obtain ⟨rfl, -⟩ := List.cons.inj (htasks.symm.trans hcons)
  exact ⟨rfl, (Prod.mk.inj (Option.some.inj htask)).2.symm⟩

/-- A departure closes an open session. -/
theorem closed_of_departs {t : Turn C} (ht : t.deed = .depart) (hc : t.before.isClosed = false) :
    t.after.phase = .closed := by
  rw [Turn.after, ht, Session.phase_does]
  simp [Session.phaseAfter, (Session.isClosed_eq_false.mp hc).2]

/-! ### A wait and its end -/

/-- The session was left by its carrier, its patience ended at that time, and nothing ended the wait
before. -/
def Waited (k : Nat) (ms : List (Move C)) (time : Nat) : Prop :=
  ∃ pre post s since, ms = pre ++ post ∧ (({} : World C).after pre).sessions[k]? = some s ∧
    s.isClosed = false ∧ s.left? = some since ∧ since + s.timing.grace = time ∧
    ¬ Overtaken k pre post

/-- Whoever is closed by its deadline waited until then. -/
theorem waited_of_expires (hms : Timely ({} : World C) ms) {time : Nat} (h : Expires k ms time) :
    Waited k ms time := by
  obtain ⟨pre, post, rfl, hlapses, rfl, t, ht, hopen, hclosed⟩ := h
  obtain ⟨-, s, hs, hb, hdeadline⟩ := hlapses.due hms.before.1
  obtain rfl := before_of_turn ht hs
  rw [(waiting_of_run pre hs).deadline hopen] at hdeadline
  obtain ⟨since, hl, htime⟩ := Option.map_eq_some_iff.mp hdeadline
  refine ⟨pre, .step :: post, t.before, since, rfl, hs, hopen, hl, htime, ?_⟩
  -- the closing itself is the first that ends the wait
  rintro ⟨ms, m, rest, he, hnone, -, hlapses'⟩
  rcases ms with - | ⟨m', ms⟩
  · exact hlapses' (by rwa [List.append_nil])
  · obtain ⟨rfl, -⟩ := List.cons.inj he
    exact hnone t (List.mem_append_left _ ht) (.inr (by simp [Session.isClosed, hclosed]))

/-- Whoever waits long enough is closed by its deadline, unless something else happens before. -/
theorem expires_or_overtaken {since : Nat} (hms : Timely ({} : World C) (pre ++ post))
    (hs : (({} : World C).after pre).sessions[k]? = some s) (hopen : s.isClosed = false)
    (hl : s.left? = some since) (hrest : (({} : World C).after (pre ++ post)).AtRest)
    (htime : since + s.timing.grace ≤ (({} : World C).after (pre ++ post)).now.time) :
    Expires k (pre ++ post) (since + s.timing.grace) ∨ Overtaken k pre post := by
  -- the wait goes on with every move that does not end it, and while it does the world does not
  -- rest
  induction post generalizing pre s with
  | nil =>
    rw [List.append_nil] at hrest htime
    have hdue := ((waiting_of_run pre hs).of_left? (wound_of_run pre hs) hopen hl).2
    exact absurd htime (Nat.not_le.mpr (hrest.due.2 s (List.mem_of_getElem? hs) _ hdue))
  | cons m post ih =>
    have hwaits := waiting_of_run pre hs
    have hwound := wound_of_run pre hs
    -- this move does not end the wait: what the rest of the run does is carried over
    have on {s' : Session C} (hs' : ((({} : World C).after pre).move m).sessions[k]? = some s')
        (hopen' : s'.isClosed = false) (hl' : s'.left? = some since) (ht : s'.timing = s.timing)
        (hturn : ∀ t ∈ turnOf k (({} : World C).after pre) m, ¬ t.EndsWait) :
        Expires k (pre ++ m :: post) (since + s.timing.grace) ∨ Overtaken k pre (m :: post) := by
      have hcons (ms : List (Move C)) : pre ++ m :: ms = (pre ++ [m]) ++ ms := by simp
      have hafter : ({} : World C).after (pre ++ [m]) = (({} : World C).after pre).move m :=
        after_append ..
      rw [hcons, ← ht] at htime
      rw [hcons] at hms hrest
      rw [hcons, ← ht]
      refine (ih hms (hafter ▸ hs') hopen' hl' hrest htime).imp_right ?_
      rintro ⟨ms, m', rest, rfl, hms', hends, hlapses⟩
      rw [hafter] at hms'
      refine ⟨m :: ms, m', rest, rfl, List.forall_mem_append.mpr ⟨hturn, hms'⟩, ?_, ?_⟩
      · rwa [hcons]
      · rwa [hcons]
    rcases session_of_before hs m with ⟨hnone, hs'⟩ | ⟨d, hone, hs'⟩
    · exact on hs' hopen hl rfl (by simp [hnone])
    generalize ht : Turn.mk (({} : World C).after pre).now s d = t at hone
    have hmem : t ∈ turnOf k (({} : World C).after pre) m := hone ▸ List.mem_singleton_self t
    have hbefore : t.before = s := by rw [← ht]
    by_cases hends : t.EndsWait
    -- the wait ends here: by the deadline that is due now, or before it
    · by_cases hlapses : Lapses k pre
      · obtain ⟨rfl, hdepart⟩ := hlapses.departs hms hmem
        obtain ⟨-, s', hs', hb, hdeadline⟩ := hlapses.due hms.before.1
        obtain rfl := Option.some.inj (hs.symm.trans hs')
        have htime' : since + s.timing.grace = (({} : World C).after pre).now.time := by
          rw [hwaits.deadline hopen, hl] at hdeadline
          exact Option.some.inj hdeadline
        exact .inl ⟨pre, post, rfl, hlapses, htime'.symm, t, hmem, hbefore ▸ hopen,
          closed_of_departs hdepart (hbefore ▸ hopen)⟩
      · exact .inr ⟨[], m, post, rfl, by simp [turns, along], by simpa using ⟨t, hmem, hends⟩,
          by simpa using hlapses⟩
    · obtain ⟨hcomer, hopen'⟩ := not_or.mp hends
      have hafter : t.after = s.does (({} : World C).after pre).now d := by rw [← ht, Turn.after]
      have hd : t.deed = d := by rw [← ht]
      rw [hbefore, hd, Option.not_isSome_iff_eq_none] at hcomer
      rw [hafter, Bool.not_eq_true] at hopen'
      refine on hs' hopen' (hwaits.left?_does hwound hl hcomer hopen')
        (Session.made_does _ s d).2.1 fun t' ht' => ?_
      rw [hone] at ht'
      rw [List.mem_singleton.mp ht']
      exact hends

/-- How long session `s`, the `k`th one of a run, waits for its carriers. -/
structure Patience (k : Nat) (ms : List (Move C)) (s : Session C) : Prop where
  /-- If it is closed by its deadline, then it was left by its carrier exactly that long ago, and
  nothing happened to it since. -/
  waited : ∀ time, Expires k ms time → Waited k ms time
  /-- If it was left by its carrier and nothing happens to it, then it is closed by its deadline
  exactly when its patience is over. -/
  expires : (({} : World C).after ms).AtRest → ∀ time ≤ (({} : World C).after ms).now.time,
    Waited k ms time → Expires k ms time
  /-- At rest, a session without a carrier was left by its last, and its patience is not over. -/
  waits : (({} : World C).after ms).AtRest → s.phase = .live → s.gone = false →
    s.attached = none → ∃ since, s.left? = some since ∧
      (({} : World C).after ms).now.time < since + s.timing.grace
  /-- A session without patience has a carrier whenever the world is at rest. -/
  impatient : (({} : World C).after ms).AtRest → s.phase = .live → s.gone = false →
    s.timing.patience.getD 0 = 0 → s.attached.isSome

/-- A session that waits at rest has waited for less than its patience. -/
theorem waits_of_rest (hs : (({} : World C).after ms).sessions[k]? = some s)
    (hrest : (({} : World C).after ms).AtRest) (hp : s.phase = .live) (hg : s.gone = false)
    (ha : s.attached = none) : ∃ since, s.left? = some since ∧
      (({} : World C).after ms).now.time < since + s.timing.grace := by
  have hwaits := waiting_of_run ms hs
  have hopen : s.isClosed = false := Session.isClosed_eq_false.mpr ⟨by simp [hp], hg⟩
  obtain ⟨since, hl⟩ := Option.isSome_iff_exists.mp (hwaits.away hp hg ha)
  have hdue := (hwaits.of_left? (wound_of_run ms hs) hopen hl).2
  exact ⟨since, hl, hrest.due.2 s (List.mem_of_getElem? hs) _ hdue⟩

/-- No wait begins later than now. -/
theorem left?_le_time (hms : Timely ({} : World C) ms)
    (hs : (({} : World C).after ms).sessions[k]? = some s) (hopen : s.isClosed = false)
    {since : Nat} (hl : s.left? = some since) : since ≤ (({} : World C).after ms).now.time := by
  refine timely_run (P := fun now s => s.isClosed = false → ∀ since, s.left? = some since →
    since ≤ now) ?_ ?_ ?_ hms hs hopen since hl
  · rintro time s ⟨_, _, _, _, _, rfl⟩ - since hl
    cases hl
  · intro time time' s hle _ h hopen since hl
    exact Nat.le_trans (h hopen since hl) hle
  · intro t ht h hopen since hl
    cases Session.parted_does ht.wound t.now t.deed with
    | same _ left => exact h (Session.isClosed_of_does hopen) since (left.symm.trans hl)
    | seated _ _ left => cases left.symm.trans hl
    | away _ _ left => exact Nat.le_of_eq (Option.some.inj (hl.symm.trans left))
    | ends closed => cases closed.symm.trans hopen

/-- **The deadline of a session is exact**: it is closed by it at a time exactly if it was left by
its carrier its patience before and nothing happened to it since. -/
theorem patience_of_run (hms : Timely ({} : World C) ms)
    (hs : (({} : World C).after ms).sessions[k]? = some s) : Patience k ms s where
  waited := fun time h => waited_of_expires hms h
  expires := by
    rintro hrest time htime ⟨pre, post, u, since, rfl, hu, hopen, hl, rfl, hfree⟩
    exact (expires_or_overtaken hms hu hopen hl hrest htime).resolve_right hfree
  waits := waits_of_rest hs
  impatient := by
    intro hrest hp hg hpatience
    by_contra ha
    obtain ⟨since, hl, hlt⟩ :=
      waits_of_rest hs hrest hp hg (Option.not_isSome_iff_eq_none.mp ha)
    have hgrace : s.timing.grace = 0 := by
      rw [Timing.grace, hpatience]
      rfl
    have hopen : s.isClosed = false := Session.isClosed_eq_false.mpr ⟨by simp [hp], hg⟩
    have hle := left?_le_time hms hs hopen hl
    omega

/-- A session loses two carriers one after the other, the second one just before its patience with
the first would be over, and is closed when its patience with the second one is over. -/
def leftTwice (timing : Timing) (since due : Nat) : List (Move Conduit) :=
  [.make "a" timing (fun _ => .done) none true true, .register 0 (.queue {}), .step, .lose 0 0,
    .pass since, .register 0 (.queue {}), .lose 0 1, .pass due, .elapse 0, .step]

theorem timely_leftTwice {timing : Timing} {since due : Nat} (hsince : since ≤ timing.grace)
    (hdue : due = since + timing.grace) :
    Timely ({} : World Conduit) (leftTwice timing since due) := by
  refine ⟨rfl, rfl, trivial, rfl, ⟨rfl, ?_⟩, rfl, rfl, ⟨rfl, ?_⟩, ⟨rfl, _, rfl, ?_⟩, trivial,
    trivial⟩
  · intro s hs t ht
    obtain rfl := List.mem_singleton.mp hs
    obtain rfl := Option.some.inj ht
    show since ≤ 0 + timing.grace
    omega
  · intro s hs t ht
    obtain rfl := List.mem_singleton.mp hs
    obtain rfl := Option.some.inj ht
    show due ≤ max 0 since + timing.grace
    omega
  · show some (max 0 since + timing.grace) = some (max (max 0 since) due)
    congr 1
    omega

theorem expires_leftTwice (timing : Timing) {since due : Nat} (hle : since ≤ due) :
    Expires 0 (leftTwice timing since due) due := by
  have htime :
      (({} : World Conduit).after (leftTwice timing since due).dropLast).now.time = due := by
    show max (max 0 since) due = due
    omega
  refine ⟨(leftTwice timing since due).dropLast, [], rfl,
    ⟨(leftTwice timing since due).dropLast.dropLast, [], rfl, by simp, _, rfl, rfl⟩, htime, ?_⟩
  exact ⟨⟨_, _, .depart⟩, mem_turnOf.mpr ⟨rfl, rfl, rfl⟩, rfl, rfl⟩

/-- After losing its second carrier the session waits anew. -/
theorem patience_of_leftTwice : ∃ ms s, Timely ({} : World Conduit) ms ∧
    (({} : World Conduit).after ms).sessions[0]? = some s ∧ s.timing.patience = some 1000 ∧
    Expires 0 ms 1999 ∧ Patience 0 ms s := by
  have hms : Timely ({} : World Conduit)
      (leftTwice { heartbeat := 25000, patience := some 1000 } 999 1999) :=
    timely_leftTwice (by decide) (by decide)
  exact ⟨_, _, hms, rfl, rfl, expires_leftTwice _ (by decide), patience_of_run hms rfl⟩

/-- Who would wait for longer than the clock keeps a wait is closed after thirty years. -/
theorem exists_expires_before_time : ∃ ms s, Timely ({} : World Conduit) ms ∧
    (({} : World Conduit).after ms).sessions[0]? = some s ∧
    s.timing.patience = some 18446744073709551615 ∧ Expires 0 ms 1014799476736 ∧
    ∀ since, since + s.timing.patience.getD 0 ≠ 1014799476736 := by
  have hms : Timely ({} : World Conduit)
      (leftTwice { heartbeat := 25000, patience := some 18446744073709551615 }
        68719476736 1014799476736) :=
    timely_leftTwice (by decide) (by decide)
  refine ⟨_, _, hms, rfl, rfl, expires_leftTwice _ (by decide), fun since => ?_⟩
  show since + 18446744073709551615 ≠ 1014799476736
  omega

end World

end Duplex
