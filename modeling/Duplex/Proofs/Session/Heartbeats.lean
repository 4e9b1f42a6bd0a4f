/-
Duplex/Proofs/Session/Heartbeats.lean

When a carrier is handed heartbeats.

The *stay* of a carrier is its tenure with the times: it begins when the carrier
is attached, and what it is handed in between is handed at known times.  In a
timely run the heartbeats of a stay that began at `since` come at

    since + period, since + 2 * period, since + 3 * period, ...

one at each of these times until the stay is over, and at no other time
(`Stay.Kept`).  The invariant is `Rhythm`: the next heartbeat is due a whole
period after the last one, or after the beginning of the stay.  A deed other
than a heartbeat does not move that time (`nextBeat_does`), and one that sends a
heartbeat is done when it is due.
-/
import Duplex.Carrier.ResponseStream
import Duplex.Proofs.Session.Chronicle
import Duplex.Proofs.Session.Succession
import Duplex.Proofs.World.Timely

namespace Duplex.Session

variable {C : Type}

/-! ### Stays -/

/-- The time of one carrier: its place, when it came, and what it was handed when. -/
structure Stay where
  place : Nat
  since : Nat
  frames : List (Nat × Frame × Delivery)

namespace Stay

/-- What happens to the carrier until now. -/
def begun (y : Stay) : List (Nat × Event) :=
  (y.since, .attached y.place) :: y.frames.map fun f => (f.1, .handed y.place f.2.1 f.2.2)

/-- What happens to the carrier until it is finished. -/
def whole (y : Stay) (till : Nat) : List (Nat × Event) := y.begun ++ [(till, .finished y.place)]

/-- The carrier is handed more frames, all at one time. -/
def more (y : Stay) (time : Nat) (fs : List (Frame × Delivery)) : Stay :=
  { y with frames := y.frames ++ fs.map (time, ·) }

/-- The times of its heartbeats. -/
def beats (y : Stay) : List Nat := (y.frames.filter (·.2.1 == .heartbeat)).map (·.1)

/-- The carrier was handed a heartbeat after each of the first `count` periods, and no other. -/
def Steady (period count : Nat) (y : Stay) : Prop :=
  y.beats = (List.range count).map fun i => y.since + (i + 1) * period

/-- Up to that time the carrier was handed a heartbeat after every period, and no other. -/
def Kept (period till : Nat) (y : Stay) : Prop :=
  ∃ count, y.Steady period count ∧ y.since + count * period ≤ till ∧
    till ≤ y.since + (count + 1) * period

@[simp] theorem place_more (y : Stay) (time : Nat) (fs : List (Frame × Delivery)) :
    (y.more time fs).place = y.place := rfl

@[simp] theorem since_more (y : Stay) (time : Nat) (fs : List (Frame × Delivery)) :
    (y.more time fs).since = y.since := rfl

theorem begun_more (y : Stay) (time : Nat) (fs : List (Frame × Delivery)) :
    (y.more time fs).begun = y.begun ++ (handings y.place fs).map (time, ·) := by
  simp [begun, more, handings, Function.comp_def]

/-- How many heartbeats are among the frames. -/
def beatsIn (fs : List (Frame × Delivery)) : Nat := fs.countP (·.1 == .heartbeat)

theorem beats_more (y : Stay) (time : Nat) (fs : List (Frame × Delivery)) :
    (y.more time fs).beats = y.beats ++ List.replicate (beatsIn fs) time := by
  simp [beats, more, beatsIn, List.filter_map, Function.comp_def, List.countP_eq_length_filter,
    List.map_const']

theorem Steady.more_of_none {period count : Nat} {y : Stay} (h : y.Steady period count)
    {fs : List (Frame × Delivery)} (hfs : beatsIn fs = 0) (time : Nat) :
    (y.more time fs).Steady period count := by
  rw [Steady, beats_more, hfs, List.replicate_zero, List.append_nil]
  exact h

theorem Steady.more_of_one {period count : Nat} {y : Stay} (h : y.Steady period count)
    {fs : List (Frame × Delivery)} (hfs : beatsIn fs = 1) :
    (y.more (y.since + (count + 1) * period) fs).Steady period (count + 1) := by
  have hy : y.beats = (List.range count).map fun i => y.since + (i + 1) * period := h
  rw [Steady, beats_more, hfs, hy, List.range_succ, List.map_append]
  rfl

theorem steady_zero {n time period : Nat} {fs : List (Frame × Delivery)} (hfs : beatsIn fs = 0) :
    ((Stay.mk n time []).more time fs).Steady period 0 :=
  Steady.more_of_none (y := ⟨n, time, []⟩) (by simp [Steady, beats]) hfs time

end Stay

/-! ### The next heartbeat -/

section Deeds

variable [Carrier C] {s : Session C} {now : Moment} {n m : Nat}

/-- A frame to a carrier that stays leaves the heartbeat where it was, if it was set. -/
theorem nextBeat_push (ha : s.attached = some n) {f : Frame}
    (ha' : (s.push now f).attached = some m) :
    (s.push now f).nextBeat = some (s.nextBeat.getD (now.time + s.timing.period)) := by
  rcases push_clocks ha now f with ⟨-, h, -⟩ | ⟨h, -⟩
  · exact h
  · cases ha'.symm.trans h

/-- A carrier that is attached waits a whole period for its first heartbeat. -/
theorem nextBeat_attach (hc : s.phase = .closed → s.attached = none)
    (ha : (s.attach now n).attached = some m) :
    (s.attach now n).nextBeat = some (now.time + s.timing.period) := by
  obtain ⟨_, _, hseat, -⟩ := seat_eq now n s
  rcases hp : s.phase
  -- the opening frame is handed out, and its push arms the beat
  · rw [attach_of_fresh hp] at ha ⊢
    have hnext := nextBeat_push (s := s.seat now n) (n := n) (by rw [hseat]) ha
    rwa [hseat] at hnext ⊢
  -- with nothing queued the beat is armed outright, else by the push of the queue
  · rw [attach_of_live hp] at ha ⊢
    split
    · rw [hseat]
      rfl
    · rename_i hq
      rw [if_neg hq] at ha
      have hnext : ((s.seat now n).flush now).nextBeat =
          some ((s.seat now n).nextBeat.getD (now.time + (s.seat now n).timing.period)) :=
        nextBeat_push (s := { s.seat now n with outbound := [] }) (n := n) (by rw [hseat]) ha
      rw [hnext, hseat]
      rfl
  -- a closed session attaches nobody
  · obtain ⟨_, _, hh, -⟩ := hand_eq now n .goAway (s.record now (.attached n))
    rw [attach_of_closed hp, finish, hh] at ha
    cases (hc hp).symm.trans ha

theorem nextBeat_of_comer (hs : s.Wound) {d : Deed C} (hc : s.comer? d = some n)
    (ha : (s.does now d).attached = some m) :
    (s.does now d).nextBeat = some (now.time + s.timing.period) := by
  cases d with
  | register carrier =>
    simp only [comer?] at hc
    split at hc
    · cases hc
    · rename_i hg
      simp only [does, if_neg hg] at ha ⊢
      exact nextBeat_attach (s := s.addCarrier carrier) hs.closed ha
  | again i =>
    simp only [comer?] at hc
    split at hc
    · rename_i hi
      simp only [does, if_pos hi] at ha ⊢
      exact nextBeat_attach hs.closed ha
    · cases hc
  | _ => cases hc

/-- **Nothing but a heartbeat moves the time of the next one** while the carrier stays. -/
theorem nextBeat_does (hs : s.Wound) {d : Deed C} (hc : s.comer? d = none) (hbeat : d ≠ .beat)
    {b : Nat} (hb : s.nextBeat = some b) (hg : (s.does now d).gone = false)
    (ha : (s.does now d).attached = some m) : (s.does now d).nextBeat = some b := by
  have h := change_does now s d
  generalize s.does now d = s' at h hg ha ⊢
  obtain ⟨n, hn⟩ := Option.isSome_iff_exists.mp (hs.beating (by rw [hb]; rfl))
  cases h with
  | inward ho => rw [(sameOutward_does now s ho).nextBeat, hb]
  | idle => exact hb
  | stir i carrier => exact hb
  -- these leave the session gone, or bring a carrier, or leave none attached
  | forget => cases hg
  | register carrier hg' => simp [comer?, hg'] at hc
  | again i hg' hi => simp [comer?, hg', hi] at hc
  | lose i _ _ => simp [detach, hn, record] at ha
  | beat _ => exact absurd rfl hbeat
  -- a push keeps the beat that is armed
  | write message _ =>
    have hp : s.phase ≠ .closed := fun hp => by cases (hs.closed hp).symm.trans hn
    rw [write_of_attached hp hn] at ha ⊢
    have hnext : ((s.enqueue now message).flush now).nextBeat =
        some (s.nextBeat.getD (now.time + s.timing.period)) :=
      nextBeat_push (s := { s.enqueue now message with outbound := [] }) hn ha
    rw [hnext, hb, Option.getD_some]
  | depart _ =>
    have hp : s.phase ≠ .closed := fun hp => by cases (hs.closed hp).symm.trans hn
    cases (emptied_depart hp now).attached.symm.trans ha

/-- After a heartbeat to a carrier that stays, the next one is due a whole period later. -/
theorem nextBeat_beat (ha : (s.beat now).attached = some m) :
    (s.beat now).nextBeat = some (now.time + s.timing.period) := by
  obtain ⟨_, _, _, _, _, h, -⟩ := push_eq now .heartbeat s
  rw [beat] at ha ⊢
  split
  · rw [armBeat, h]
  · rename_i hn
    rw [if_neg hn] at ha
    exact absurd (by rw [ha]; rfl) hn

/-! ### Heartbeats among the frames -/

omit [Carrier C] in
theorem handed_eq_dealings (s : Session C) : s.handed = s.dealings.filterMap (·.handed?) := by
  have h (e : Event) : (if e.place?.isSome then e.handed? else none) = e.handed? := by
    cases e <;> rfl
  rw [handed, dealings, List.filterMap_reverse, List.filterMap_filter, List.filterMap_map]
  simp only [h, Function.comp_def]

omit [Carrier C] in
theorem filterMap_handings (n : Nat) (fs : List (Frame × Delivery)) :
    (handings n fs).filterMap (·.handed?) = fs.map fun f => (n, f.1) := by
  induction fs with
  | nil => rfl
  | cons f fs ih =>
    rw [handings] at ih ⊢
    rw [List.map_cons, List.filterMap_cons, ih]
    rfl

/-- How many heartbeats a deed sends. -/
def beatsOf (s : Session C) (d : Deed C) : Nat := (s.hands d).countP (·.2 == .heartbeat)

/-- The frames that pass at a deed are those that it hands over. -/
theorem hands_of_deals {u s' : Session C} (hs : s.Seated) {d : Deed C} (hs' : s' = s.does now d)
    (hu : u.handed = s.handed) {fs : List (Frame × Delivery)} {es : List Event}
    (hd : Deals u (handings n fs ++ es) s') (hes : es.filterMap (·.handed?) = []) :
    s.hands d = fs.map fun f => (n, f.1) := by
  have h := handed_does hs now d
  rw [← hs', handed_eq_dealings, hd.dealings, List.filterMap_append, ← handed_eq_dealings, hu,
    List.filterMap_append, hes, List.append_nil, filterMap_handings] at h
  exact (List.append_cancel_left h).symm

/-- The heartbeats among the frames that pass at a deed are those that it sends. -/
theorem beatsIn_of_deals {u s' : Session C} (hs : s.Seated) {d : Deed C} (hs' : s' = s.does now d)
    (hu : u.handed = s.handed) {fs : List (Frame × Delivery)} {es : List Event}
    (hd : Deals u (handings n fs ++ es) s') (hes : es.filterMap (·.handed?) = []) :
    Stay.beatsIn fs = s.beatsOf d := by
  rw [beatsOf, hands_of_deals hs hs' hu hd hes, List.countP_map, Stay.beatsIn]
  rfl

theorem beatsIn_of_handings {u s' : Session C} (hs : s.Seated) {d : Deed C}
    (hs' : s' = s.does now d) (hu : u.handed = s.handed) {fs : List (Frame × Delivery)}
    (hd : Deals u (handings n fs) s') : Stay.beatsIn fs = s.beatsOf d := by
  rw [← List.append_nil (handings n fs)] at hd
  exact beatsIn_of_deals hs hs' hu hd rfl

omit [Carrier C] in
/-- Only one deed sends heartbeats, and only one, when it is set. -/
theorem beatsOf_eq_zero {d : Deed C} (h : d = .beat → s.nextBeat = none) : s.beatsOf d = 0 := by
  rw [beatsOf, List.countP_eq_zero]
  rintro ⟨m, f⟩ hf
  rcases mem_hands hf with ⟨n, -, hg⟩ | ⟨n, -, ⟨rfl, -⟩ | ⟨_, -, -, he⟩ | ⟨-, -, -, he⟩⟩
  · cases hp : s.phase
    · simp only [greeting, hp, List.mem_singleton, Prod.mk.injEq] at hg
      simp [hg.2]
    · simp only [greeting, hp] at hg
      split at hg
      · cases hg
      · simp only [List.mem_singleton, Prod.mk.injEq] at hg
        simp [hg.2]
    · simp only [greeting, hp, List.mem_singleton, Prod.mk.injEq] at hg
      simp [hg.2, Frame.goAway]
  · simp [hands, h rfl] at hf
  · simp [(Prod.mk.inj he).2]
  · simp [(Prod.mk.inj he).2, Frame.goAway]

omit [Carrier C] in
theorem beatsOf_beat (hs : s.Wound) {b : Nat} (hb : s.nextBeat = some b) :
    s.beatsOf .beat = 1 := by
  obtain ⟨n, hn⟩ := Option.isSome_iff_exists.mp (hs.beating (by rw [hb]; rfl))
  simp [beatsOf, hands, hb, hn]

/-- Nothing happens any more to the carrier of a session that is gone. -/
theorem attached_of_gone (hs : s.Wound) (hg : s.gone = true) (d : Deed C) :
    (s.does now d).attached = s.attached := by
  have h := change_does now s d
  generalize s.does now d = s' at h ⊢
  have gone {p : Prop} (hn : s.gone = false) : p := by cases hg.symm.trans hn
  cases h with
  | inward ho => exact (sameOutward_does now s ho).attached
  | idle | forget | stir => rfl
  | beat hb =>
    rw [(hs.silent (by simp [isClosed, hg])).1] at hb
    cases hb
  | register _ hn => exact gone hn
  | again _ hn _ => exact gone hn
  | lose _ hn _ => exact gone hn
  | write _ hn => exact gone hn
  | depart hn => exact gone hn

end Deeds

/-! ### The rhythm of a session -/

/-- The chronicle is past stays, one after another, and the present one of the attached carrier.
Each was handed its heartbeats until it was over, or the session was forgotten, and the next one is
due a whole period after the last. -/
structure Rhythm (now : Nat) (past : List (Stay × Nat)) (present : Option Stay)
    (s : Session C) : Prop where
  chronicle : s.chronicle =
    past.flatMap (fun y => y.1.whole y.2) ++ present.toList.flatMap (·.begun)
  attached : s.attached = present.map (·.place)
  kept : ∀ y ∈ past, y.1.Kept s.timing.period y.2
  beating : ∀ y ∈ present, s.gone = false → ∃ count, y.Steady s.timing.period count ∧
    y.since + count * s.timing.period ≤ now ∧
    s.nextBeat = some (y.since + (count + 1) * s.timing.period)
  forgotten : ∀ y ∈ present, s.gone = true → ∃ till, till ≤ now ∧ y.Kept s.timing.period till

theorem IsNew.rhythm {s : Session C} (h : s.IsNew) (now : Nat) : Rhythm now [] none s := by
  obtain ⟨_, _, _, _, _, rfl⟩ := h
  exact ⟨rfl, rfl, by simp, by simp, by simp⟩

theorem Rhythm.later {now now' : Nat} {past : List (Stay × Nat)} {present : Option Stay}
    {s : Session C} (h : Rhythm now past present s) (hle : now ≤ now') :
    Rhythm now' past present s := by
  refine ⟨h.chronicle, h.attached, h.kept, fun y hy hg => ?_, fun y hy hg => ?_⟩
  · obtain ⟨count, hsteady, hnow, hnext⟩ := h.beating y hy hg
    exact ⟨count, hsteady, Nat.le_trans hnow hle, hnext⟩
  · obtain ⟨till, htill, hkept⟩ := h.forgotten y hy hg
    exact ⟨till, Nat.le_trans htill hle, hkept⟩

section Deeds

variable [Carrier C] {t : Turn C} {past : List (Stay × Nat)} {present : Option Stay} {y : Stay}
  {fs : List (Frame × Delivery)}

/-- The stay of the attached carrier goes on: it is handed a heartbeat when that is due. -/
theorem Rhythm.goes_on (h : Rhythm t.now.time past (some y) t.before) (ht : World.TurnInTime t)
    (hg : t.before.gone = false) (hc : t.before.comer? t.deed = none)
    (hfs : Stay.beatsIn fs = t.before.beatsOf t.deed) :
    ∃ count, (y.more t.now.time fs).Steady t.before.timing.period count ∧
      y.since + count * t.before.timing.period ≤ t.now.time ∧
      t.now.time ≤ y.since + (count + 1) * t.before.timing.period ∧
      ∀ m, t.after.attached = some m → t.after.gone = false →
        t.after.nextBeat = some (y.since + (count + 1) * t.before.timing.period) := by
  obtain ⟨count, hsteady, hle, hnext⟩ := h.beating y rfl hg
  by_cases hd : t.deed = .beat
  -- a beat is due on the schedule, and arms the next one a period later
  · have hdue : y.since + (count + 1) * t.before.timing.period = t.now.time := ht.beat hd _ hnext
    refine ⟨count + 1, ?_, Nat.le_of_eq hdue, ?_, fun m hm _ => ?_⟩
    · rw [← hdue]
      exact hsteady.more_of_one (by rw [hfs, hd, beatsOf_beat ht.wound hnext])
    · rw [Nat.add_mul (count + 1)]
      omega
    · have hafter : t.after = t.before.beat t.now := by simp [Turn.after, hd, does, hnext]
      rw [hafter] at hm ⊢
      rw [nextBeat_beat hm, ← hdue]
      congr 1
      rw [Nat.add_mul (count + 1), Nat.one_mul, Nat.add_assoc]
  -- any other turn leaves the armed beat where it is
  · refine ⟨count, ?_, hle, ht.ahead.nextBeat _ hnext, fun m hm hg' => ?_⟩
    · exact hsteady.more_of_none (by rw [hfs, beatsOf_eq_zero fun h => absurd h hd]) _
    · exact nextBeat_does ht.wound hc hd hnext hg' hm

omit [Carrier C] in
/-- In a session that is gone it is handed nothing more. -/
theorem Rhythm.is_over {now : Nat} {s : Session C} (h : Rhythm now past (some y) s)
    (hs : s.Wound) (hg : s.gone = true) {d : Deed C} (hfs : Stay.beatsIn fs = s.beatsOf d) :
    ∃ till, till ≤ now ∧ (y.more now fs).Kept s.timing.period till := by
  obtain ⟨till, hle, count, hsteady, hkept⟩ := h.forgotten y rfl hg
  have hnone : s.nextBeat = none := (hs.silent (by simp [isClosed, hg])).1
  exact ⟨till, hle, count, hsteady.more_of_none (by rw [hfs, beatsOf_eq_zero fun _ => hnone]) _,
    hkept⟩

/-- A stay that goes on until the session is as it is now, or is over by then. -/
structure Stay.Fares (now : Nat) (s : Session C) (y : Stay) : Prop where
  ended : s.attached = none → y.Kept s.timing.period now
  beating : s.attached = some y.place → s.gone = false → ∃ count,
    y.Steady s.timing.period count ∧ y.since + count * s.timing.period ≤ now ∧
    s.nextBeat = some (y.since + (count + 1) * s.timing.period)
  forgotten : s.attached = some y.place → s.gone = true →
    ∃ till, till ≤ now ∧ y.Kept s.timing.period till

/-- A carrier is served, and its stay goes on or is over. -/
theorem exists_rhythm_of_serves {u : Session C} (hs : t.before.Seated)
    (hu : u.handed = t.before.handed)
    (hchronicle : ∀ es, Deals u es t.after → t.after.chronicle =
      past.flatMap (fun y => y.1.whole y.2) ++ y.begun ++ es.map (t.now.time, ·))
    (hkept : ∀ y ∈ past, y.1.Kept t.after.timing.period y.2)
    (hfares : ∀ fs, Stay.beatsIn fs = t.before.beatsOf t.deed →
      (y.more t.now.time fs).Fares t.now.time t.after)
    (hserves : Serves y.place u t.after) :
    ∃ past' present', Rhythm t.now.time past' present' t.after := by
  obtain ⟨fs, ⟨hd, ha⟩ | ⟨hd, ha⟩⟩ := hserves
  -- the carrier keeps its place, so its stay goes on
  · have hfs := hfares fs (beatsIn_of_handings hs rfl hu hd)
    refine ⟨past, some (y.more t.now.time fs), ?_, ha, hkept, ?_, ?_⟩
    · rw [hchronicle _ hd, Option.toList_some, List.flatMap_singleton, Stay.begun_more,
        List.append_assoc]
    · rintro _ ⟨⟩ hg
      exact hfs.beating ha hg
    · rintro _ ⟨⟩ hg
      exact hfs.forgotten ha hg
  -- the carrier is finished in this turn, so its stay is over
  · have hfs := hfares fs (beatsIn_of_deals hs rfl hu hd rfl)
    refine ⟨past ++ [(y.more t.now.time fs, t.now.time)], none, ?_, ha, ?_, by simp, by simp⟩
    · rw [hchronicle _ hd]
      simp [Stay.whole, Stay.begun_more]
    · exact List.forall_mem_append.mpr ⟨hkept, List.forall_mem_singleton.mpr (hfs.ended ha)⟩

/-- The attached carrier is served. -/
theorem Rhythm.fares (h : Rhythm t.now.time past (some y) t.before) (ht : World.TurnInTime t)
    (hc : t.before.comer? t.deed = none) (hfs : Stay.beatsIn fs = t.before.beatsOf t.deed) :
    (y.more t.now.time fs).Fares t.now.time t.after := by
  have htiming : t.after.timing = t.before.timing := (made_does t.now t.before t.deed).2.1
  rcases hg₀ : t.before.gone with - | -
  · obtain ⟨count, hsteady, hle, hle', hnext⟩ := h.goes_on ht hg₀ hc hfs
    refine ⟨fun _ => ?_, fun ha hg => ?_, fun _ _ => ?_⟩
    · exact ⟨count, htiming ▸ hsteady, htiming ▸ hle, htiming ▸ hle'⟩
    · exact ⟨count, htiming ▸ hsteady, htiming ▸ hle, htiming ▸ hnext _ ha hg⟩
    · exact ⟨t.now.time, Nat.le_refl _, count, htiming ▸ hsteady, htiming ▸ hle, htiming ▸ hle'⟩
  · have hsame : t.after.attached = t.before.attached :=
      attached_of_gone ht.wound hg₀ t.deed
    refine ⟨fun ha => ?_, fun _ hg => ?_, fun _ _ => ?_⟩
    · cases ha.symm.trans (hsame.trans h.attached)
    · cases hg₀.symm.trans (gone_of_does hg)
    · rw [htiming]
      exact h.is_over ht.wound hg₀ hfs

omit [Carrier C] in
/-- The stay of the attached carrier may be over at any time. -/
theorem Rhythm.kept_now (h : Rhythm t.now.time past present t.before) (ht : World.TurnInTime t)
    (hg : t.before.gone = false) :
    ∀ y ∈ present, y.Kept t.before.timing.period t.now.time := by
  intro y hy
  obtain ⟨count, hsteady, hle, hnext⟩ := h.beating y hy hg
  exact ⟨count, hsteady, hle, ht.ahead.nextBeat _ hnext⟩

omit [Carrier C] in
/-- A carrier that comes is handed no heartbeat yet. -/
theorem steady_of_comer {n : Nat} (hc : t.before.comer? t.deed = some n)
    (hfs : Stay.beatsIn fs = t.before.beatsOf t.deed) (period : Nat) :
    ((Stay.mk n t.now.time []).more t.now.time fs).Steady period 0 := by
  refine Stay.steady_zero (hfs.trans (beatsOf_eq_zero fun hd => ?_))
  rw [hd] at hc
  cases hc

theorem fares_of_comer (ht : World.TurnInTime t) {n : Nat} (hc : t.before.comer? t.deed = some n)
    (hfs : Stay.beatsIn fs = t.before.beatsOf t.deed) :
    ((Stay.mk n t.now.time []).more t.now.time fs).Fares t.now.time t.after := by
  have htiming : t.after.timing = t.before.timing := (made_does t.now t.before t.deed).2.1
  have hsteady := steady_of_comer hc hfs
  refine ⟨fun _ => ⟨0, hsteady _, by simp, by simp⟩, fun ha _ => ⟨0, hsteady _, by simp, ?_⟩,
    fun _ _ => ⟨t.now.time, Nat.le_refl _, 0, hsteady _, by simp, by simp⟩⟩
  have hnext : t.after.nextBeat = some (t.now.time + t.before.timing.period) :=
    nextBeat_of_comer ht.wound hc ha
  simpa [htiming] using hnext

/-- **A deed keeps the rhythm**, and a carrier that comes with it begins a new stay. -/
theorem Rhythm.does (h : Rhythm t.now.time past present t.before) (hs : t.before.Seated)
    (ht : World.TurnInTime t) : ∃ past' present', Rhythm t.now.time past' present' t.after := by
  have hd : Dealt (t.before.laid t.deed) t.after (t.before.comer? t.deed) :=
    dealt_does hs ht.wound.closed t.now t.deed
  have hstamped : Stamped t.now t.before t.after := stamped_does t.now t.before t.deed
  have htiming : t.after.timing = t.before.timing := (made_does t.now t.before t.deed).2.1
  obtain ⟨hl, ha⟩ := laid_same t.before t.deed
  generalize hlaid : t.before.laid t.deed = u at hd hl ha
  generalize hc : t.before.comer? t.deed = o at hd
  cases hd with
  | idle hn hn' he =>
    -- nobody is attached, before or after
    obtain rfl : present = none := Option.map_eq_none_iff.mp (h.attached.symm.trans (ha ▸ hn))
    refine ⟨past, none, ?_, hn', htiming ▸ h.kept, by simp, by simp⟩
    have hdealings : t.after.dealings = t.before.dealings ++ [] := he.dealings.trans (by rw [hl])
    rw [chronicle_of_stamped hstamped hdealings, h.chronicle]
    simp
  | serves n hn hserves =>
    -- the stay of the attached carrier goes on
    obtain ⟨y, rfl, rfl⟩ := Option.map_eq_some_iff.mp (h.attached.symm.trans (ha ▸ hn))
    have hu : u.handed = t.before.handed := by
      rw [handed_eq_dealings, handed_eq_dealings, hl]
    refine exists_rhythm_of_serves hs hu (fun es hd => ?_) (htiming ▸ h.kept)
      (fun fs hfs => h.fares ht hc hfs) hserves
    rw [chronicle_of_stamped hstamped (hd.dealings.trans (by rw [hl])), h.chronicle]
    simp
  | comes n v hv hserves =>
    -- the stay that was under way ends now, and a new one begins
    have hg : t.before.gone = false := by
      by_contra hg
      rw [comer?_of_gone (by simpa using hg)] at hc
      cases hc
    rw [ha] at hv
    have hu : v.handed = t.before.handed := by
      rw [handed_eq_dealings, handed_eq_dealings, hv.dealings, hl]
      cases t.before.attached <;> simp [Event.handed?]
    have hkept : ∀ y ∈ past ++ present.toList.map fun y => (y, t.now.time),
        y.1.Kept t.after.timing.period y.2 := by
      rw [htiming]
      refine List.forall_mem_append.mpr ⟨h.kept, fun p hp => ?_⟩
      obtain ⟨y, hy, rfl⟩ := List.mem_map.mp hp
      exact h.kept_now ht hg y (Option.mem_toList.mp hy)
    refine exists_rhythm_of_serves (y := ⟨n, t.now.time, []⟩) hs hu (fun es hd => ?_) hkept
      (fun fs hfs => fares_of_comer ht hc hfs) hserves
    rw [chronicle_of_stamped hstamped ((hv.trans hd).dealings.trans (by rw [hl])), h.chronicle,
      h.attached]
    cases present <;> simp [Stay.whole, Stay.begun]

/-- What the chronicle has of a deed with which a carrier comes. -/
theorem chronicle_of_comer (hs : t.before.Seated) (ht : World.TurnInTime t) {n : Nat}
    (hc : t.before.comer? t.deed = some n) :
    ∃ y : Stay, y.place = n ∧ y.since = t.now.time ∧ y.beats = [] ∧
      ∃ z, (z = y.begun ∨ z = y.whole t.now.time) ∧ t.after.chronicle =
        t.before.chronicle ++
          (t.before.attached.toList.map fun m => (t.now.time, .finished m)) ++ z := by
  have hd : Dealt (t.before.laid t.deed) t.after (t.before.comer? t.deed) :=
    dealt_does hs ht.wound.closed t.now t.deed
  have hstamped : Stamped t.now t.before t.after := stamped_does t.now t.before t.deed
  obtain ⟨hl, ha⟩ := laid_same t.before t.deed
  generalize t.before.laid t.deed = u at hd hl ha
  rw [hc] at hd
  -- what comes first finishes the old carrier, then the new one is served
  obtain ⟨v, hv, fs, hserves⟩ :
      ∃ v, Deals u (u.attached.toList.map .finished ++ [.attached n]) v ∧ Serves n v t.after := by
    cases hd with
    | comes _ v hv hserves => exact ⟨v, hv, hserves⟩
  rw [ha] at hv
  have hu : v.handed = t.before.handed := by
    rw [handed_eq_dealings, handed_eq_dealings, hv.dealings, hl]
    cases t.before.attached <;> simp [Event.handed?]
  have hchronicle {es : List Event} (hd : Deals v es t.after) := chronicle_of_stamped hstamped
    ((hv.trans hd).dealings.trans (by rw [hl]))
  refine ⟨(Stay.mk n t.now.time []).more t.now.time fs, rfl, rfl, ?_, ?_⟩
  -- no heartbeat is among the frames a comer is handed
  · have hfs : Stay.beatsIn fs = t.before.beatsOf t.deed := by
      rcases hserves with ⟨hd, -⟩ | ⟨hd, -⟩
      · exact beatsIn_of_handings hs rfl hu hd
      · exact beatsIn_of_deals hs rfl hu hd rfl
    exact steady_of_comer hc hfs 0
  · rcases hserves with ⟨hd, -⟩ | ⟨hd, -⟩
    · exact ⟨_, .inl rfl, by
      simp [hchronicle hd, Stay.begun, Stay.more, handings, Function.comp_def]⟩
    · exact ⟨_, .inr rfl, by
      simp [hchronicle hd, Stay.whole, Stay.begun, Stay.more, handings, Function.comp_def]⟩

omit [Carrier C] in
/-- A deed that sends a heartbeat is one that is done for it, and the attached carrier is handed
it. -/
theorem of_heartbeat {s : Session C} {d : Deed C} {n : Nat} (h : (n, .heartbeat) ∈ s.hands d) :
    d = .beat ∧ s.attached = some n ∧ s.nextBeat.isSome := by
  have hbeats : s.beatsOf d ≠ 0 := by
    rw [beatsOf, Ne, List.countP_eq_zero]
    exact fun hn => hn _ h rfl
  have hd : d = .beat ∧ s.nextBeat ≠ none := by
    by_contra hn
    exact hbeats (beatsOf_eq_zero fun hd => by_contra fun hnone => hn ⟨hd, hnone⟩)
  obtain ⟨rfl, hb⟩ := hd
  have hsome : s.nextBeat.isSome := Option.isSome_iff_ne_none.mpr hb
  rw [hands, if_pos hsome] at h
  obtain ⟨m, hm, he⟩ := List.mem_map.mp h
  obtain ⟨rfl, -⟩ := Prod.mk.inj he
  exact ⟨rfl, Option.mem_toList.mp hm, hsome⟩

/-- What becomes of a carrier that takes no more after a heartbeat. -/
theorem leaves_of_heartbeat (hs : t.before.Seated) {n : Nat}
    (h : (n, .heartbeat) ∈ t.before.hands t.deed) (ha' : t.after.attached ≠ some n) :
    t.after.attached = none ∧ t.after.nextBeat = none ∧
      t.after.deadline = some (t.now.time + t.before.timing.grace) ∧
      ∃ delivery, t.after.chronicle = t.before.chronicle ++
        [(t.now.time, .handed n .heartbeat delivery), (t.now.time, .finished n)] := by
  obtain ⟨hbeat, ha, hb⟩ := of_heartbeat h
  have hafter : t.after = t.before.beat t.now := by
    rw [Turn.after, hbeat, Session.does, if_pos hb]
  have hserves : Serves n t.before t.after := hafter ▸ serves_beat ha (hs n ha) t.now
  have hstamped : Stamped t.now t.before t.after := stamped_does t.now t.before t.deed
  obtain ⟨fs, ⟨-, hn⟩ | ⟨hd, hn⟩⟩ := hserves
  · exact absurd hn ha'
  have hhands : t.before.hands t.deed = fs.map fun f => (n, f.1) :=
    hands_of_deals hs rfl rfl hd rfl
  -- the heartbeat is the only frame of this turn
  obtain ⟨delivery, rfl⟩ : ∃ delivery, fs = [(.heartbeat, delivery)] := by
    rw [hbeat, Session.hands, if_pos hb, ha] at hhands
    rcases fs with - | ⟨⟨f, delivery⟩, - | ⟨g, fs⟩⟩
    · cases hhands
    · have hf : Frame.heartbeat = f := by simpa using hhands
      exact ⟨delivery, by rw [hf]⟩
    · simp at hhands
  -- the frame is not taken, so the clocks are those of a session that lost its carrier
  have hbeaten : t.before.beat t.now = t.before.push t.now .heartbeat := by
    rcases push_clocks ha t.now .heartbeat with ⟨hstay, -⟩ | ⟨hgone, -⟩
    · refine absurd ?_ ha'
      rw [hafter, Session.beat, if_pos (by rw [hstay]; rfl)]
      exact hstay
    · rw [Session.beat, if_neg (by rw [hgone]; exact Bool.false_ne_true)]
  rw [hafter, hbeaten] at hn
  obtain ⟨hnext, hdeadline⟩ : (t.before.push t.now .heartbeat).nextBeat = none ∧
      (t.before.push t.now .heartbeat).deadline = some (t.now.time + t.before.timing.grace) := by
    rcases push_clocks ha t.now .heartbeat with ⟨hstay, -⟩ | ⟨-, h⟩
    · cases hn.symm.trans hstay
    · exact h
  refine ⟨by rw [hafter, hbeaten, hn], by rw [hafter, hbeaten, hnext],
    by rw [hafter, hbeaten, hdeadline], delivery, ?_⟩
  rw [chronicle_of_stamped hstamped hd.dealings]
  rfl

end Deeds

end Duplex.Session

namespace Duplex.World

open Session (Deed Turn Stay Rhythm)

variable {C : Type} [Carrier C]

/-! ### Runs -/

/-- **Every timely run keeps the rhythm.** -/
theorem rhythm_of_run {ms : List (Move C)} (hms : Timely ({} : World C) ms) {k : Nat}
    {s : Session C} (hs : (({} : World C).after ms).sessions[k]? = some s) :
    s.Seated ∧ ∃ past present, Rhythm (({} : World C).after ms).now.time past present s := by
  refine timely_run (P := fun now s => s.Seated ∧ ∃ past present, Rhythm now past present s)
    ?_ ?_ ?_ hms hs
  · intro now s hnew
    exact ⟨hnew.seated, [], none, hnew.rhythm now⟩
  · rintro now now' s hle - ⟨hseat, past, present, h⟩
    exact ⟨hseat, past, present, h.later hle⟩
  · rintro t ht ⟨hseat, past, present, h⟩
    exact ⟨hseat.does t.now t.deed, h.does hseat ht⟩

/-- The heartbeats of session `s`, the `k`th one of a run. -/
structure Heartbeats (k : Nat) (ms : List (Move C)) (s : Session C) : Prop where
  /-- The carriers of the session have their stays one after another, and each is handed one
  heartbeat after every whole period of its stay and no other. -/
  stays : ∃ past present, Rhythm (({} : World C).after ms).now.time past present s ∧
    ∀ y ∈ present, s.gone = false →
      y.Kept s.timing.period (({} : World C).after ms).now.time ∧
      ((({} : World C).after ms).AtRest → ∃ count, y.Steady s.timing.period count ∧
        y.since + count * s.timing.period ≤ (({} : World C).after ms).now.time ∧
        (({} : World C).after ms).now.time < y.since + (count + 1) * s.timing.period)
  /-- A stay begins when its carrier comes, and the one before is over then. -/
  comes : ∀ t ∈ turns k {} ms, ∀ n, t.before.comer? t.deed = some n →
    ∃ y : Stay, y.place = n ∧ y.since = t.now.time ∧ y.beats = [] ∧
      ∃ z, (z = y.begun ∨ z = y.whole t.now.time) ∧ t.after.chronicle =
        t.before.chronicle ++
          (t.before.attached.toList.map fun m => (t.now.time, .finished m)) ++ z
  /-- A heartbeat is handed to the attached carrier, at the time at which it is due. -/
  handed : ∀ t ∈ turns k {} ms, ∀ n, (n, .heartbeat) ∈ t.before.hands t.deed →
    t.deed = .beat ∧ t.before.attached = some n ∧ t.before.nextBeat = some t.now.time
  /-- A carrier that takes no more after a heartbeat is finished at that time, and the deadline is
  set from that time. -/
  leaves : ∀ t ∈ turns k {} ms, ∀ n, (n, .heartbeat) ∈ t.before.hands t.deed →
    t.after.attached ≠ some n → t.after.attached = none ∧ t.after.nextBeat = none ∧
      t.after.deadline = some (t.now.time + t.before.timing.grace) ∧
      ∃ delivery, t.after.chronicle = t.before.chronicle ++
        [(t.now.time, .handed n .heartbeat delivery), (t.now.time, .finished n)]
  /-- Left to itself, the world goes on like this. -/
  settles : ∀ limit fuel, ∃ ms', (({} : World C).after ms).settle limit fuel =
    ({} : World C).after (ms ++ ms') ∧ Timely ({} : World C) (ms ++ ms')

/-- **The heartbeats of a carrier come after every whole period of its stay**, each at its time,
and no other ever comes: whatever happens in between, and in whichever pieces time passes. -/
theorem heartbeats_of_run {ms : List (Move C)} (hms : Timely ({} : World C) ms) {k : Nat}
    {s : Session C} (hs : (({} : World C).after ms).sessions[k]? = some s) :
    Heartbeats k ms s where
  stays := by
    obtain ⟨-, past, present, h⟩ := rhythm_of_run hms hs
    refine ⟨past, present, h, fun y hy hg => ?_⟩
    obtain ⟨count, hsteady, hle, hnext⟩ := h.beating y hy hg
    have hahead := (InTime.empty.after hms s (List.mem_of_getElem? hs)).2
    refine ⟨⟨count, hsteady, hle, hahead.nextBeat _ hnext⟩, fun hrest => ?_⟩
    refine ⟨count, hsteady, hle, hrest.due.2 s (List.mem_of_getElem? hs) _ ?_⟩
    rw [Session.due?, hnext, Option.some_or]
  comes := fun t ht n hc =>
    Session.chronicle_of_comer (seated_of_turn ms ht).1 (turn_of_timely hms ht) hc
  handed := by
    intro t ht n hn
    obtain ⟨hbeat, ha, hb⟩ := Session.of_heartbeat hn
    obtain ⟨b, hb⟩ := Option.isSome_iff_exists.mp hb
    exact ⟨hbeat, ha, hb.trans (congrArg some ((turn_of_timely hms ht).beat hbeat b hb))⟩
  leaves := fun t ht n hn hgone => Session.leaves_of_heartbeat (seated_of_turn ms ht).1 hn hgone
  settles := by
    intro limit fuel
    obtain ⟨ms', h, hms'⟩ := exists_settle_eq_timely limit fuel (InTime.empty.after hms)
    exact ⟨ms', by rw [h, after_append], (timely_append _ ms ms').mpr ⟨hms, hms'⟩⟩

/-- A session opens at that time, with a carrier that takes every frame. -/
def opened (time : Nat) (timing : Timing) : List (Move Conduit) :=
  [.make "a" timing (fun _ => .done) none true true, .pass time, .register 0 (.queue {})]

theorem timely_opened (time : Nat) (timing : Timing) :
    Timely ({} : World Conduit) (opened time timing) := by
  refine ⟨rfl, ⟨rfl, fun s hs t ht => ?_⟩, rfl, trivial⟩
  rw [List.mem_singleton.mp hs] at ht
  cases ht

/-- No time at all between heartbeats. -/
def restless : Timing := { heartbeat := 0, patience := none }

/-- Without a time between heartbeats, they come every millisecond. -/
theorem heartbeats_of_restless : ∃ ms s, Timely ({} : World Conduit) ms ∧
    (({} : World Conduit).after ms).sessions[0]? = some s ∧ s.timing.heartbeat = 0 ∧
    s.chronicle = [(5, .attached 0), (5, .handed 0 .opening .more), (6, .handed 0 .heartbeat .more),
      (7, .handed 0 .heartbeat .more)] ∧
    Heartbeats 0 ms s := by
  have hopened := timely_opened 5 restless
  obtain ⟨ms, h, hms⟩ := exists_settle_eq_timely 7 9 (InTime.empty.after hopened)
  have hms' := (timely_append _ _ ms).mpr ⟨hopened, hms⟩
  rw [← after_append] at h
  obtain ⟨s, hs, ht, hc⟩ : ∃ s,
      (({} : World Conduit).after (opened 5 restless ++ ms)).sessions[0]? = some s ∧
      s.timing.heartbeat = 0 ∧ s.chronicle = [(5, .attached 0), (5, .handed 0 .opening .more),
        (6, .handed 0 .heartbeat .more), (7, .handed 0 .heartbeat .more)] := by
    rw [← h]
    exact ⟨_, rfl, rfl, by decide +kernel⟩
  exact ⟨_, s, hms', hs, ht, hc, heartbeats_of_run hms' hs⟩

/-- A longer time between heartbeats than the clock keeps. -/
def endless : Timing := { heartbeat := 18446744073709551615, patience := some 5000 }

/-- Who asks for more time between heartbeats than the clock keeps is sent one after thirty
years. -/
theorem exists_heartbeat_before_time : ∃ ms s, Timely ({} : World Conduit) ms ∧
    (({} : World Conduit).after ms).sessions[0]? = some s ∧
    s.timing.heartbeat = 18446744073709551615 ∧
    s.chronicle = [(68719476736, .attached 0), (68719476736, .handed 0 .opening .more),
      (1014799476736, .handed 0 .heartbeat .more)] ∧
    ∀ count, 1014799476736 ≠ 68719476736 + (count + 1) * max s.timing.heartbeat 1 := by
  have hopened := timely_opened 68719476736 endless
  obtain ⟨ms, h, hms⟩ := exists_settle_eq_timely 1014799476736 9 (InTime.empty.after hopened)
  rw [← after_append] at h
  obtain ⟨s, hs, ht, hc⟩ : ∃ s, (({} : World Conduit).after
      (opened 68719476736 endless ++ ms)).sessions[0]? = some s ∧
      s.timing.heartbeat = 18446744073709551615 ∧ s.chronicle = [(68719476736, .attached 0),
        (68719476736, .handed 0 .opening .more), (1014799476736, .handed 0 .heartbeat .more)] := by
    rw [← h]
    exact ⟨_, rfl, rfl, by decide +kernel⟩
  refine ⟨_, s, (timely_append _ _ ms).mpr ⟨hopened, hms⟩, hs, ht, hc, fun count => ?_⟩
  have hlong : max s.timing.heartbeat 1 ≤ (count + 1) * max s.timing.heartbeat 1 :=
    Nat.le_mul_of_pos_left _ (Nat.succ_pos count)
  rw [ht] at hlong ⊢
  omega

end Duplex.World
