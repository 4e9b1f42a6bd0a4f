/-
Duplex/Proofs/Session/Succession.lean

One carrier at a time, and the newest wins.

The *tenure* of a carrier begins when it is attached and is over when it is
finished; in between it is handed frames, and nothing else happens to it.  What
passes between a session and its carriers is one tenure after another, one for
each carrier that comes, in the order in which they come.  Every tenure but
the last is over, and the last one is over too unless its carrier is attached.
A carrier that comes again has a tenure of its own each time.

`Tenures.does` is the step, read off the table of dealings.  What the other
carriers do meanwhile makes no difference: a session is not told of their
connections, and when it is told nothing happens.
-/
import Duplex.Proofs.Session.Dealings
import Duplex.Proofs.Session.Language

namespace Duplex

variable {C : Type}

namespace Session

/-! ### Tenures -/

/-- The time of one carrier: its place, and the frames that it is handed. -/
structure Tenure where
  place : Nat
  frames : List (Frame × Delivery)

namespace Tenure

/-- What happens to the carrier until now. -/
def begun (t : Tenure) : List Event := .attached t.place :: handings t.place t.frames

/-- What happens to the carrier until it is finished. -/
def whole (t : Tenure) : List Event := t.begun ++ [.finished t.place]

/-- The carrier is handed more frames. -/
def more (t : Tenure) (fs : List (Frame × Delivery)) : Tenure := { t with frames := t.frames ++ fs }

@[simp] theorem place_more (t : Tenure) (fs : List (Frame × Delivery)) :
    (t.more fs).place = t.place := rfl

@[simp] theorem begun_more (t : Tenure) (fs : List (Frame × Delivery)) :
    (t.more fs).begun = t.begun ++ handings t.place fs := by
  simp [begun, more, handings]

end Tenure

/-- The dealings of a session are past tenures, one after another, and the present one of the
attached carrier; together these are the carriers that came. -/
structure Tenures (past : List Tenure) (present : Option Tenure) (arrivals : List Nat)
    (s : Session C) : Prop where
  dealings : s.dealings = past.flatMap (·.whole) ++ present.toList.flatMap (·.begun)
  attached : s.attached = present.map (·.place)
  arrivals : arrivals = (past ++ present.toList).map (·.place)

theorem IsNew.tenures {s : Session C} (h : s.IsNew) : Tenures [] none [] s := by
  obtain ⟨_, _, _, _, _, rfl⟩ := h
  exact ⟨rfl, rfl, rfl⟩

variable {s s' : Session C}

/-- The carrier that came last is the attached one, if one is attached. -/
theorem Tenures.latest {past : List Tenure} {present : Option Tenure} {ns : List Nat}
    (h : Tenures past present ns s) {n : Nat} (hn : s.attached = some n) :
    ns.getLast? = some n := by
  rw [h.attached] at hn
  obtain ⟨t, rfl, rfl⟩ := Option.map_eq_some_iff.mp hn
  simp [h.arrivals]

/-- What happened to the carrier in place `n`. -/
def dealingsWith (n : Nat) (s : Session C) : List Event :=
  s.dealings.filter (·.place? == some n)

theorem Tenure.place?_of_mem_whole {t : Tenure} : ∀ e ∈ t.whole, e.place? = some t.place := by
  intro e he
  simp only [whole, begun, handings, List.cons_append, List.mem_cons, List.mem_append,
    List.mem_map, List.not_mem_nil, or_false] at he
  rcases he with rfl | ⟨_, -, rfl⟩ | rfl
  · rfl
  · rfl
  · rfl

theorem Tenure.place?_of_mem_begun {t : Tenure} : ∀ e ∈ t.begun, e.place? = some t.place :=
  fun e he => t.place?_of_mem_whole e (List.mem_append_left _ he)

/-- The last thing that happened to a carrier of a past tenure is that it was finished. -/
theorem getLast?_filter_whole {past : List Tenure} {n : Nat} (hn : n ∈ past.map (·.place)) :
    ((past.flatMap (·.whole)).filter (·.place? == some n)).getLast? = some (.finished n) := by
  induction past using List.reverseRecOn with
  | nil => cases hn
  | append_singleton past t ih =>
    rw [List.flatMap_append, List.filter_append, List.flatMap_singleton]
    by_cases ht : t.place = n
    · have hself : t.whole.filter (·.place? == some n) = t.whole := by
        apply List.filter_eq_self.mpr
        intro e he
        simp [t.place?_of_mem_whole e he, ht]
      rw [hself, Tenure.whole, ← List.append_assoc, List.getLast?_concat, ht]
    -- it was an earlier tenure
    · have hnil : t.whole.filter (·.place? == some n) = [] := by
        apply List.filter_eq_nil_iff.mpr
        intro e he
        simp [t.place?_of_mem_whole e he, ht]
      rw [hnil, List.append_nil]
      apply ih
      rw [List.map_append, List.mem_append] at hn
      exact hn.resolve_right fun h => ht (List.mem_singleton.mp h).symm

/-- Every carrier that came and is not attached has been finished, and nothing happened to it
since. -/
theorem Tenures.finished {past : List Tenure} {present : Option Tenure} {ns : List Nat}
    (h : Tenures past present ns s) {n : Nat} (hn : n ∈ ns) (ha : s.attached ≠ some n) :
    (s.dealingsWith n).getLast? = some (.finished n) := by
  have hpresent : ∀ t ∈ present, t.place ≠ n := by
    rintro t rfl ht
    exact ha (by rw [h.attached, Option.map_some, ht])
  have hpast : n ∈ past.map (·.place) := by
    rw [h.arrivals, List.map_append, List.mem_append] at hn
    refine hn.resolve_right fun hn => ?_
    obtain ⟨t, ht, rfl⟩ := List.mem_map.mp hn
    exact hpresent t (Option.mem_toList.mp ht) rfl
  have hnil : (present.toList.flatMap (·.begun)).filter (·.place? == some n) = [] := by
    apply List.filter_eq_nil_iff.mpr
    intro e he
    obtain ⟨t, ht, he⟩ := List.mem_flatMap.mp he
    simp [t.place?_of_mem_begun e he, hpresent t (Option.mem_toList.mp ht)]
  rw [dealingsWith, h.dealings, List.filter_append, hnil, List.append_nil]
  exact getLast?_filter_whole hpast

/-! ### One deed -/

variable [Carrier C]

/-- A carrier that is served goes on with its tenure, or its tenure is over. -/
theorem exists_tenures_of_serves {past : List Tenure} {t : Tenure} {u : Session C}
    (hu : u.dealings = past.flatMap (·.whole) ++ t.begun) (h : Serves t.place u s') :
    ∃ past' present', Tenures past' present' ((past ++ [t]).map (·.place)) s' := by
  obtain ⟨fs, ⟨h, ha⟩ | ⟨h, ha⟩⟩ := h
  · refine ⟨past, some (t.more fs), ?_, ha, by simp⟩
    simp [h.dealings, hu]
  · refine ⟨past ++ [t.more fs], none, ?_, ha, by simp⟩
    simp [h.dealings, hu, Tenure.whole]

omit [Carrier C] in
theorem laid_same (s : Session C) (d : Deed C) :
    (s.laid d).dealings = s.dealings ∧ (s.laid d).attached = s.attached := by
  cases d with
  | register carrier =>
    simp only [laid]
    split
    · exact ⟨rfl, rfl⟩
    · exact ⟨rfl, rfl⟩
  | _ => exact ⟨rfl, rfl⟩

/-- **A deed goes on with the tenures**, and a carrier that comes with it begins a new one. -/
theorem Tenures.does {past : List Tenure} {present : Option Tenure} {ns : List Nat}
    (h : Tenures past present ns s) (hs : s.Seated) (hc : s.phase = .closed → s.attached = none)
    (now : Moment) (d : Deed C) :
    ∃ past' present', Tenures past' present' (ns ++ (s.comer? d).toList) (s.does now d) := by
  have hd := dealt_does hs hc now d
  obtain ⟨hl, ha⟩ := laid_same s d
  generalize s.laid d = u at hd hl ha
  generalize s.does now d = s' at hd ⊢
  generalize s.comer? d = o at hd ⊢
  rw [h.dealings] at hl
  rw [h.attached] at ha
  cases hd with
  | idle hn hn' he =>
    -- nobody holds the session
    obtain rfl : present = none := Option.map_eq_none_iff.mp (ha.symm.trans hn)
    refine ⟨past, none, ?_, hn', ?_⟩
    · rw [he.dealings, hl, List.append_nil]
    · simp [h.arrivals]
  | serves n hn hserves =>
    -- the present holder is served on
    obtain ⟨t, rfl, rfl⟩ := Option.map_eq_some_iff.mp (ha.symm.trans hn)
    have ht := exists_tenures_of_serves (t := t) (by simpa using hl) hserves
    simpa [h.arrivals] using ht
  | comes n v hv hserves =>
    -- the present tenure is over, and that of the comer begins
    have hvd : v.dealings =
        (past ++ present.toList).flatMap (·.whole) ++ (Tenure.mk n []).begun := by
      rw [hv.dealings, hl, ha]
      rcases present with - | t
      · simp [Tenure.begun, handings]
      · simp [Tenure.begun, Tenure.whole, handings]
    have ht := exists_tenures_of_serves (t := ⟨n, []⟩) hvd hserves
    simpa [h.arrivals] using ht

/-- What passes when no carrier comes passes with the attached one. -/
theorem Dealt.of_none (h : Dealt s s' none) :
    ∃ es, s'.dealings = s.dealings ++ es ∧
      ∀ e ∈ es, ∃ n, s.attached = some n ∧ e.place? = some n := by
  cases h with
  | idle hn hn' he => exact ⟨[], he.dealings, by simp⟩
  | serves n hn hserves =>
    have about : ∀ fs, ∀ e ∈ handings n fs ++ [.finished n], e.place? = some n := fun fs e he =>
      Tenure.place?_of_mem_whole (t := ⟨n, fs⟩) e (List.mem_cons_of_mem _ he)
    obtain ⟨fs, ⟨he, -⟩ | ⟨he, -⟩⟩ := hserves
    · exact ⟨_, he.dealings, fun e h => ⟨n, hn, about fs e (List.mem_append_left _ h)⟩⟩
    · exact ⟨_, he.dealings, fun e h => ⟨n, hn, about fs e h⟩⟩

/-- A carrier that comes is attached after the one before was finished without a frame. -/
theorem Dealt.of_some {n : Nat} (h : Dealt s s' (some n)) :
    ∃ u : Tenure, u.place = n ∧
      ((s'.dealings = s.dealings ++ (s.attached.toList.map .finished ++ u.begun) ∧
          s'.attached = some n) ∨
        (s'.dealings = s.dealings ++ (s.attached.toList.map .finished ++ u.whole) ∧
          s'.attached = none)) := by
  cases h with
  | comes n v hv hserves =>
    obtain ⟨fs, ⟨he, ha⟩ | ⟨he, ha⟩⟩ := hserves
    · refine ⟨⟨n, fs⟩, rfl, .inl ⟨?_, ha⟩⟩
      rw [he.dealings, hv.dealings]
      simp [Tenure.begun]
    · refine ⟨⟨n, fs⟩, rfl, .inr ⟨?_, ha⟩⟩
      rw [he.dealings, hv.dealings]
      simp [Tenure.begun, Tenure.whole]

/-- All that is done to carriers is recorded. -/
theorem Dealt.exists_deals {o : Option Nat} (h : Dealt s s' o) : ∃ es, Deals s es s' := by
  cases h with
  | idle _ _ he => exact ⟨_, he⟩
  | serves n _ hserves =>
    obtain ⟨_, ⟨he, -⟩ | ⟨he, -⟩⟩ := hserves
    · exact ⟨_, he⟩
    · exact ⟨_, he⟩
  | comes n v hv hserves =>
    obtain ⟨_, ⟨he, -⟩ | ⟨he, -⟩⟩ := hserves
    · exact ⟨_, hv.trans he⟩
    · exact ⟨_, hv.trans he⟩

theorem does_of_comer {d : Deed C} {n : Nat} (h : s.comer? d = some n) (now : Moment) :
    s.does now d = (s.laid d).attach now n ∧ n < (s.laid d).carriers.length := by
  cases d with
  | register carrier =>
    simp only [comer?] at h
    split at h
    · cases h
    · rename_i hg
      obtain rfl := Option.some.inj h
      simp [does, laid, hg, addCarrier]
  | again m =>
    simp only [comer?] at h
    split at h
    · rename_i hm
      obtain rfl := Option.some.inj h
      simp only [Bool.and_eq_true, decide_eq_true_eq] at hm
      exact ⟨by simp [does, laid, hm], hm.2⟩
    · cases h
  | _ => cases h

/-- A carrier that comes too late is told to go away, once, and finished. -/
theorem dealings_of_late {d : Deed C} {n : Nat} (hp : s.phase = .closed)
    (h : s.comer? d = some n) (now : Moment) :
    ∃ delivery, (s.does now d).dealings =
      s.dealings ++ (Tenure.mk n [(.goAway, delivery)]).whole := by
  obtain ⟨he, hn⟩ := does_of_comer h now
  have hp' : (s.laid d).phase = .closed := by
    cases d with
    | register carrier =>
      simp only [laid]
      split
      · exact hp
      · exact hp
    | _ => exact hp
  obtain ⟨delivery, hd⟩ := deals_attach_of_closed hp' hn now
  refine ⟨delivery, ?_⟩
  rw [he, hd.dealings, dealings_record rfl, (laid_same s d).1]
  simp [Tenure.whole, Tenure.begun]

end Session

/-! ### Runs -/

namespace World

open Session

variable [Carrier C]

/-- Every turn finds the attached carrier among those of the session, and a closed session
spent. -/
theorem seated_of_turn (ms : List (Move C)) {k : Nat} {t : Turn C} (ht : t ∈ turns k {} ms) :
    t.before.Seated ∧ (t.before.phase = .closed → t.before.Spent) := by
  obtain ⟨pre, m, post, -, ht⟩ := mem_turns.mp ht
  obtain ⟨hs, -, -⟩ := mem_turnOf.mp ht
  exact ⟨(balanced_of_run pre hs).1, spent_of_run pre hs⟩

/-- Every turn is in the table of dealings. -/
theorem dealt_of_turn (ms : List (Move C)) {k : Nat} {t : Turn C} (ht : t ∈ turns k {} ms) :
    Dealt (t.before.laid t.deed) t.after t.comer? := by
  obtain ⟨hs, hc⟩ := seated_of_turn ms ht
  exact dealt_does hs (fun hp => (hc hp).attached) t.now t.deed

theorem tenures_of_run (ms : List (Move C)) {k : Nat} {s : Session C}
    (hs : (({} : World C).after ms).sessions[k]? = some s) :
    ∃ past present, Tenures past present (arrivals (turns k {} ms)) s := by
  refine session_run_of_turns
    (P := fun ts s => ∃ past present, Tenures past present (arrivals ts) s)
    ?_ ?_ ms (fun t ht => seated_of_turn ms ht) hs
  · intro s hnew
    exact ⟨[], none, hnew.tenures⟩
  · rintro ts t ⟨hseat, hc⟩ ⟨past, present, h⟩
    rw [arrivals_concat]
    exact h.does hseat (fun hp => (hc hp).attached) t.now t.deed

/-- The carriers of session `s`, the `k`th one of a run. -/
structure Succession (k : Nat) (ms : List (Move C)) (s : Session C) : Prop where
  /-- What passed is one tenure after another, one for each carrier that came, and all but that of
  the attached carrier are over. -/
  tenures : ∃ past present, Tenures past present (arrivals (turns k {} ms)) s
  /-- The attached carrier is the one that came last. -/
  latest : ∀ n, s.attached = some n → (arrivals (turns k {} ms)).getLast? = some n
  /-- Every other carrier that came was finished, and nothing happened to it since. -/
  finished : ∀ n ∈ arrivals (turns k {} ms), s.attached ≠ some n →
    (s.dealingsWith n).getLast? = some (.finished n)
  /-- What is recorded of the carriers is all that the session does to them. -/
  recorded : ∀ t ∈ turns k {} ms, ∃ es, Deals (t.before.laid t.deed) es t.after
  /-- When no carrier comes, only the attached one is handed anything or finished. -/
  served : ∀ t ∈ turns k {} ms, t.comer? = none →
    ∃ es, t.after.dealings = t.before.dealings ++ es ∧
      ∀ e ∈ es, ∃ n, t.before.attached = some n ∧ e.place? = some n
  /-- A carrier that comes is handed frames after it took the place of the one before, which is
  finished without a frame. -/
  replaced : ∀ t ∈ turns k {} ms, ∀ n, t.comer? = some n →
    ∃ u : Tenure, u.place = n ∧
      ((t.after.dealings =
            t.before.dealings ++ (t.before.attached.toList.map .finished ++ u.begun) ∧
          t.after.attached = some n) ∨
        (t.after.dealings =
            t.before.dealings ++ (t.before.attached.toList.map .finished ++ u.whole) ∧
          t.after.attached = none))
  /-- A carrier that comes when the session is closed is told to go away, once, and finished. -/
  late : ∀ t ∈ turns k {} ms, t.before.phase = .closed → ∀ n, t.comer? = some n →
    ∃ delivery, t.after.dealings =
      t.before.dealings ++ (Tenure.mk n [(.goAway, delivery)]).whole ∧ t.after.attached = none
  /-- The connection of any other carrier may go away: that changes nothing, at once or later. -/
  stale : ∀ n, s.attached ≠ some n →
    (({} : World C).after ms).move (.lose k n) = ({} : World C).after ms ∧
    ∀ carrier, ∃ s', ((({} : World C).after ms).move (.stir k n carrier)).sessions[k]? = some s' ∧
      s' = { s with carriers := s.carriers.set n carrier } ∧ s'.isStranded = s.isStranded

/-- A session does not look at the connection of a carrier that is not attached. -/
theorem stale_of_not_attached {w : World C} {k n : Nat} {s : Session C}
    (hs : w.sessions[k]? = some s) (hn : s.attached ≠ some n) :
    w.move (.lose k n) = w ∧
    ∀ carrier, ∃ s', (w.move (.stir k n carrier)).sessions[k]? = some s' ∧
      s' = { s with carriers := s.carriers.set n carrier } ∧ s'.isStranded = s.isStranded := by
  refine ⟨lose_of_not_attached hs hn, ?_⟩
  intro carrier
  refine ⟨_, by simp [move, hs], rfl, ?_⟩
  rcases ha : s.attached with - | m
  · simp [isStranded, ha]
  · have hm : n ≠ m := by
      rintro rfl
      exact hn ha
    simp [isStranded, ha, hm]

/-- **The newest carrier wins.**  In every run, with carriers of any kind and also when the same
carrier comes again, every carrier of a session has its tenure after the one before, and only the
one that came last may still be attached. -/
theorem succession_of_run (ms : List (Move C)) {k : Nat} {s : Session C}
    (hs : (({} : World C).after ms).sessions[k]? = some s) : Succession k ms s := by
  obtain ⟨past, present, h⟩ := tenures_of_run ms hs
  refine ⟨⟨past, present, h⟩, ?latest, ?finished, ?recorded, ?served, ?replaced, ?late, ?stale⟩
  case latest =>
    intro n hn
    exact h.latest hn
  case finished =>
    intro n hn ha
    exact h.finished hn ha
  case recorded =>
    intro t ht
    exact (dealt_of_turn ms ht).exists_deals
  case served =>
    intro t ht hc
    have hd := dealt_of_turn ms ht
    rw [hc] at hd
    obtain ⟨hl, ha⟩ := laid_same t.before t.deed
    rw [← hl, ← ha]
    exact hd.of_none
  case replaced =>
    intro t ht n hc
    have hd := dealt_of_turn ms ht
    rw [hc] at hd
    obtain ⟨hl, ha⟩ := laid_same t.before t.deed
    rw [← hl, ← ha]
    exact hd.of_some
  -- a closed session turns the carrier away
  case late =>
    intro t ht hp n hc
    obtain ⟨delivery, hd⟩ := dealings_of_late hp hc t.now
    exact ⟨delivery, hd, (((seated_of_turn ms ht).2 hp).does hp t.now t.deed).attached⟩
  case stale =>
    intro n hn
    exact stale_of_not_attached hs hn

/-- A second carrier takes the place of the first, which then comes again. -/
def replacing : List (Move Conduit) :=
  [.make "s" (.polling {}) (fun _ => .done) none true true,
    .register 0 (.queue {}), .register 0 (.queue {}), .again 0 0]

theorem succession_of_replacing :
    ∃ s, (({} : World Conduit).after replacing).sessions[0]? = some s ∧ s.attached = some 0 ∧
      s.dealings = [.attached 0, .handed 0 .opening .more, .finished 0, .attached 1, .finished 1,
        .attached 0] ∧ Succession 0 replacing s :=
  ⟨_, rfl, rfl, rfl, succession_of_run replacing rfl⟩

end World

end Duplex
