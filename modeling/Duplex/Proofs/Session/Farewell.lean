/-
Duplex/Proofs/Session/Farewell.lean

Farewells: what the application does when a session closes.

The application may say again and again what is to be done at the end.  Each
time is a farewell of its own, with a number; a *parting* is a farewell that is
run.  While a session is open nothing is run and the last farewell that was set
waits.  Closing runs it, and none of those before.  From then on whatever is
set is run at once.  So no farewell is ever run twice, since each is set once
and the partings are some of those set, in order (`Farewells.once`).
-/
import Duplex.Proofs.Session.Closed

namespace Duplex

variable {C : Type}

namespace Session

/-! ### Setting and running -/

/-- The farewell that is set at a turn, with its number. -/
def Turn.set? (t : Turn C) : Option (Nat × Program) :=
  match t.deed with
  | .setFarewell p => some (t.before.farewells, p)
  | _ => none

/-- The farewell that is run at a turn. -/
def Turn.parting? (t : Turn C) : Option (Nat × Program) :=
  match t.deed with
  | .depart => if t.before.isClosed then none else t.before.farewell
  | .setFarewell p => if t.before.isClosed then some (t.before.farewells, p) else none
  | _ => none

/-- The farewells that were set at these turns, in order. -/
def farewellsSet (ts : List (Turn C)) : List (Nat × Program) := ts.filterMap (·.set?)

/-- The farewells that were run at these turns, in order. -/
def partings (ts : List (Turn C)) : List (Nat × Program) := ts.filterMap (·.parting?)

theorem farewellsSet_concat (ts : List (Turn C)) (t : Turn C) :
    farewellsSet (ts ++ [t]) = farewellsSet ts ++ t.set?.toList := by
  rw [farewellsSet, List.filterMap_append]
  rcases h : t.set? with - | f
  · simp [farewellsSet, h]
  · simp [farewellsSet, h]

theorem partings_concat (ts : List (Turn C)) (t : Turn C) :
    partings (ts ++ [t]) = partings ts ++ t.parting?.toList := by
  rw [partings, List.filterMap_append]
  rcases h : t.parting? with - | f
  · simp [partings, h]
  · simp [partings, h]

/-- A session that is over runs what is set. -/
theorem Turn.parting?_of_closed {t : Turn C} (hc : t.before.isClosed = true) :
    t.parting? = t.set? := by
  obtain ⟨now, s, d⟩ := t
  cases d with
  | depart => simp [parting?, set?, hc]
  | setFarewell p => simp [parting?, set?, hc]
  | _ => rfl

/-- An open session runs something only when it closes. -/
theorem Turn.parting?_of_open {t : Turn C} (hc : t.before.isClosed = false)
    (hd : t.deed ≠ .depart) : t.parting? = none := by
  obtain ⟨now, s, d⟩ := t
  cases d with
  | depart => exact absurd rfl hd
  | setFarewell p => simp [parting?, hc]
  | _ => rfl

/-- What `depart` answers is what is run. -/
theorem depart_snd [Carrier C] {s : Session C} (hp : s.phase ≠ .closed) (now : Moment) :
    (s.depart now).2 = s.farewell.map (·.2) := by
  rcases hf : s.farewell with - | ⟨n, p⟩
  · simp [depart, hp, hf]
  · simp [depart, hp, hf]

theorem Turn.depart_snd [Carrier C] {now : Moment} (t : Turn C) (hd : t.deed = .depart)
    (hg : t.before.gone = false) : (t.before.depart now).2 = t.parting?.map (·.2) := by
  by_cases hp : t.before.phase = .closed
  · simp [Session.depart, parting?, hd, isClosed, hp]
  · rw [Session.depart_snd hp]
    simp [parting?, hd, isClosed, hp, hg]

theorem Turn.setFarewell_snd {now : Moment} (t : Turn C) {p : Program}
    (hd : t.deed = .setFarewell p) (hg : t.before.gone = false) :
    (t.before.setFarewell now p).2 = t.parting?.map (·.2) := by
  by_cases hp : t.before.phase = .closed
  · simp [setFarewell_of_closed hp, parting?, hd, isClosed, hp]
  · simp [setFarewell, parting?, hd, isClosed, hp, hg]

/-! ### Farewells under one deed -/

/-- The deed may set, run or drop a farewell. -/
def Deed.isParting : Deed C → Bool
  | .setFarewell _ | .depart | .forget => true
  | _ => false

variable [Carrier C]

/-- Other deeds leave the farewell as it is. -/
theorem farewell_does (now : Moment) (s : Session C) {d : Deed C} (hd : d.isParting = false) :
    (s.does now d).farewell = s.farewell ∧ (s.does now d).farewells = s.farewells := by
  rcases ho : d.isOutward with - | -
  · cases d with
    | note | finishMessage | introduce | hold => exact ⟨rfl, rfl⟩
    | receive | pause | setHandler | deliver =>
      obtain ⟨_, _, _, _, _, h⟩ := does_inbound_eq now s rfl ho
      rw [h]
      exact ⟨rfl, rfl⟩
    | setFarewell => cases hd
    | _ => cases ho
  · obtain ⟨_, _, _, _, _, _, _, h, -⟩ :=
      does_outward_eq now s ho (by rintro rfl; cases hd) (by rintro rfl; cases hd)
    rw [h]
    exact ⟨rfl, rfl⟩

/-- What is set on a session that is over is not kept, whether it is closed or gone. -/
theorem does_setFarewell_of_closed {s : Session C} (hc : s.isClosed = true) (now : Moment)
    (p : Program) : s.does now (.setFarewell p) = s.passFarewell now := by
  rcases hg : s.gone with - | -
  · have hp : s.phase = .closed := by simpa [isClosed, hg] using hc
    simp [does, setFarewell_of_closed hp]
  · simp [does, hg]

/-- What is set on an open session is kept in place of what was set before. -/
theorem does_setFarewell_of_open {s : Session C} (hc : s.isClosed = false) (now : Moment)
    (p : Program) :
    s.does now (.setFarewell p) =
      { s with farewell := some (s.farewells, p), farewells := s.farewells + 1 }.record now
        (.farewellSet s.farewells) := by
  obtain ⟨hp, hg⟩ := isClosed_eq_false.mp hc
  simp [does, setFarewell, hg, hp]

/-- Only setting a farewell gives out a number. -/
theorem farewells_does (now : Moment) (s : Session C) (d : Deed C) :
    (s.does now d).farewells = s.farewells + (Turn.set? ⟨now, s, d⟩).toList.length := by
  cases d with
  | forget => rfl
  | setFarewell p =>
    rcases hc : s.isClosed with - | -
    · rw [does_setFarewell_of_open hc]
      rfl
    · rw [does_setFarewell_of_closed hc]
      rfl
  | depart =>
    obtain ⟨_, _, _, _, _, _, _, _, _, _, h⟩ := does_depart_eq now s
    rw [h]
    rfl
  | _ => exact (farewell_does now s (by rfl)).2

/-- A session that is over stays so. -/
theorem isClosed_does {s : Session C} (hc : s.isClosed = true) (now : Moment) (d : Deed C) :
    (s.does now d).isClosed = true := by
  by_cases hd : d = .forget
  · rw [hd]
    simp [does, forget, isClosed]
  · rw [isClosed, Bool.or_eq_true, beq_iff_eq] at hc ⊢
    rw [gone_does now s hd]
    exact hc.imp_left fun hp => closed_does hp now d

/-! ### One turn -/

/-- The farewells set and run at these turns, before and after the one at which it closes. -/
structure Farewells (ts : List (Turn C)) (s : Session C) : Prop where
  unclosed : s.phase ≠ .closed → ∀ t ∈ ts, t.after.phase ≠ .closed
  numbered : (farewellsSet ts).map (·.1) = List.range s.farewells
  waiting : s.isClosed = false → partings ts = [] ∧ s.farewell = (farewellsSet ts).getLast?
  once : (partings ts).Sublist (farewellsSet ts)
  done : s.phase = .closed → ∃ pre t post, ts = pre ++ t :: post ∧
    (∀ t' ∈ pre, t'.after.phase ≠ .closed) ∧
    t.before.phase ≠ .closed ∧ t.after.phase = .closed ∧
    (∀ t' ∈ post, t'.before.phase = .closed) ∧
    partings ts = (farewellsSet pre).getLast?.toList ++ farewellsSet post

/-- No two farewells have the same number. -/
theorem Farewells.nodup {ts : List (Turn C)} {s : Session C} (h : Farewells ts s) :
    ((farewellsSet ts).map (·.1)).Nodup := by
  rw [h.numbered]
  exact List.nodup_range

theorem IsNew.farewells {s : Session C} (h : s.IsNew) : Farewells [] s := by
  obtain ⟨_, _, _, _, _, rfl⟩ := h
  exact ⟨by simp, rfl, fun _ => ⟨rfl, rfl⟩, List.Sublist.refl _, fun hp => by cases hp⟩

variable {ts : List (Turn C)} {t : Turn C}

theorem Farewells.unclosed_after (h : Farewells ts t.before) (hp : t.after.phase ≠ .closed) :
    ∀ t' ∈ ts ++ [t], t'.after.phase ≠ .closed := by
  intro t' ht
  rcases List.mem_append.mp ht with ht | ht
  · exact h.unclosed (fun hb => hp (closed_does hb t.now t.deed)) t' ht
  · rw [List.mem_singleton.mp ht]
    exact hp

theorem Farewells.numbered_after (h : Farewells ts t.before) :
    (farewellsSet (ts ++ [t])).map (·.1) = List.range t.after.farewells := by
  have hn : t.after.farewells = t.before.farewells + t.set?.toList.length :=
    farewells_does t.now t.before t.deed
  rw [farewellsSet_concat, List.map_append, h.numbered, hn]
  obtain ⟨now, s, d⟩ := t
  cases d with
  | setFarewell p => exact List.range_succ.symm
  | _ => exact List.append_nil _

/-- While a session stays open nothing is run, and the farewell that was set last waits. -/
theorem Farewells.waiting_after (h : Farewells ts t.before) (hc : t.after.isClosed = false) :
    partings (ts ++ [t]) = [] ∧ t.after.farewell = (farewellsSet (ts ++ [t])).getLast? := by
  -- it was open before, and does not close now
  have hopen : t.before.isClosed = false := by
    by_contra hn
    rw [Turn.after, isClosed_does (by simpa using hn)] at hc
    cases hc
  obtain ⟨hnone, hlast⟩ := h.waiting hopen
  have hd : t.deed ≠ .depart := by
    intro hd
    have hg := (isClosed_eq_false.mp hopen).2
    have hp : t.after.phase = .closed := by
      rw [Turn.after, phase_does, hd]
      simp [phaseAfter, hg]
    simp [isClosed, hp] at hc
  rw [partings_concat, farewellsSet_concat, hnone, Turn.parting?_of_open hopen hd]
  refine ⟨rfl, ?_⟩
  obtain ⟨now, s, d⟩ := t
  cases d with
  | depart => exact absurd rfl hd
  | forget => simp [Turn.after, does, forget, isClosed] at hc
  -- the farewell that is set is the last one
  | setFarewell p =>
    have hset := does_setFarewell_of_open hopen now p
    simp [Turn.after, hset, record, Turn.set?]
  | _ =>
    show _ = (farewellsSet ts ++ []).getLast?
    rw [List.append_nil, ← hlast]
    exact (farewell_does now s (by rfl)).1

/-- What runs at a turn was set before and never ran, or is set at this turn. -/
theorem Farewells.once_after (h : Farewells ts t.before) :
    (partings (ts ++ [t])).Sublist (farewellsSet (ts ++ [t])) := by
  rw [partings_concat, farewellsSet_concat]
  rcases hc : t.before.isClosed with - | -
  · obtain ⟨hnone, hlast⟩ := h.waiting hc
    rw [hnone, List.nil_append]
    refine List.Sublist.trans ?_ (List.sublist_append_left _ _)
    by_cases hd : t.deed = .depart
    -- it closes, and the last one that was set runs
    · have hrun : t.parting? = (farewellsSet ts).getLast? := by simp [Turn.parting?, hd, hc, hlast]
      rw [hrun]
      rcases hl : (farewellsSet ts).getLast? with - | f
      · exact List.nil_sublist _
      · obtain ⟨before, hf⟩ := List.getLast?_eq_some_iff.mp hl
        rw [hf]
        exact List.sublist_append_right _ _
    · rw [Turn.parting?_of_open hc hd]
      exact List.nil_sublist _
  · rw [Turn.parting?_of_closed hc]
    exact h.once.append (List.Sublist.refl _)

theorem Farewells.done_after (h : Farewells ts t.before) (hp' : t.after.phase = .closed) :
    ∃ pre t' post, ts ++ [t] = pre ++ t' :: post ∧
      (∀ t' ∈ pre, t'.after.phase ≠ .closed) ∧
      t'.before.phase ≠ .closed ∧ t'.after.phase = .closed ∧
      (∀ t' ∈ post, t'.before.phase = .closed) ∧
      partings (ts ++ [t]) = (farewellsSet pre).getLast?.toList ++ farewellsSet post := by
  by_cases hp : t.before.phase = .closed
  -- it closed at an earlier turn: what is set now runs as it is set
  · obtain ⟨pre, t', post, hts, hpre, hb, ha, hpost, hran⟩ := h.done hp
    refine ⟨pre, t', post ++ [t], by simp [hts], hpre, hb, ha, ?_, ?_⟩
    · intro t'' ht
      rcases List.mem_append.mp ht with ht | ht
      · exact hpost t'' ht
      · rw [List.mem_singleton.mp ht]
        exact hp
    rw [partings_concat, farewellsSet_concat, hran, List.append_assoc,
      Turn.parting?_of_closed (by simp [isClosed, hp])]
  -- it closes here
  · obtain ⟨hd, hc⟩ := Turn.open_of_closing hp hp'
    obtain ⟨hnone, hlast⟩ := h.waiting hc
    refine ⟨ts, t, [], rfl, h.unclosed hp, hp, hp', by simp, ?_⟩
    rw [partings_concat, hnone, ← hlast]
    simp [Turn.parting?, hd, hc, farewellsSet]

/-- **A turn keeps the farewells in order.** -/
theorem Farewells.turn (h : Farewells ts t.before) : Farewells (ts ++ [t]) t.after :=
  ⟨h.unclosed_after, h.numbered_after, h.waiting_after, h.once_after, h.done_after⟩

end Session

namespace World

open Session

variable [Carrier C]

theorem farewells_of_run (ms : List (Move C)) {k : Nat} {s : Session C}
    (hs : (({} : World C).after ms).sessions[k]? = some s) : Farewells (turns k {} ms) s :=
  session_run (P := Farewells) (fun _ hnew => hnew.farewells) (fun _ _ h => h.turn) ms hs

end World

end Duplex
