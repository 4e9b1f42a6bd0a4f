/-
Duplex/Proofs/Session/Dealings.lean

What passes between a session and its carriers.

Three things happen to a carrier: it is attached, it is handed a frame, it is
finished.  These are the *dealings* of a session, a part of its history.  They
are not only told: `Deals` says that every carrier is what its dealings made of
it, so from what was recorded of a carrier follows what was done to it.

Every operation either serves the attached carrier, which is handed frames and
then stays or is finished (`Serves`), or it first attaches another one in its
place.  `Dealt` is the table of what one deed may come to, and `dealt_does`
says that every deed is in it.  All that holds of carriers over a run is read
off that table.
-/
import Duplex.Proofs.Session.Closed

namespace Duplex

variable {C : Type}

namespace Event

/-- What the event makes of the carrier in place `i`. -/
def actOn [Carrier C] (i : Nat) (c : C) : Event → C
  | .handed n frame _ => if n = i then (Carrier.take c frame).1 else c
  | .finished n => if n = i then Carrier.finish c else c
  | _ => c

end Event

namespace Session

/-! ### Dealings -/

/-- All that happened to carriers, in order of time. -/
def dealings (s : Session C) : List Event :=
  ((s.past.map (·.2)).filter (·.place?.isSome)).reverse

theorem dealings_record {e : Event} {n : Nat} (he : e.place? = some n) (now : Moment)
    (s : Session C) : (s.record now e).dealings = s.dealings ++ [e] := by
  simp [dealings, record, he]

theorem dealings_record_of_none {e : Event} (he : e.place? = none) (now : Moment)
    (s : Session C) : (s.record now e).dealings = s.dealings := by
  simp [dealings, record, he]

/-- What is recorded when carrier `n` is handed these frames. -/
def handings (n : Nat) (fs : List (Frame × Delivery)) : List Event :=
  fs.map fun f => .handed n f.1 f.2

variable [Carrier C]

/-- The session goes on with these dealings, and they are all that is done to its carriers. -/
structure Deals (s : Session C) (es : List Event) (s' : Session C) : Prop where
  dealings : s'.dealings = s.dealings ++ es
  carriers : ∀ i, s'.carriers[i]? = s.carriers[i]?.map fun c => es.foldl (Event.actOn i) c

namespace Deals

variable {s s' s'' : Session C} {es es' : List Event}

/-- Nothing passes. -/
theorem of_same (hc : s'.carriers = s.carriers) (hd : s'.dealings = s.dealings) :
    Deals s [] s' := by
  refine ⟨by rw [hd, List.append_nil], fun i => ?_⟩
  rw [hc]
  simp

theorem refl (s : Session C) : Deals s [] s := of_same rfl rfl

theorem trans (h : Deals s es s') (h' : Deals s' es' s'') : Deals s (es ++ es') s'' := by
  refine ⟨by rw [h'.dealings, h.dealings, List.append_assoc], fun i => ?_⟩
  rw [h'.carriers, h.carriers, Option.map_map]
  simp only [Function.comp_def, List.foldl_append]

/-- What leaves carriers and history alone may come after. -/
theorem and_same (h : Deals s es s') (hc : s''.carriers = s'.carriers)
    (hd : s''.dealings = s'.dealings) : Deals s es s'' :=
  List.append_nil es ▸ h.trans (of_same hc hd)

theorem hand {n : Nat} {c : C} (hc : s.carriers[n]? = some c) (now : Moment) (f : Frame) :
    Deals s [.handed n f (Carrier.take c f).2] (s.hand now n f).1 := by
  rw [hand_of_some hc]
  refine ⟨dealings_record rfl now _, fun i => ?_⟩
  show (s.carriers.set n (Carrier.take c f).1)[i]? = _
  rw [List.getElem?_set]
  by_cases hi : n = i
  · subst hi
    rw [if_pos rfl, if_pos (List.getElem?_eq_some_iff.mp hc).1, hc]
    simp [Event.actOn]
  · simp [hi, Event.actOn]

theorem finish (now : Moment) (n : Nat) (s : Session C) :
    Deals s [.finished n] (s.finish now n) := by
  refine ⟨dealings_record rfl now _, fun i => ?_⟩
  show (s.carriers.modify n Carrier.finish)[i]? = _
  rw [List.getElem?_modify]
  by_cases hi : n = i
  · simp [hi, Event.actOn]
  · simp [hi, Event.actOn]

theorem attached (now : Moment) (n : Nat) (s : Session C) :
    Deals s [.attached n] (s.record now (.attached n)) :=
  ⟨dealings_record rfl now s, fun i => by simp [record, Event.actOn]⟩

end Deals

/-! ### Serving the attached carrier -/

/-- Carrier `n` is handed frames, and then stays attached or is finished. -/
def Serves (n : Nat) (s s' : Session C) : Prop :=
  ∃ fs, (Deals s (handings n fs) s' ∧ s'.attached = some n) ∨
    (Deals s (handings n fs ++ [.finished n]) s' ∧ s'.attached = none)

variable {s s' s'' : Session C} {n : Nat}

theorem Serves.and_same (h : Serves n s s') (hc : s''.carriers = s'.carriers)
    (hd : s''.dealings = s'.dealings) (ha : s''.attached = s'.attached) : Serves n s s'' := by
  obtain ⟨fs, ⟨h, ha'⟩ | ⟨h, ha'⟩⟩ := h
  · exact ⟨fs, .inl ⟨h.and_same hc hd, ha.trans ha'⟩⟩
  · exact ⟨fs, .inr ⟨h.and_same hc hd, ha.trans ha'⟩⟩

theorem Serves.of_same (h : Serves n s' s'') (hc : s'.carriers = s.carriers)
    (hd : s'.dealings = s.dealings) : Serves n s s'' := by
  obtain ⟨fs, ⟨h, ha⟩ | ⟨h, ha⟩⟩ := h
  · exact ⟨fs, .inl ⟨(Deals.of_same hc hd).trans h, ha⟩⟩
  · exact ⟨fs, .inr ⟨(Deals.of_same hc hd).trans h, ha⟩⟩

theorem serves_of_none (ha : s.attached = some n) : Serves n s s := ⟨[], .inl ⟨.refl s, ha⟩⟩

theorem deals_detach (ha : s.attached = some n) (now : Moment) :
    Deals s [.finished n] (s.detach now) ∧ (s.detach now).attached = none := by
  simp only [detach, ha]
  exact ⟨(Deals.finish now n s).and_same rfl (dealings_record_of_none rfl now _), rfl⟩

theorem serves_detach (ha : s.attached = some n) (now : Moment) : Serves n s (s.detach now) :=
  ⟨[], .inr (deals_detach ha now)⟩

theorem serves_push (ha : s.attached = some n) (hn : n < s.carriers.length) (now : Moment)
    (f : Frame) : Serves n s (s.push now f) := by
  have hc := List.getElem?_eq_getElem hn
  have hh := Deals.hand hc now f
  rw [hand_of_some hc] at hh
  refine ⟨[(f, (Carrier.take s.carriers[n] f).2)], ?_⟩
  rcases push_cases ha hc now f with ⟨hd, h⟩ | ⟨-, h⟩
  -- it has room for more and stays
  · left
    rw [h, ← hd]
    exact ⟨hh.and_same rfl rfl, ha⟩
  -- it is finished, and only then the session remembers that it let it go
  · right
    rw [h]
    refine ⟨(hh.trans (.finish now n _)).and_same rfl ?_, rfl⟩
    simp [dealings, finish, record, Event.place?]

theorem serves_flush (ha : s.attached = some n) (hn : n < s.carriers.length) (now : Moment) :
    Serves n s (s.flush now) :=
  (serves_push (s := { s with outbound := [] }) ha hn now _).of_same rfl rfl

theorem serves_beat (ha : s.attached = some n) (hn : n < s.carriers.length) (now : Moment) :
    Serves n s (s.beat now) := by
  have h := serves_push ha hn now .heartbeat
  simp only [beat]
  split
  · exact h.and_same rfl rfl rfl
  · exact h

theorem serves_write (hp : s.phase ≠ .closed) (ha : s.attached = some n)
    (hn : n < s.carriers.length) (now : Moment) (message : String) :
    Serves n s (s.write now message).1 := by
  rw [write_of_attached hp ha]
  exact (serves_flush (s := s.enqueue now message) ha hn now).of_same rfl
    (dealings_record_of_none rfl now _)

/-- The attached carrier of a session that closes is told to go away and finished. -/
theorem deals_shut (hs : s.Seated) (hp : s.phase ≠ .closed) (now : Moment) :
    ∃ d, Deals s (s.attached.toList.flatMap fun n => [.handed n .goAway d, .finished n])
      (s.shut now) := by
  have hended : Deals s [] (s.ended now) := .of_same rfl (dealings_record_of_none rfl now _)
  rcases ha : s.attached with - | n
  · rw [shut_of_detached hp ha]
    exact ⟨.last, hended.and_same rfl rfl⟩
  · have hc := List.getElem?_eq_getElem (hs n ha)
    have hh := (hended.trans (.hand (s := s.ended now) hc now .goAway)).trans (.finish now n _)
    rw [shut_of_attached hp ha]
    exact ⟨_, hh.and_same rfl rfl⟩

/-- What a session remembers of its end is no dealing. -/
theorem deals_depart (hs : s.Seated) (hp : s.phase ≠ .closed) (now : Moment) :
    ∃ d, Deals s (s.attached.toList.flatMap fun n => [.handed n .goAway d, .finished n])
      (s.depart now).1 := by
  obtain ⟨d, h⟩ := deals_shut hs hp now
  refine ⟨d, ?_⟩
  unfold depart
  split
  · exact h
  · exact h.and_same rfl (dealings_record_of_none rfl now _)

/-! ### A carrier that comes -/

/-- The carrier before, if there is one, is finished, and then this one is attached. -/
theorem deals_seat (now : Moment) (n : Nat) (s : Session C) :
    Deals s (s.attached.toList.map .finished ++ [.attached n]) (s.seat now n) := by
  have hd : Deals s (s.attached.toList.map .finished) (s.displace now) := by
    unfold displace
    rcases ha : s.attached with - | m
    · exact .of_same rfl rfl
    · exact (Deals.finish now m s).and_same rfl rfl
  exact (hd.trans (.attached now n _)).and_same rfl rfl

theorem serves_attach (hp : s.phase ≠ .closed) (hn : n < s.carriers.length) (now : Moment) :
    Serves n (s.seat now n) (s.attach now n) := by
  have hn' : n < (s.seat now n).carriers.length := by rwa [length_carriers_seat]
  rcases hp' : s.phase
  · rw [attach_of_fresh hp']
    exact (serves_push rfl hn' now _).and_same rfl (dealings_record_of_none rfl now _) rfl
  · rw [attach_of_live hp']
    split
    · exact (serves_of_none rfl).and_same rfl rfl rfl
    · exact serves_flush rfl hn' now
  · exact absurd hp' hp

/-- A carrier that comes too late is told to go away and finished. -/
theorem deals_attach_of_closed (hp : s.phase = .closed) (hn : n < s.carriers.length)
    (now : Moment) :
    ∃ d, Deals (s.record now (.attached n)) (handings n [(.goAway, d)] ++ [.finished n])
      (s.attach now n) := by
  have hc := List.getElem?_eq_getElem hn
  rw [attach_of_closed hp]
  exact ⟨_, (Deals.hand (s := s.record now (.attached n)) hc now .goAway).trans
    (.finish now n _)⟩

/-! ### The table -/

/-- The session with the carrier that a deed brings or changes. -/
def laid (s : Session C) : Deed C → Session C
  | .register carrier => if s.gone then s else s.addCarrier carrier
  | .stir n carrier => { s with carriers := s.carriers.set n carrier }
  | _ => s

/-- What may pass at a deed, by the carrier that comes, if one does: nothing, if none is attached;
the attached one is served; or another one is attached and served. -/
inductive Dealt (s s' : Session C) : Option Nat → Prop
  | idle : s.attached = none → s'.attached = none → Deals s [] s' → Dealt s s' none
  | serves (n : Nat) : s.attached = some n → Serves n s s' → Dealt s s' none
  | comes (n : Nat) (u : Session C) :
      Deals s (s.attached.toList.map .finished ++ [.attached n]) u → Serves n u s' →
      Dealt s s' (some n)

theorem Dealt.refl (s : Session C) : Dealt s s none := by
  rcases h : s.attached with - | n
  · exact .idle h h (.refl s)
  · exact .serves n h (serves_of_none h)

theorem Dealt.and_same {o : Option Nat} (h : Dealt s s' o) (hc : s''.carriers = s'.carriers)
    (hd : s''.dealings = s'.dealings) (ha : s''.attached = s'.attached) : Dealt s s'' o := by
  cases h with
  | idle h h' he => exact .idle h (ha.trans h') (he.and_same hc hd)
  | serves n h hserves => exact .serves n h (hserves.and_same hc hd ha)
  | comes n u hu hserves => exact .comes n u hu (hserves.and_same hc hd ha)

/-- Deeds on the inward side are no dealings. -/
theorem dealings_does (now : Moment) (s : Session C) {d : Deed C} (hd : d.isOutward = false) :
    (s.does now d).dealings = s.dealings := by
  obtain ⟨_, _, _, _, _, _, _, _, es, h, hes⟩ := does_inward_eq now s hd
  have hnil : es.filter (·.place?.isSome) = [] :=
    List.filter_eq_nil_iff.mpr fun e he => by simp [hes e he]
  rw [h]
  simp [dealings, List.map_map, Function.comp_def, hnil]

theorem dealt_of_inward (now : Moment) (s : Session C) {d : Deed C} (hd : d.isOutward = false) :
    Dealt s (s.does now d) none := by
  have h := sameOutward_does now s hd
  exact (Dealt.refl s).and_same h.carriers (dealings_does now s hd) h.attached

/-- A carrier that comes is attached, or turned away when it is too late. -/
theorem dealt_attach (hs : s.phase = .closed → s.attached = none) (hn : n < s.carriers.length)
    (now : Moment) : Dealt s (s.attach now n) (some n) := by
  by_cases hp : s.phase = .closed
  -- it is never attached to the session, but its dealings are those of one that is, and leaves
  · have ha := hs hp
    refine .comes n (s.record now (.attached n)) ?_ ?_
    · rw [ha]
      exact .attached now n s
    · obtain ⟨d, h⟩ := deals_attach_of_closed hp hn now
      refine ⟨[(.goAway, d)], .inr ⟨h, ?_⟩⟩
      rw [attach_closed_eq hp (List.getElem?_eq_getElem hn)]
      exact ha
  · exact .comes n (s.seat now n) (deals_seat now n s) (serves_attach hp hn now)

theorem dealt_beat (hs : s.Seated) (now : Moment) : Dealt s (s.beat now) none := by
  rcases ha : s.attached with - | n
  · have h : s.beat now = s := by simp [beat, push_of_none ha, ha]
    rw [h]
    exact .refl s
  · exact .serves n ha (serves_beat ha (hs n ha) now)

theorem dealt_write (hs : s.Seated) (now : Moment) (message : String) :
    Dealt s (s.write now message).1 none := by
  by_cases hp : s.phase = .closed
  · rw [write_of_closed hp]
    exact .refl s
  rcases ha : s.attached with - | n
  · rw [write_of_detached hp ha]
    exact (Dealt.refl s).and_same rfl (dealings_record_of_none rfl now _) rfl
  · exact .serves n ha (serves_write hp ha (hs n ha) now message)

theorem dealt_depart (hs : s.Seated) (now : Moment) : Dealt s (s.depart now).1 none := by
  by_cases hp : s.phase = .closed
  · rw [depart_of_closed hp]
    exact .refl s
  obtain ⟨d, h⟩ := deals_depart hs hp now
  have ha' : (s.depart now).1.attached = none := (emptied_depart hp now).attached
  rcases ha : s.attached with - | n
  · rw [ha] at h
    exact .idle ha ha' h
  · rw [ha] at h
    exact .serves n ha ⟨[(.goAway, d)], .inr ⟨by simpa [handings] using h, ha'⟩⟩

/-- **Every deed is in the table.** -/
theorem dealt_does (hs : s.Seated) (hc : s.phase = .closed → s.attached = none) (now : Moment)
    (d : Deed C) : Dealt (s.laid d) (s.does now d) (s.comer? d) := by
  cases d with
  | stir n carrier => exact .refl _
  | forget => exact (Dealt.refl s).and_same rfl rfl rfl
  -- a carrier comes
  | register carrier =>
    simp only [does, laid, comer?]
    split
    · exact .refl s
    · exact dealt_attach (s := s.addCarrier carrier) hc (by simp [addCarrier]) now
  | again n =>
    simp only [does, laid, comer?]
    split
    · rename_i h
      simp only [Bool.and_eq_true, decide_eq_true_eq] at h
      exact dealt_attach hc h.2 now
    · exact .refl s
  -- the attached carrier is served
  | lose n =>
    simp only [does, laid, comer?]
    split
    · rename_i h
      simp only [Bool.and_eq_true, beq_iff_eq] at h
      exact .serves n h.2 (serves_detach h.2 now)
    · exact .refl s
  | beat =>
    simp only [does, laid, comer?]
    split
    · exact dealt_beat hs now
    · exact .refl s
  | write message =>
    simp only [does, laid, comer?]
    split
    · exact .refl s
    · exact dealt_write hs now message
  | depart =>
    simp only [does, laid, comer?]
    split
    · exact .refl s
    · exact dealt_depart hs now
  | note | finishMessage | introduce | hold | receive | pause | setHandler | deliver
  | setFarewell =>
    exact dealt_of_inward now s (by rfl)

end Session

end Duplex
