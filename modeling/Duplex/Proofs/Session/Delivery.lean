/-
Duplex/Proofs/Session/Delivery.lean

Delivery: what the client of a session hears on its response bodies.

The carriers here are response streams, and they are used as a server uses
them: each is new when it comes, comes once, and keeps its reader while it is
attached.  `Turn.isFair` says so.  What a client reads off a body, or leaves on
it, adds up to the frames that were handed to that carrier, laid out
(`Kept.holds`), so it reads back as their messages.

Frames are only ever handed to the carrier that came last (`Kept.sorted`).
So to put the bodies together in the order in which their carriers came is to
put the frames together in the order in which they were handed over, and the
books of the session say the rest.
-/
import Duplex.Proofs.Carrier.Body
import Duplex.Proofs.Session.Ledger

namespace Duplex.Session

/-! ### Reading the bodies -/

/-- The carriers are new when they come, they come once, and the attached one keeps its reader. -/
def Turn.isFair (t : Turn ResponseStream) : Bool :=
  match t.deed with
  | .register b => b == { framing := b.framing }
  | .again _ => false
  | .stir n b' => (t.before.carriers[n]?).all fun b =>
      b' == b.read.2 || (t.before.attached != some n && (b' == b.drop || b' == b.desert))
  | _ => true

/-- What is taken off the body in place `n` at a turn. -/
def Turn.off (n : Nat) (t : Turn ResponseStream) : List Char :=
  match t.deed with
  | .stir i _ => if i = n then (t.before.carriers[n]?).elim [] (·.waiting) else []
  | _ => []

/-- What is taken off the body in place `n` at these turns. -/
def off (ts : List (Turn ResponseStream)) (n : Nat) : List Char := ts.flatMap (·.off n)

/-- The messages on the bodies of a session, each read by its framing, in the order in which the
carriers came. -/
def heard? (ts : List (Turn ResponseStream)) (s : Session ResponseStream) : Option (List String) :=
  (s.carriers.zipIdx.mapM fun (p : ResponseStream × Nat) =>
    p.1.framing.messages? (off ts p.2 ++ p.1.waiting)).map List.flatten

theorem off_concat (ts : List (Turn ResponseStream)) (t : Turn ResponseStream) (n : Nat) :
    off (ts ++ [t]) n = off ts n ++ t.off n := by
  simp [off]

/-! ### Frames by carrier -/

/-- The frames that the carrier in place `n` was handed. -/
def handedTo (s : Session ResponseStream) (n : Nat) : List Frame :=
  (s.handed.filter (·.1 == n)).map (·.2)

theorem filter_lt_succ_of_sorted {fs : List (Nat × Frame)}
    (hs : fs.Pairwise fun f f' => f.1 ≤ f'.1) (N : Nat) :
    fs.filter (·.1 < N) ++ fs.filter (·.1 == N) = fs.filter (·.1 < N + 1) := by
  induction fs with
  | nil => rfl
  | cons f fs ih =>
    obtain ⟨hf, hs⟩ := List.pairwise_cons.mp hs
    have ih := ih hs
    rcases Nat.lt_trichotomy f.1 N with h | h | h
    -- the frame went to an earlier carrier
    · have h1 : f.1 ≠ N := by omega
      have h2 : f.1 < N + 1 := by omega
      rw [List.filter_cons_of_pos (by simpa using h), List.filter_cons_of_neg (by simpa using h1),
        List.filter_cons_of_pos (by simpa using h2), List.cons_append, ih]
    -- all that follow go to this carrier or to later ones
    · have hnil : fs.filter (·.1 < N) = [] := by
        apply List.filter_eq_nil_iff.mpr
        intro f' hf'
        have := hf f' hf'
        simp
        omega
      have h1 : ¬ f.1 < N := by omega
      have h2 : f.1 < N + 1 := by omega
      rw [List.filter_cons_of_neg (by simpa using h1), List.filter_cons_of_pos (by simpa using h),
        List.filter_cons_of_pos (by simpa using h2), ← ih, hnil]
      rfl
    · have h1 : f.1 ≠ N := by omega
      have h2 : ¬ f.1 < N := by omega
      have h3 : ¬ f.1 < N + 1 := by omega
      rw [List.filter_cons_of_neg (by simpa using h2), List.filter_cons_of_neg (by simpa using h1),
        List.filter_cons_of_neg (by simpa using h3), ih]

/-- Frames that go to one carrier after another can be put together carrier by carrier. -/
theorem flatMap_filter_of_sorted {fs : List (Nat × Frame)}
    (hs : fs.Pairwise fun f f' => f.1 ≤ f'.1) (N : Nat) :
    (List.range N).flatMap (fun n => fs.filter (·.1 == n)) = fs.filter (·.1 < N) := by
  induction N with
  | zero => simp
  | succ N ih =>
    rw [List.range_succ, List.flatMap_append, ih, List.flatMap_singleton,
      filter_lt_succ_of_sorted hs]

theorem handedTo_append {s s' : Session ResponseStream} {m : Nat} {f : Frame}
    (h : s'.handed = s.handed ++ [(m, f)]) (n : Nat) :
    s'.handedTo n = s.handedTo n ++ if m = n then [f] else [] := by
  rw [handedTo, h, List.filter_append, List.map_append]
  by_cases hm : m = n
  · simp [handedTo, hm]
  · simp [handedTo, hm]

/-! ### The bodies hold what was handed over -/

/-- The body of every carrier holds the frames that it was handed, and frames are handed to the
carrier that came last. -/
structure Kept (off : Nat → List Char) (s : Session ResponseStream) : Prop where
  holds : ∀ (n : Nat) (b : ResponseStream), s.carriers[n]? = some b →
    b.Holds (off n) (s.handedTo n)
  bound : ∀ f ∈ s.handed, f.1 < s.carriers.length
  sorted : s.handed.Pairwise fun f f' => f.1 ≤ f'.1
  untouched : ∀ n, s.carriers.length ≤ n → off n = []

variable {off : Nat → List Char} {s s' : Session ResponseStream}

theorem Kept.congr (h : Kept off s) (hc : s'.carriers = s.carriers) (hh : s'.handed = s.handed) :
    Kept off s' := by
  refine ⟨?holds, ?bound, ?sorted, ?untouched⟩
  case holds =>
    intro n b hb
    rw [handedTo, hh]
    exact h.holds n b (hc ▸ hb)
  case bound =>
    rw [hc, hh]
    exact h.bound
  case sorted =>
    rw [hh]
    exact h.sorted
  case untouched =>
    rw [hc]
    exact h.untouched

theorem Kept.record {e : Event} (h : Kept off s) (he : e.handed? = none) (now : Moment) :
    Kept off (s.record now e) := h.congr rfl (handed_record_of_none he now s)

/-- Finishing a body leaves what stands on it. -/
theorem Kept.finish (h : Kept off s) (now : Moment) (n : Nat) : Kept off (s.finish now n) := by
  have hl : (s.finish now n).carriers.length = s.carriers.length := List.length_modify ..
  have hh := handed_finish now n s
  refine ⟨?holds, ?bound, ?sorted, ?untouched⟩
  case holds =>
    intro i b hb
    rw [handedTo, hh]
    have hb' : (s.carriers.modify n ResponseStream.close)[i]? = some b := hb
    rw [List.getElem?_modify] at hb'
    obtain ⟨b₀, hb₀, rfl⟩ := Option.map_eq_some_iff.mp hb'
    -- closing a body takes nothing off it
    by_cases hi : n = i
    · rw [if_pos hi]
      exact (h.holds i b₀ hb₀).close
    · rw [if_neg hi]
      exact h.holds i b₀ hb₀
  case bound =>
    rw [hl, hh]
    exact h.bound
  case sorted =>
    rw [hh]
    exact h.sorted
  case untouched =>
    rw [hl]
    exact h.untouched

/-- A frame handed to the open carrier that came last stands on its body. -/
theorem Kept.hand (h : Kept off s) {n : Nat} {b : ResponseStream}
    (hn : n + 1 = s.carriers.length) (hb : s.carriers[n]? = some b) (ho : b.IsOpen) (now : Moment)
    (f : Frame) : Kept off (s.hand now n f).1 := by
  have hh := handed_hand (s := s) (by omega : n < s.carriers.length) now f
  have hc : (s.hand now n f).1.carriers = s.carriers.set n (b.send f.chars).1 := by
    rw [hand_of_some hb]
    rfl
  have hl : (s.hand now n f).1.carriers.length = s.carriers.length := by
    rw [hc, List.length_set]
  refine ⟨?holds, ?bound, ?sorted, ?untouched⟩
  case holds =>
    intro i b' hb'
    rw [handedTo_append hh]
    rw [hc, List.getElem?_set] at hb'
    -- the frame is on the body that it was handed to, and the other bodies are as they were
    by_cases hi : n = i
    · subst hi
      rw [if_pos rfl] at hb' ⊢
      split at hb'
      · rw [← Option.some.inj hb']
        exact (h.holds n b hb).send ho f
      · cases hb'
    · rw [if_neg hi] at hb' ⊢
      rw [List.append_nil]
      exact h.holds i b' hb'
  case bound =>
    rw [hl, hh]
    intro f' hf'
    rcases List.mem_append.mp hf' with hf' | hf'
    · exact h.bound f' hf'
    · rw [List.mem_singleton.mp hf']
      omega
  -- no frame was handed to a later carrier, since there is none
  case sorted =>
    rw [hh, List.pairwise_append]
    refine ⟨h.sorted, List.pairwise_singleton _ _, ?_⟩
    intro f' hf' f'' hf''
    rw [List.mem_singleton.mp hf'']
    have := h.bound f' hf'
    omega
  case untouched =>
    rw [hl]
    exact h.untouched

/-- A new carrier holds nothing. -/
theorem Kept.addCarrier (h : Kept off s) (f : Framing) :
    Kept off (s.addCarrier { framing := f }) := by
  have hl : (s.addCarrier { framing := f }).carriers.length = s.carriers.length + 1 :=
    List.length_append
  refine ⟨?holds, ?bound, h.sorted, ?untouched⟩
  case holds =>
    intro n b hb
    have hb' : (s.carriers ++ [{ framing := f }])[n]? = some b := hb
    -- the bodies before the new place are as they were, and behind it there is none
    rcases Nat.lt_trichotomy n s.carriers.length with hn | hn | hn
    · rw [List.getElem?_append_left hn] at hb'
      exact h.holds n b hb'
    -- nothing was handed to the new place, or taken off it
    · subst hn
      have hnone : (s.addCarrier { framing := f }).handedTo s.carriers.length = [] := by
        refine List.map_eq_nil_iff.mpr (List.filter_eq_nil_iff.mpr ?_)
        intro f' hf'
        have := h.bound f' hf'
        simp
        omega
      simp only [List.getElem?_concat_length, Option.some.injEq] at hb'
      rw [hnone, h.untouched _ (Nat.le_refl _), ← hb']
      exact ResponseStream.holds_new f
    · rw [List.getElem?_eq_none (by simp; omega)] at hb'
      cases hb'
  case bound =>
    intro f' hf'
    rw [hl]
    exact Nat.lt_succ_of_lt (h.bound f' hf')
  case untouched =>
    intro n hn
    exact h.untouched n (by omega)

theorem Kept.detach (h : Kept off s) (now : Moment) : Kept off (s.detach now) := by
  unfold Session.detach
  split
  · exact h
  · rename_i n _
    have hlet : Kept off
        { s.finish now n with
          attached := none, nextBeat := none, deadline := some (now.time + s.timing.grace) } :=
      (h.finish now n).congr rfl rfl
    exact hlet.record rfl now

theorem Kept.displace (h : Kept off s) (now : Moment) : Kept off (s.displace now) := by
  unfold Session.displace
  split
  · exact h.congr rfl rfl
  · rename_i n _
    exact (h.finish now n).congr rfl rfl

theorem Kept.seat (h : Kept off s) (now : Moment) (n : Nat) : Kept off (s.seat now n) := by
  have hset : Kept off { s.displace now with attached := some n, phase := .live } :=
    (h.displace now).congr rfl rfl
  exact hset.record rfl now

/-! ### The attached carrier is open -/

/-- The attached carrier is the one that came last, and its body is open. -/
structure Served (s : Session ResponseStream) : Prop where
  latest : ∀ n, s.attached = some n → n + 1 = s.carriers.length
  isOpen : ∀ n, s.attached = some n → ∃ b, s.carriers[n]? = some b ∧ b.IsOpen

theorem Served.congr (h : Served s) (hc : s'.carriers = s.carriers)
    (ha : s'.attached = s.attached) : Served s' := by
  refine ⟨?_, ?_⟩
  · intro n hn
    rw [hc]
    exact h.latest n (ha ▸ hn)
  · intro n hn
    rw [hc]
    exact h.isOpen n (ha ▸ hn)

theorem served_of_detached (ha : s.attached = none) : Served s := by
  refine ⟨?_, ?_⟩
  · intro n hn
    cases ha.symm.trans hn
  · intro n hn
    cases ha.symm.trans hn

theorem Served.push (h : Served s) (now : Moment) (f : Frame) : Served (s.push now f) := by
  rcases ha : s.attached with - | n
  · rwa [push_of_none ha]
  obtain ⟨b, hb, ho⟩ := h.isOpen n ha
  rcases push_cases ha hb now f with ⟨hmore, hp⟩ | ⟨-, hp⟩
  · obtain ⟨_, _, _, hsend, -, hw⟩ := ResponseStream.send_of_open ho f.chars
    rw [hp]
    refine ⟨?_, ?_⟩
    · intro m hm
      exact (h.latest m hm).trans List.length_set.symm
    · intro m hm
      obtain rfl := Option.some.inj (ha.symm.trans hm)
      refine ⟨(b.send f.chars).1, ?_, ?_⟩
      · have hlt := (List.getElem?_eq_some_iff.mp hb).1
        exact List.getElem?_set_self hlt
      · rw [hsend]
        exact ⟨hw hmore, ho.2⟩
  · rw [hp]
    exact served_of_detached rfl

theorem Kept.push (h : Kept off s) (hs : Served s) (now : Moment) (f : Frame) :
    Kept off (s.push now f) := by
  rcases ha : s.attached with - | n
  · rwa [push_of_none ha]
  obtain ⟨b, hb, ho⟩ := hs.isOpen n ha
  have hk := h.hand (hs.latest n ha) hb ho now f
  simp only [Session.push, ha]
  rcases hh : s.hand now n f with ⟨s', d⟩
  rw [hh] at hk
  cases d with
  | more =>
    simp only
    split
    · exact hk.congr rfl rfl
    · exact hk
  | last => exact hk.detach now
  | refused => exact hk.detach now

/-- The bodies hold what was handed over, the attached one is open, and a closed session has
none. -/
structure Carried (off : Nat → List Char) (s : Session ResponseStream) : Prop where
  kept : Kept off s
  served : Served s
  closed : s.phase = .closed → s.attached = none

theorem Carried.push (h : Carried off s) (now : Moment) (f : Frame) :
    Carried off (s.push now f) := by
  refine ⟨h.kept.push h.served now f, h.served.push now f, ?_⟩
  intro hc
  obtain ⟨_, _, _, _, _, heq, -, ha⟩ := push_eq now f s
  rw [heq] at hc ⊢
  rcases ha with ha | ha
  · exact ha.trans (h.closed hc)
  · exact ha

theorem Carried.congr (h : Carried off s) (hc : s'.carriers = s.carriers)
    (ha : s'.attached = s.attached) (hp : s'.phase = s.phase) (hh : s'.handed = s.handed) :
    Carried off s' := by
  refine ⟨h.kept.congr hc hh, h.served.congr hc ha, ?_⟩
  intro hp'
  rw [ha]
  exact h.closed (hp ▸ hp')

theorem Carried.of_sameOutward (h : Carried off s) (hs : SameOutward s s') : Carried off s' :=
  h.congr hs.carriers hs.attached hs.phase hs.handed

theorem Carried.flush (h : Carried off s) (now : Moment) : Carried off (s.flush now) :=
  Carried.push (s := { s with outbound := [] }) (h.congr rfl rfl rfl rfl) now _

theorem Carried.record {e : Event} (h : Carried off s) (he : e.handed? = none) (now : Moment) :
    Carried off (s.record now e) := h.congr rfl rfl rfl (handed_record_of_none he now s)

/-! ### A carrier comes -/

theorem getElem?_displace {n : Nat} (hn : s.attached ≠ some n) (now : Moment) :
    (s.displace now).carriers[n]? = s.carriers[n]? := by
  unfold Session.displace
  split
  · rfl
  · rename_i m hm
    have hne : m ≠ n := by
      rintro rfl
      exact hn hm
    exact List.getElem?_modify_ne _ _ hne

/-- A new carrier is open when it is attached. -/
theorem served_seat (h : Served s) (f : Framing) (now : Moment) :
    Served ((s.addCarrier { framing := f }).seat now s.carriers.length) := by
  have hl : (s.addCarrier { framing := f }).carriers.length = s.carriers.length + 1 :=
    List.length_append
  refine ⟨?_, ?_⟩
  · intro n hn
    obtain rfl := Option.some.inj hn
    rw [length_carriers_seat, hl]
  · intro n hn
    obtain rfl := Option.some.inj hn
    refine ⟨{ framing := f }, ?_, rfl, rfl⟩
    have hne : (s.addCarrier { framing := f }).attached ≠ some s.carriers.length := by
      intro ha
      have := h.latest _ ha
      omega
    show ((s.addCarrier { framing := f }).displace now).carriers[s.carriers.length]? = _
    rw [getElem?_displace hne]
    exact List.getElem?_concat_length

/-- **A new carrier that comes keeps the bodies in order.** -/
theorem Carried.register (h : Carried off s) (f : Framing) (now : Moment) :
    Carried off ((s.addCarrier { framing := f }).attach now s.carriers.length) := by
  have hl : (s.addCarrier { framing := f }).carriers.length = s.carriers.length + 1 :=
    List.length_append
  have hkept := h.kept.addCarrier f
  have hseat : Carried off ((s.addCarrier { framing := f }).seat now s.carriers.length) :=
    ⟨hkept.seat now _, served_seat h.served f now, fun hc => by cases hc⟩
  rcases hp : s.phase
  -- the session opens on the new body
  · rw [attach_of_fresh (s := s.addCarrier _) hp]
    exact (hseat.push now .opening).record rfl now
  -- the queue, if there is one, goes to the new body
  · rw [attach_of_live (s := s.addCarrier _) hp]
    split
    · exact hseat.congr rfl rfl rfl rfl
    · exact hseat.flush now
  -- it is told to go away on its own body
  · rw [attach_of_closed (s := s.addCarrier _) hp]
    have hb : ((s.addCarrier { framing := f }).record now (.attached s.carriers.length)).carriers[
        s.carriers.length]? = some { framing := f } := List.getElem?_concat_length
    have hrecord : Kept off ((s.addCarrier { framing := f }).record now
        (.attached s.carriers.length)) := hkept.record rfl now
    have hhand := hrecord.hand hl.symm hb ⟨rfl, rfl⟩ now .goAway
    have ha := h.closed hp
    obtain ⟨_, _, heq, -⟩ := hand_eq now s.carriers.length .goAway
      ((s.addCarrier { framing := f }).record now (.attached s.carriers.length))
    have hatt : (((s.addCarrier { framing := f }).record now
        (.attached s.carriers.length)).hand now s.carriers.length .goAway).1.attached = none := by
      rw [heq]
      exact ha
    exact ⟨hhand.finish now _, served_of_detached hatt, fun _ => hatt⟩

/-! ### One turn -/

theorem Carried.write (h : Carried off s) (now : Moment) (message : String) :
    Carried off (s.write now message).1 := by
  by_cases hp : s.phase = .closed
  · rwa [write_of_closed hp]
  have henq : Carried off (s.enqueue now message) :=
    h.congr rfl rfl rfl (handed_enqueue now message s)
  rcases ha : s.attached with - | n
  · rwa [write_of_detached hp ha]
  · rw [write_of_attached hp ha]
    exact henq.flush now

theorem Carried.beat (h : Carried off s) (now : Moment) : Carried off (s.beat now) := by
  have hpush := h.push now .heartbeat
  simp only [Session.beat]
  split
  · exact hpush.congr rfl rfl rfl rfl
  · exact hpush

theorem Carried.detach (h : Carried off s) (now : Moment) : Carried off (s.detach now) := by
  refine ⟨h.kept.detach now, ?_, ?_⟩
  · unfold Session.detach
    split
    · exact h.served
    · exact served_of_detached rfl
  · unfold Session.detach
    split
    · exact h.closed
    · exact fun _ => rfl

theorem Carried.shut (h : Carried off s) (now : Moment) : Carried off (s.shut now) := by
  by_cases hp : s.phase = .closed
  · rwa [shut_of_closed hp]
  have hended : Kept off (s.ended now) := by
    have hclosed : Kept off { s with phase := .closed } := h.kept.congr rfl rfl
    exact hclosed.record rfl now
  rcases ha : s.attached with - | n
  · rw [shut_of_detached hp ha]
    exact ⟨hended.congr rfl rfl, served_of_detached rfl, fun _ => rfl⟩
  · obtain ⟨b, hb, ho⟩ := h.served.isOpen n ha
    rw [shut_of_attached hp ha]
    have hhand := hended.hand (h.served.latest n ha) hb ho now .goAway
    exact ⟨(hhand.finish now n).congr rfl rfl, served_of_detached rfl, fun _ => rfl⟩

theorem Carried.depart (h : Carried off s) (now : Moment) : Carried off (s.depart now).1 := by
  obtain ⟨_, hd, hh⟩ := depart_eq now s
  have hs := h.shut now
  refine hs.congr ?_ ?_ ?_ hh
  · rw [hd]
  · rw [hd]
  · rw [hd]

/-- The client reads a body, or goes away after the session did. -/
theorem Carried.stir (h : Carried off s) {n : Nat} {b b' : ResponseStream}
    (hb : s.carriers[n]? = some b)
    (hb' : b' = b.read.2 ∨ s.attached ≠ some n ∧ (b' = b.drop ∨ b' = b.desert)) :
    Carried (fun i => off i ++ if n = i then b.waiting else [])
      { s with carriers := s.carriers.set n b' } := by
  have hlt := (List.getElem?_eq_some_iff.mp hb).1
  -- whatever the client does, nothing is left on the body
  have hempty : b'.pieces = [] ∧ b'.framing = b.framing ∧ b'.started = b.started := by
    rcases hb' with rfl | ⟨-, rfl | rfl⟩
    · unfold ResponseStream.read
      split
      · exact ⟨rfl, rfl, rfl⟩
      · rename_i hr
        exact ⟨(h.kept.holds n b hb).unread (by simpa using hr), rfl, rfl⟩
    · exact ⟨rfl, rfl, rfl⟩
    · exact ⟨rfl, rfl, rfl⟩
  obtain ⟨hp, hf, hs⟩ := hempty
  refine ⟨⟨?_, ?_, h.kept.sorted, ?_⟩, ⟨?_, ?_⟩, h.closed⟩
  · intro i b₁ hb₁
    have hb₁' : (s.carriers.set n b')[i]? = some b₁ := hb₁
    rw [List.getElem?_set] at hb₁'
    by_cases hi : n = i
    · subst hi
      rw [if_pos rfl, if_pos hlt] at hb₁'
      rw [if_pos rfl, ← Option.some.inj hb₁']
      exact (h.kept.holds n b hb).emptied hp hf hs
    · rw [if_neg hi] at hb₁' ⊢
      rw [List.append_nil]
      exact h.kept.holds i b₁ hb₁'
  · intro f hfm
    show _ < (s.carriers.set n b').length
    rw [List.length_set]
    exact h.kept.bound f hfm
  · intro i hi
    have hi' : s.carriers.length ≤ i := by
      have : (s.carriers.set n b').length ≤ i := hi
      rwa [List.length_set] at this
    have hne : n ≠ i := by omega
    rw [if_neg hne, List.append_nil]
    exact h.kept.untouched i hi'
  · intro m hm
    show _ = (s.carriers.set n b').length
    rw [List.length_set]
    exact h.served.latest m hm
  · intro m hm
    obtain ⟨b₁, hb₁, ho⟩ := h.served.isOpen m hm
    by_cases hi : n = m
    -- the attached body is only read
    · subst hi
      obtain rfl := Option.some.inj (hb.symm.trans hb₁)
      rcases hb' with rfl | ⟨hne, -⟩
      · refine ⟨b.read.2, List.getElem?_set_self hlt, ?_⟩
        unfold ResponseStream.read
        split
        · exact ho
        · exact ho
      · exact absurd hm hne
    · exact ⟨b₁, (List.getElem?_set_ne hi).trans hb₁, ho⟩

theorem Carried.does {d : Deed ResponseStream} (h : Carried off s) (now : Moment)
    (hd : ∀ n b, d ≠ .stir n b) (hf : Turn.isFair ⟨now, s, d⟩ = true) :
    Carried off (s.does now d) := by
  have hc := change_does now s d
  generalize s.does now d = s' at hc ⊢
  cases hc with
  | inward ho => exact h.of_sameOutward (sameOutward_does now s ho)
  | idle => exact h
  | forget => exact h.congr rfl rfl rfl rfl
  | stir n b => exact absurd rfl (hd n b)
  | again n => cases hf
  | register b =>
    have hb : b = { framing := b.framing } := beq_iff_eq.mp hf
    rw [hb]
    exact h.register b.framing now
  | lose n => exact h.detach now
  | beat => exact h.beat now
  | write message => exact h.write now message
  | depart => exact h.depart now

theorem Turn.off_eq_nil {t : Turn ResponseStream} (hd : ∀ n b, t.deed ≠ .stir n b) (n : Nat) :
    t.off n = [] := by
  unfold Turn.off
  split
  · rename_i i b h
    exact absurd h (hd i b)
  · rfl

/-- **A fair turn keeps the bodies in order.** -/
theorem Carried.turn {ts : List (Turn ResponseStream)} {t : Turn ResponseStream}
    (hf : t.isFair = true) (h : Carried (Session.off ts) t.before) :
    Carried (Session.off (ts ++ [t])) t.after := by
  obtain ⟨now, s, d⟩ := t
  have hoff : Session.off (ts ++ [⟨now, s, d⟩]) =
      fun n => Session.off ts n ++ Turn.off n ⟨now, s, d⟩ := funext (off_concat ts _)
  rw [hoff]
  by_cases hd : ∃ n b, d = .stir n b
  · obtain ⟨n, b', rfl⟩ := hd
    rcases hb : s.carriers[n]? with - | b
    -- there is no such body
    · have hset : s.carriers.set n b' = s.carriers :=
        List.set_eq_of_length_le (List.getElem?_eq_none_iff.mp hb)
      have hnil : ∀ i, Turn.off i ⟨now, s, .stir n b'⟩ = [] := by
        intro i
        by_cases hi : n = i
        · subst hi
          simp [Turn.off, hb]
        · simp [Turn.off, hi]
      simp only [hnil, List.append_nil]
      exact h.congr hset rfl rfl rfl
    -- what waited on the body is taken off it
    · have hread : ∀ i, Turn.off i ⟨now, s, .stir n b'⟩ = if n = i then b.waiting else [] := by
        intro i
        by_cases hi : n = i
        · subst hi
          simp [Turn.off, hb]
        · simp [Turn.off, hi]
      have hb' : b' = b.read.2 ∨ s.attached ≠ some n ∧ (b' = b.drop ∨ b' = b.desert) := by
        simpa [Turn.isFair, hb] using hf
      simp only [hread]
      exact h.stir hb hb'
  -- nobody but the client takes anything off
  · have hne : ∀ n b, d ≠ .stir n b := fun n b he => hd ⟨n, b, he⟩
    simp only [Turn.off_eq_nil (t := ⟨now, s, d⟩) hne, List.append_nil]
    exact h.does now hne hf

theorem IsNew.carried (h : s.IsNew) : Carried (Session.off []) s := by
  obtain ⟨_, _, _, _, _, rfl⟩ := h
  refine ⟨⟨?_, ?_, .nil, fun _ _ => rfl⟩, served_of_detached rfl, fun _ => rfl⟩
  · rintro n b hb
    cases hb
  · rintro f hf
    cases hf

/-! ### What the client hears -/

/-- The messages carrier by carrier are the messages as they were handed over. -/
theorem Kept.messagesIn_handed (h : Kept off s) :
    (List.range s.carriers.length).flatMap (fun n => (s.handedTo n).flatMap (·.messages)) =
      messagesIn s.handed := by
  have hall : s.handed.filter (·.1 < s.carriers.length) = s.handed :=
    List.filter_eq_self.mpr fun f hf => by simpa using h.bound f hf
  calc (List.range s.carriers.length).flatMap (fun n => (s.handedTo n).flatMap (·.messages))
      = (List.range s.carriers.length).flatMap
          (fun n => messagesIn (s.handed.filter (·.1 == n))) := by
        simp only [handedTo, List.flatMap_map, messagesIn]
    _ = messagesIn ((List.range s.carriers.length).flatMap
          (fun n => s.handed.filter (·.1 == n))) := List.flatMap_assoc.symm
    _ = messagesIn s.handed := by rw [flatMap_filter_of_sorted h.sorted, hall]

/-- **The bodies read back** as the messages that were handed over. -/
theorem Carried.heard? {ts : List (Turn ResponseStream)} (h : Carried (Session.off ts) s) :
    heard? ts s = some (messagesIn s.handed) := by
  have hread : ∀ p ∈ s.carriers.zipIdx,
      p.1.framing.messages? (Session.off ts p.2 ++ p.1.waiting) =
        some ((s.handedTo p.2).flatMap (·.messages)) := by
    rintro ⟨b, n⟩ hp
    have hb : s.carriers[n]? = some b := List.mem_zipIdx_iff_getElem?.mp hp
    rw [(h.kept.holds n b hb).layout, Framing.messages?_layout]
  have hplaces : s.carriers.zipIdx.map (fun p => (s.handedTo p.2).flatMap (·.messages)) =
      (List.range s.carriers.length).map fun n => (s.handedTo n).flatMap (·.messages) := by
    rw [List.range_eq_range', ← List.zipIdx_map_snd 0 s.carriers, List.map_map]
    rfl
  rw [Session.heard?, Framing.mapM_eq_some_map hread, Option.map_some, hplaces,
    ← h.kept.messagesIn_handed]
  rfl

end Duplex.Session

namespace Duplex.World

open Session

/-- In a run with fair turns the bodies are in order. -/
theorem carried_of_run {ms : List (Move ResponseStream)} {k : Nat}
    (hf : ∀ t ∈ turns k {} ms, t.isFair = true) {s : Session ResponseStream}
    (hs : (({} : World ResponseStream).after ms).sessions[k]? = some s) :
    Carried (off (turns k {} ms)) s := by
  refine session_run_of_turns (P := fun ts s => Carried (off ts) s) ?_ ?_ ms hf hs
  · intro s hnew
    exact hnew.carried
  · intro ts t hfair h
    exact h.turn hfair

/-- **Messages are delivered once and in order.**  In every run in which the carriers of a session
are new response streams that keep their readers while they are attached, the bodies read back.
What they hold, followed by what waits in the queue, is what was written; once the session has
closed, only what was in the queue at that moment is missing. -/
theorem delivered_of_run {ms : List (Move ResponseStream)} {k : Nat}
    (hf : ∀ t ∈ turns k {} ms, t.isFair = true) {s : Session ResponseStream}
    (hs : (({} : World ResponseStream).after ms).sessions[k]? = some s) :
    ∃ got, heard? (turns k {} ms) s = some got ∧ Balanced got (turns k {} ms) s :=
  ⟨messagesIn s.handed, (carried_of_run hf hs).heard?, (balanced_of_run ms hs).2⟩

/-- A session is polled once, written to, and carried on by a stream whose client reads. -/
def streamed : List (Move ResponseStream) :=
  [.make "s" (.polling {}) (fun k => .write k "hello" fun _ => .done) none true true,
    .register 0 { framing := .poll }, .step, .step, .register 0 { framing := .stream 100 },
    .stir 0 1 { framing := .stream 100, started := true, sent := 11 },
    .call (.write 0 "again" fun _ => .done), .step, .step]

theorem delivered_of_streamed :
    ∃ s, (({} : World ResponseStream).after streamed).sessions[0]? = some s ∧
      (∀ t ∈ turns 0 {} streamed, t.isFair = true) ∧
      heard? (turns 0 {} streamed) s = some ["hello", "again"] ∧
      ∃ got, heard? (turns 0 {} streamed) s = some got ∧ Balanced got (turns 0 {} streamed) s :=
  ⟨_, rfl, by decide, by decide +kernel, delivered_of_run (k := 0) (by decide) rfl⟩

end Duplex.World
