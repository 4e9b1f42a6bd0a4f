/-
Duplex/Proofs/World/Sockets.lean

Sockets: when the application is told of a session, and when it may write.

A session opens when its first carrier is attached.  In the same move it is
entered among the sockets of the world, and what the application does with a
new socket goes on top of the tasks.  `sockets_move` says that this is the
only way in which anything is entered; `count_sockets` and
`not_fresh_of_socket` follow by induction over runs.

The application has no socket before it is given one, so it cannot write to a
session that has not opened.  The moves of a world do not know of this, since
a program may name any session: `Entitled` says it of a run, and
`not_fresh_of_write` draws the conclusion.
-/
import Duplex.Carrier.ResponseStream
import Duplex.Proofs.Session.Handing
import Duplex.Proofs.World.Run

namespace Duplex

variable {C : Type} [Carrier C]

open Session (Turn)

/-! ### Turns at which a session opens -/

namespace Session

/-- The session opens at this turn. -/
def Turn.opens (t : Turn C) : Bool := t.before.phase == .fresh && t.after.phase == .live

/-- A session opens when a carrier comes and none came before. -/
theorem Turn.opens_iff {t : Turn C} :
    t.opens = true ↔ t.before.phase = .fresh ∧ (t.before.comer? t.deed).isSome := by
  obtain ⟨now, s, d⟩ := t
  simp only [opens, after, Bool.and_eq_true, beq_iff_eq, phase_does]
  apply and_congr_right
  intro hs
  cases d with
  | depart => by_cases hg : s.gone = true <;> simp [phaseAfter, comer?, hs, hg]
  | _ => simp [phaseAfter, comer?, hs]

/-- A session is fresh only as long as it was. -/
theorem fresh_of_does {now : Moment} {s : Session C} {d : Deed C}
    (h : (s.does now d).phase = .fresh) : s.phase = .fresh := by
  rw [phase_does] at h
  cases d with
  | depart =>
    simp only [phaseAfter] at h
    split at h
    · exact h
    · cases h
  | _ =>
    simp only [phaseAfter] at h
    split at h
    · cases h
    · exact h

end Session

/-- A carrier comes with this move. -/
def Move.isComing : Move C → Bool
  | .register .. | .again .. => true
  | _ => false

namespace World

/-! ### Sockets along one move -/

theorem sockets_step (w : World C) : w.step.sockets = w.sockets := by
  obtain ⟨_, _, _, h⟩ := step_frame w
  rw [h]

/-- A carrier that comes to a fresh session enters it among the sockets, and the application is
told. -/
theorem attach_of_live {w : World C} {k : Nat} {s : Session C} (h : w.live? k = some s) (n : Nat) :
    (w.attach k n).sockets = w.sockets ++ (if s.phase = .fresh then [k] else []) ∧
      (w.attach k n).tasks =
        (if s.phase = .fresh then [.act (s.onOpen k)] else []) ++ w.tasks := by
  simp only [attach, h]
  split
  · exact ⟨rfl, rfl⟩
  · exact ⟨(List.append_nil _).symm, rfl⟩

theorem register_of_live {w : World C} {k : Nat} {s : Session C} (h : w.live? k = some s) (c : C) :
    (w.register k c).sockets = w.sockets ++ (if s.phase = .fresh then [k] else []) ∧
      (w.register k c).tasks =
        (if s.phase = .fresh then [.act (s.onOpen k)] else []) ++ w.tasks := by
  obtain ⟨hk, hg⟩ := live?_eq_some.mp h
  have hl : (w.modify k (·.addCarrier c)).live? k = some (s.addCarrier c) :=
    live?_eq_some.mpr ⟨by simp [hk], hg⟩
  simp only [register, h]
  exact attach_of_live hl s.carriers.length

/-! ### Which session a move opens -/

omit [Carrier C] in
/-- Programs bring no carriers. -/
theorem comer?_of_program {p : Program} {k : Nat} {d : Session.Deed C}
    (h : p.deed? = some (k, d)) (s : Session C) : s.comer? d = none := by
  cases p with
  | feed j payload next =>
    obtain ⟨_, -, he⟩ := Option.map_eq_some_iff.mp h
    cases he
    rfl
  | _ => cases h <;> rfl

omit [Carrier C] in
/-- A carrier only comes with the moves made for it. -/
theorem comer?_of_not_coming {w : World C} {m : Move C} (hm : m.isComing = false) {k : Nat}
    {d : Session.Deed C} (h : m.deed? w.tasks = some (k, d)) (s : Session C) :
    s.comer? d = none := by
  cases m with
  | step =>
    obtain ⟨t, _, -, ht⟩ := Move.deed?_step.mp h
    cases t with
    | act p => exact comer?_of_program ht s
    | _ => cases ht; rfl
  | feed j payload =>
    obtain ⟨_, -, he⟩ := Option.map_eq_some_iff.mp h
    cases he
    rfl
  | register | again => cases hm
  | _ => cases h <;> rfl

theorem sockets_of_not_coming (w : World C) {m : Move C} (hm : m.isComing = false) :
    (w.move m).sockets = w.sockets := by
  cases m with
  | step => exact sockets_step w
  -- the other moves do nothing to the sockets, whichever way they go
  | lose k n =>
    simp only [move]
    split
    · rfl
    · split <;> rfl
  | feed k payload =>
    simp only [move]
    split
    · rfl
    · obtain ⟨_, _, h⟩ := receive_frame w k (Payload.messages? payload)
      rw [feed, h]
  | elapse k =>
    simp only [move, elapse]
    split <;> rfl
  | make id timing onOpen peer held entered =>
    simp only [move, ensure]
    split
    · split <;> rfl
    · rfl
  | register | again => cases hm
  | next | pass | call | hold | introduce | stir | close | closeAll | shutdown | forget => rfl

/-- A carrier comes to a session that something keeps, or nothing happens. -/
theorem move_of_coming (w : World C) {m : Move C} (hm : m.isComing = true) :
    (w.move m = w ∧ ∀ k d, m.deed? w.tasks = some (k, d) →
      ∀ s, w.sessions[k]? = some s → s.comer? d = none) ∨
    ∃ k d s, m.deed? w.tasks = some (k, d) ∧ w.sessions[k]? = some s ∧ (s.comer? d).isSome ∧
      (w.move m).sockets = w.sockets ++ (if s.phase = .fresh then [k] else []) ∧
      (w.move m).tasks = (if s.phase = .fresh then [.act (s.onOpen k)] else []) ++ w.tasks := by
  cases m with
  | register k carrier =>
    rcases hl : w.live? k with - | s
    -- nothing keeps the session, and no carrier comes to it
    · refine .inl ⟨by simp [move, register, hl], ?_⟩
      rintro _ _ ⟨⟩ s hs
      simp [Session.comer?, live?_eq_none.mp hl s hs]
    · obtain ⟨hk, hg⟩ := live?_eq_some.mp hl
      exact .inr ⟨k, _, s, rfl, hk, by simp [Session.comer?, hg], register_of_live hl carrier⟩
  | again k n =>
    rcases hl : w.live? k with - | s
    · refine .inl ⟨by simp [move, hl], ?_⟩
      rintro _ _ ⟨⟩ s hs
      simp [Session.comer?, live?_eq_none.mp hl s hs]
    · obtain ⟨hk, hg⟩ := live?_eq_some.mp hl
      by_cases hn : n < s.carriers.length
      · refine .inr ⟨k, _, s, rfl, hk, by simp [Session.comer?, hg, hn], ?_⟩
        simpa only [move, hl, hn, if_true] using attach_of_live hl n
      -- there is no such carrier
      · refine .inl ⟨by simp [move, hl, hn], ?_⟩
        rintro _ _ ⟨⟩ s' hs'
        obtain rfl := Option.some.inj (hk.symm.trans hs')
        simp [Session.comer?, hn]
  | _ => cases hm

/-- **A move enters exactly the session that it opens**, and what the application does with a new
socket goes on top of the tasks. -/
theorem sockets_move (w : World C) (m : Move C) :
    ((w.move m).sockets = w.sockets ∧ ∀ k, ∀ t ∈ turnOf k w m, t.opens = false) ∨
    ∃ k t, turnOf k w m = [t] ∧ t.opens = true ∧ (w.move m).sockets = w.sockets ++ [k] ∧
      (w.move m).tasks = .act (t.before.onOpen k) :: w.tasks := by
  -- without a comer nothing opens
  have still (h : ∀ k d, m.deed? w.tasks = some (k, d) →
      ∀ s, w.sessions[k]? = some s → s.comer? d = none) :
      ∀ k, ∀ t ∈ turnOf k w m, t.opens = false := by
    intro k t ht
    obtain ⟨hk, -, hd⟩ := mem_turnOf.mp ht
    rw [← Bool.not_eq_true, Session.Turn.opens_iff, h k _ hd _ hk]
    simp
  rcases hm : m.isComing with - | -
  · exact .inl ⟨sockets_of_not_coming w hm, still fun k d hd s _ => comer?_of_not_coming hm hd s⟩
  rcases move_of_coming w hm with ⟨h, hc⟩ | ⟨k, d, s, hd, hk, hc, hs, ht⟩
  · exact .inl ⟨by rw [h], still hc⟩
  have hturn : turnOf k w m = [⟨w.now, s, d⟩] := turnOf_eq_of_mem (mem_turnOf.mpr ⟨hk, rfl, hd⟩)
  by_cases hf : s.phase = .fresh
  -- the first carrier opens it
  · rw [if_pos hf] at hs ht
    exact .inr ⟨k, _, hturn, Session.Turn.opens_iff.mpr ⟨hf, hc⟩, hs, ht⟩
  -- it is open already, or closed
  · rw [if_neg hf, List.append_nil] at hs
    refine .inl ⟨hs, ?_⟩
    intro k' t' ht'
    obtain ⟨hk', -, hd'⟩ := mem_turnOf.mp ht'
    obtain ⟨rfl, -⟩ := Prod.mk.inj (Option.some.inj (hd.symm.trans hd'))
    rw [← Bool.not_eq_true, Session.Turn.opens_iff, ← Option.some.inj (hk.symm.trans hk')]
    exact fun h => hf h.1

/-! ### Sockets along a run -/

/-- A session is among the sockets as often as it opened. -/
theorem count_sockets (ms : List (Move C)) (k : Nat) :
    (({} : World C).after ms).sockets.count k = (turns k {} ms).countP (·.opens) := by
  induction ms using List.reverseRecOn with
  | nil => rfl
  | append_singleton ms m ih =>
    rw [turns_concat, after_append, after_cons, after_nil, List.countP_append, ← ih]
    rcases sockets_move (({} : World C).after ms) m with ⟨h, hn⟩ | ⟨j, t, hj, ho, h, -⟩
    · rw [h, List.countP_eq_zero.mpr (fun t ht => by simp [hn k t ht]), Nat.add_zero]
    · rw [h, List.count_append]
      by_cases hk : j = k
      · subst hk
        simp [hj, ho]
      -- a move is a turn of one session at most
      · have hnone : turnOf k (({} : World C).after ms) m = [] := by
          refine List.eq_nil_iff_forall_not_mem.mpr fun t' ht' => hk ?_
          have hd := (mem_turnOf.mp (hj ▸ List.mem_singleton_self t)).2.2
          have hd' := (mem_turnOf.mp ht').2.2
          exact (Prod.mk.inj (Option.some.inj (hd.symm.trans hd'))).1
        simp [hnone, hk]

/-- A session that opened is not fresh again. -/
theorem not_fresh_of_socket (ms : List (Move C)) {k : Nat} {s : Session C}
    (hk : k ∈ (({} : World C).after ms).sockets)
    (hs : (({} : World C).after ms).sessions[k]? = some s) : s.phase ≠ .fresh := by
  have hc : 0 < (turns k ({} : World C) ms).countP (·.opens) :=
    count_sockets ms k ▸ List.count_pos_iff.mpr hk
  refine session_run (P := fun ts s => 0 < ts.countP (·.opens) → s.phase ≠ .fresh) ?_ ?_ ms hs hc
  · intro s _ h
    cases h
  · intro ts t ih h hf
    have hn : t.opens = false := by simp [Session.Turn.opens, hf]
    rw [List.countP_append, List.countP_singleton, hn] at h
    exact ih h (Session.fresh_of_does hf)

/-! ### Writing only to sockets -/

/-- The application writes to a session only if it has its socket. -/
def MayMove (w : World C) : Move C → Prop
  | .step => ∀ k message next rest, w.tasks = .act (.write k message next) :: rest → k ∈ w.sockets
  | _ => True

/-- Along these moves the application writes only to sockets that it was given. -/
def Entitled : World C → List (Move C) → Prop
  | _, [] => True
  | w, m :: ms => w.MayMove m ∧ Entitled (w.move m) ms

theorem entitled_append (w : World C) (ms ms' : List (Move C)) :
    Entitled w (ms ++ ms') ↔ Entitled w ms ∧ Entitled (w.after ms) ms' := by
  induction ms generalizing w with
  | nil => simp [Entitled]
  | cons m ms ih => simp [Entitled, ih, and_assoc]

theorem entitled_of_append {w : World C} {ms ms' : List (Move C)} (he : Entitled w (ms ++ ms')) :
    Entitled w ms := ((entitled_append w ms ms').mp he).1

omit [Carrier C] in
/-- Only a program on top of the tasks writes. -/
theorem step_of_write {w : World C} {m : Move C} {k : Nat} {message : String}
    (h : m.deed? w.tasks = some (k, .write message)) :
    ∃ next rest, m = .step ∧ w.tasks = .act (.write k message next) :: rest := by
  obtain ⟨rfl, t, rest, htasks, ht⟩ := Move.step_of_isTask h rfl
  cases t with
  | act p =>
    cases p with
    | write j message' next =>
      cases ht
      exact ⟨next, rest, rfl, htasks⟩
    | feed j payload next =>
      obtain ⟨_, -, he⟩ := Option.map_eq_some_iff.mp ht
      cases he
    | _ => cases ht
  | _ => cases ht

/-- In such a run nothing is written to a fresh session. -/
theorem not_fresh_of_write {ms : List (Move C)} (he : Entitled {} ms) (k : Nat) :
    ∀ t ∈ turns k ({} : World C) ms, ∀ message, t.deed = .write message →
      t.before.phase ≠ .fresh := by
  induction ms using List.reverseRecOn with
  | nil =>
    intro t ht
    cases ht
  | append_singleton ms m ih =>
    obtain ⟨he, hm, -⟩ := (entitled_append _ _ _).mp he
    intro t ht message hd
    rw [turns_concat, List.mem_append] at ht
    rcases ht with ht | ht
    · exact ih he t ht message hd
    obtain ⟨hk, -, hdeed⟩ := mem_turnOf.mp ht
    -- the program that writes is on top of the tasks, so it has the socket of an opened session
    obtain ⟨next, rest, rfl, htasks⟩ := step_of_write (hd ▸ hdeed)
    exact not_fresh_of_socket ms (hm k message next rest htasks) hk

/-- A session is polled once and written to, and the message waits for the next poll. -/
def greeted : List (Move Conduit) :=
  [.make "s" (.polling {}) (fun k => .write k "hello" fun _ => .done) none true true,
    .register 0 (.stream { framing := .poll }), .step, .step]

theorem entitled_greeted : Entitled {} greeted := by
  refine ⟨trivial, trivial, ?_, ?_, trivial⟩
  · rintro k message next rest ⟨⟩
    exact List.mem_singleton_self 0
  · rintro k message next rest ⟨⟩

end World

end Duplex
