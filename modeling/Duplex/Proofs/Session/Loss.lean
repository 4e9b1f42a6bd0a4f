/-
Duplex/Proofs/Session/Loss.lean

What becomes of the batches: taken or lost.

A session empties its queue before it knows what the carrier answers.  So a
batch goes out once, and whoever refuses it, it does not come back.  The books
of a session, read off its history with the answers in it, are

    messages handed over  ++  queue  =  messages written

and the messages that were handed over are those that a carrier took if and
only if no carrier ever refused a batch (`batches_of_run`).  A batch is never
empty, so one refusal is enough to lose a message.

Each of three runs ends so (`Loses`).  In `refusedOnce` a message waits, and the
carrier that comes has ended before it took anything.  In `closedBefore` a
carrier that was closed comes again, and the next message is handed to it.  In
`bodyGone` a message is written to a response whose body is gone, before anyone
noticed.  The carrier after that is handed nothing.
-/
import Duplex.Carrier.ResponseStream
import Duplex.Proofs.Session.Ledger
import Duplex.Rehearsal.Probe

namespace Duplex

/-- The batch that was handed over at an event, and what the carrier answered. -/
def Event.batch? : Event → Option (List String × Delivery)
  | .handed _ (.batch messages) delivery => some (messages, delivery)
  | _ => none

namespace Session

variable {C : Type}

/-! ### Batches and answers -/

/-- The batches that were handed over, each with the answer, in order of time. -/
def batches (s : Session C) : List (List String × Delivery) :=
  (s.past.filterMap (·.2.batch?)).reverse

/-- The messages that the carriers took, in order of time. -/
def accepted (s : Session C) : List String :=
  (s.batches.filter (·.2 ≠ .refused)).flatMap (·.1)

/-- The messages that a carrier refused, in order of time. -/
def refused (s : Session C) : List String :=
  (s.batches.filter (·.2 = .refused)).flatMap (·.1)

/-- Only batches hold messages. -/
theorem messagesIn_handed (s : Session C) : messagesIn s.handed = s.batches.flatMap (·.1) := by
  rw [handed, batches, ← List.filterMap_reverse, ← List.filterMap_reverse]
  induction s.past.reverse with
  | nil => rfl
  | cons e past ih =>
    obtain ⟨now, e⟩ := e
    cases e with
    | handed n frame delivery =>
      cases frame with
      | batch messages => exact congrArg (messages ++ ·) ih
      | _ => exact ih
    | _ => exact ih

/-- A batch in the history is one of the frames that were handed over. -/
theorem exists_mem_handed {s : Session C} {b : List String × Delivery} (hb : b ∈ s.batches) :
    ∃ n, (n, .batch b.1) ∈ s.handed := by
  obtain ⟨⟨now, e⟩, he, h⟩ := List.mem_filterMap.mp (List.mem_reverse.mp hb)
  cases e with
  | handed n frame delivery =>
    cases frame with
    | batch messages =>
      obtain rfl := Option.some.inj h
      exact ⟨n, List.mem_reverse.mpr (List.mem_filterMap.mpr ⟨_, he, rfl⟩)⟩
    | _ => cases h
  | _ => cases h

/-- As many messages were handed over as were taken and refused. -/
theorem length_accepted_add_refused (s : Session C) :
    s.accepted.length + s.refused.length = (s.batches.flatMap (·.1)).length := by
  unfold accepted refused
  induction s.batches with
  | nil => rfl
  | cons b bs ih =>
    by_cases hb : b.2 = .refused
    · simp [hb, ← ih]
      omega
    · simp [hb, ← ih]
      omega

theorem refused_eq_nil {s : Session C} (hne : ∀ b ∈ s.batches, b.1 ≠ []) :
    s.refused = [] ↔ ∀ b ∈ s.batches, b.2 ≠ .refused := by
  rw [refused, List.flatMap_eq_nil_iff]
  constructor
  · intro h b hb hr
    exact hne b hb (h b (List.mem_filter.mpr ⟨hb, decide_eq_true hr⟩))
  · intro h b hb
    obtain ⟨hmem, hr⟩ := List.mem_filter.mp hb
    exact absurd (of_decide_eq_true hr) (h b hmem)

theorem accepted_of_unrefused {s : Session C} (h : ∀ b ∈ s.batches, b.2 ≠ .refused) :
    s.accepted = s.batches.flatMap (·.1) := by
  rw [accepted, List.filter_eq_self.mpr fun b hb => decide_eq_true (h b hb)]

/-! ### No batch is empty -/

/-- Every batch that was handed over has a message in it. -/
def Laden (s : Session C) : Prop := ∀ f ∈ s.handed, f.2 ≠ .batch []

theorem batch_ne_nil_of_mem_hands {s : Session C} {d : Deed C} {f : Nat × Frame}
    (hf : f ∈ s.hands d) : f.2 ≠ .batch [] := by
  rcases mem_hands hf with ⟨n, -, hf⟩ | ⟨n, -, ⟨-, rfl⟩ | ⟨message, -, -, rfl⟩ | ⟨-, -, -, rfl⟩⟩
  · unfold greeting at hf
    split at hf
    · rw [List.mem_singleton.mp hf]
      rintro ⟨⟩
    · split at hf
      · cases hf
      · rename_i ho
        rw [List.mem_singleton.mp hf]
        exact fun h => ho (Frame.batch.inj h)
    · rw [List.mem_singleton.mp hf]
      rintro ⟨⟩
  · rintro ⟨⟩
  · simp
  · rintro ⟨⟩

theorem IsNew.laden {s : Session C} (h : s.IsNew) : s.Laden := by
  obtain ⟨_, _, _, _, _, rfl⟩ := h
  intro f hf
  cases hf

theorem Laden.does [Carrier C] {s : Session C} (h : s.Laden) (hs : s.Seated) (now : Moment)
    (d : Deed C) : (s.does now d).Laden := by
  intro f hf
  rw [handed_does hs] at hf
  rcases List.mem_append.mp hf with hf | hf
  · exact h f hf
  · exact batch_ne_nil_of_mem_hands hf

end Session

namespace World

open Session

variable {C : Type} [Carrier C]

theorem laden_of_run (ms : List (Move C)) {k : Nat} {s : Session C}
    (hs : (({} : World C).after ms).sessions[k]? = some s) : s.Laden := by
  refine (session_run (P := fun _ s => s.Seated ∧ s.Laden) ?_ ?_ ms hs).2
  · exact fun s hnew => ⟨hnew.seated, hnew.laden⟩
  · rintro ts t ⟨hseat, hladen⟩
    exact ⟨hseat.does t.now t.deed, hladen.does hseat t.now t.deed⟩

/-- **A message is handed over once, and it is lost when the carrier refuses it**: what the
carriers took, followed by the queue, is what was written if and only if no carrier refused a
batch. -/
theorem batches_of_run (ms : List (Move C)) {k : Nat} {s : Session C}
    (hs : (({} : World C).after ms).sessions[k]? = some s) (hp : s.phase ≠ .closed) :
    s.batches.flatMap (·.1) ++ s.outbound = written (turns k {} ms) ∧
      (∀ b ∈ s.batches, b.1 ≠ []) ∧
      (s.accepted ++ s.outbound = written (turns k {} ms) ↔
        ∀ b ∈ s.batches, b.2 ≠ .refused) := by
  have hbooks : s.batches.flatMap (·.1) ++ s.outbound = written (turns k {} ms) := by
    rw [← messagesIn_handed]
    exact (balanced_of_run ms hs).2.queued hp
  -- no batch is empty, so a refused one takes messages with it
  have hne : ∀ b ∈ s.batches, b.1 ≠ [] := by
    intro b hb hnil
    obtain ⟨n, hn⟩ := exists_mem_handed hb
    exact laden_of_run ms hs _ hn (congrArg Frame.batch hnil)
  refine ⟨hbooks, hne, ?_⟩
  constructor
  -- if all that was written is accounted for, no message is missing from the batches
  · intro h
    have hall : s.accepted = s.batches.flatMap (·.1) :=
      List.append_cancel_right (h.trans hbooks.symm)
    have hlen := s.length_accepted_add_refused
    rw [hall, Nat.add_eq_left, List.length_eq_zero_iff] at hlen
    exact (refused_eq_nil hne).mp hlen
  · intro h
    rw [accepted_of_unrefused h, hbooks]

open Rehearsal

/-- A message waits, the carrier that comes refuses it, and another one comes. -/
def refusedOnce : List (Move Probe) :=
  [.make "s" (.polling {}) (fun _ => .done) none true false,
    .register 0 { name := "a", limit := some 1 }, .step,
    .call (.write 0 "m" fun _ => .done), .step, .step,
    .register 0 { name := "b", limit := some 0 }, .register 0 { name := "c" }]

theorem batches_of_refusedOnce :
    ∃ s, (({} : World Probe).after refusedOnce).sessions[0]? = some s ∧ s.phase ≠ .closed ∧
      s.batches.flatMap (·.1) ++ s.outbound = written (turns 0 {} refusedOnce) := by
  have h : ((({} : World Probe).after refusedOnce).sessions[0]?).map (·.phase) = some .live := by
    decide +kernel
  obtain ⟨s, hs, hp⟩ := Option.map_eq_some_iff.mp h
  have hlive : s.phase ≠ .closed := by
    rw [hp]
    decide
  exact ⟨s, hs, hlive, (batches_of_run refusedOnce hs hlive).1⟩

/-- Two carriers come, the first of them once more though it was closed, and then a message is
written. -/
def closedBefore : List (Move Probe) :=
  [.make "s" (.polling {}) (fun _ => .done) none true false,
    .register 0 { name := "a" }, .step, .register 0 { name := "b" }, .again 0 0,
    .call (.write 0 "m" fun _ => .done), .step, .step, .register 0 { name := "c" }]

/-- The body of a response is dropped, and a message is written before that is noticed. -/
def bodyGone : List (Move ResponseStream) :=
  [.make "s" (.polling {}) (fun _ => .done) none true false,
    .register 0 { framing := .events 131072 }, .step,
    .stir 0 0 (ResponseStream.send ['o'] { framing := .events 131072 }).1.drop,
    .call (.write 0 "m" fun _ => .done), .step, .step, .register 0 { framing := .poll }]

/-- These moves lose a message of session 0: it was written, the one batch that it was in was
refused, and it is not in the queue; carrier `n` is attached, and was handed nothing. -/
structure Loses (ms : List (Move C)) (n : Nat) (message : String) (s : Session C) : Prop where
  here : (({} : World C).after ms).sessions[0]? = some s
  phase : s.phase = .live
  attached : s.attached = some n
  outbound : s.outbound = []
  batches : s.batches = [([message], .refused)]
  wrote : written (turns 0 {} ms) = [message]
  lost : s.accepted ++ s.outbound ≠ written (turns 0 {} ms)

theorem exists_loses {ms : List (Move C)} {n : Nat} {message : String}
    (h : ((({} : World C).after ms).sessions[0]?).map
      (fun s => (s.phase, s.attached, s.outbound)) = some (.live, some n, []))
    (hb : ((({} : World C).after ms).sessions[0]?).map Session.batches =
      some [([message], .refused)])
    (hw : written (turns 0 {} ms) = [message]) : ∃ s, Loses ms n message s := by
  obtain ⟨s, hs, he⟩ := Option.map_eq_some_iff.mp h
  simp only [Prod.mk.injEq] at he
  obtain ⟨hp, ha, ho⟩ := he
  rw [hs, Option.map_some, Option.some.injEq] at hb
  refine ⟨s, hs, hp, ha, ho, hb, hw, ?_⟩
  rw [accepted, hb, ho, hw]
  simp

/-- A batch can be lost, to a carrier that ended before it took anything, to one that was closed
before it came, and to a response whose body is gone. -/
theorem exists_batch_lost :
    (∃ s, Loses refusedOnce 2 "m" s) ∧ (∃ s, Loses closedBefore 2 "m" s) ∧
      ∃ s, Loses bodyGone 1 "m" s :=
  ⟨exists_loses (by decide +kernel) (by decide +kernel) (by decide +kernel),
    exists_loses (by decide +kernel) (by decide +kernel) (by decide +kernel),
    exists_loses (by decide +kernel) (by decide +kernel) (by decide +kernel)⟩

end World

end Duplex
