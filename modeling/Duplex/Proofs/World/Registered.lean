/-
Duplex/Proofs/World/Registered.lean

The registry: which sessions are entered, and until when.

A session is entered when it is made, under the number that it gets, and its
entry goes when it closes.  `registry_move` says that nothing else changes the
registry.  Since a number is not given out twice, a closed session is never
entered again (`not_entered_of_closed`).
-/
import Duplex.Proofs.Session.Closed

namespace Duplex.World

open Session

variable {C : Type}

/-! ### The registry along one move -/

@[simp] theorem registry_actIf (w : World C) (p : Option Program) :
    (w.actIf p).registry = w.registry := by
  cases p <;> rfl

@[simp] theorem registry_receive (w : World C) (k : Nat) (messages : Option (List String)) :
    (w.receive k messages).registry = w.registry := by
  cases messages <;> rfl

theorem registry_drain (w : World C) (k : Nat) : (w.drain k).registry = w.registry := by
  unfold drain
  split
  · rfl
  · rfl

variable [Carrier C]

theorem registry_attach (w : World C) (k n : Nat) : (w.attach k n).registry = w.registry := by
  obtain ⟨_, _, _, h⟩ := attach_frame w k n
  rw [h]

theorem registry_register (w : World C) (k : Nat) (c : C) :
    (w.register k c).registry = w.registry := by
  obtain ⟨_, _, _, h⟩ := register_frame w k c
  rw [h]

/-- An open session that something keeps closes: this is all that it does to the world. -/
theorem close_of_live {w : World C} {k : Nat} {s : Session C} (hl : w.live? k = some s)
    (hp : s.phase ≠ .closed) :
    w.close k =
      ((w.modify k fun _ => (s.depart w.now).1).unregister k).actIf (s.depart w.now).2 := by
  simp [close, hl, hp]

/-- A closed session is left alone, and so is one that nothing keeps. -/
theorem close_of_closed {w : World C} {k : Nat} {s : Session C} (hs : w.sessions[k]? = some s)
    (hp : s.phase = .closed) : w.close k = w := by
  rcases live?_cases hs with hl | hl
  · simp [close, hl]
  · simp [close, hl, hp]

theorem registry_close (w : World C) (k : Nat) :
    (w.close k).registry = w.registry ∨
      (w.close k).registry = w.registry.filter (·.2 != k) := by
  rcases hl : w.live? k with - | s
  · exact .inl (by simp [close, hl])
  · by_cases hp : s.phase = .closed
    · exact .inl (by simp [close, hl, hp])
    · rw [close_of_live hl hp, registry_actIf]
      exact .inr rfl

theorem registry_perform (w : World C) (p : Program) : (w.perform p).registry = w.registry := by
  obtain ⟨_, _, h⟩ := perform_frame w p
  rw [h]

theorem registry_step (w : World C) :
    w.step.registry = w.registry ∨
      ∃ k rest, w.tasks = .close k :: rest ∧
        w.step.registry = w.registry.filter (·.2 != k) := by
  rcases ht : w.tasks with - | ⟨t, rest⟩
  · exact .inl (by simp [step, ht])
  · simp only [step, ht]
    cases t with
    | act p => exact .inl (registry_perform { w with tasks := rest } p)
    | drain k => exact .inl (registry_drain { w with tasks := rest } k)
    | returned k message => exact .inl rfl
    | close k =>
      rcases registry_close { w with tasks := rest } k with h | h
      · exact .inl h
      · exact .inr ⟨k, rest, rfl, h⟩

/-- **A move leaves the registry as it is**, or a session is made and entered under a name that is
not taken, or the entry of one goes that is told to close. -/
theorem registry_move (w : World C) (m : Move C) :
    (w.move m).registry = w.registry ∨
    (∃ id timing onOpen peer held, m = .make id timing onOpen peer held true ∧
      w.find? id = none ∧ (w.move m).registry = w.registry ++ [(id, w.sessions.length)] ∧
      (w.move m).sessions = w.sessions ++ [({ id, timing, onOpen, peer, held } : Session C)]) ∨
    ∃ k rest, m = .step ∧ w.tasks = .close k :: rest ∧
      (w.move m).registry = w.registry.filter (·.2 != k) := by
  cases m with
  | step =>
    rcases registry_step w with h | ⟨k, rest, ht, h⟩
    · exact .inl h
    · exact .inr (.inr ⟨k, rest, rfl, ht, h⟩)
  | make id timing onOpen peer held entered =>
    cases entered with
    -- a session that is not entered leaves the registry as it is
    | false => exact .inl rfl
    | true =>
      -- an entry is made for a name that has none
      rcases hf : w.find? id with - | k
      · refine .inr (.inl ⟨id, timing, onOpen, peer, held, rfl, hf, ?_, ?_⟩)
        · simp [move, ensure, hf]
        · simp [move, ensure, hf, add]
      · exact .inl (by simp [move, ensure, hf])
  -- no other move has to do with the registry
  | register k carrier => exact .inl (registry_register w k carrier)
  | again k n =>
    simp only [move]
    split
    · exact .inl rfl
    · split
      · exact .inl (registry_attach w k n)
      · exact .inl rfl
  | lose k n =>
    simp only [move]
    split
    · exact .inl rfl
    · split
      · exact .inl rfl
      · exact .inl rfl
  | feed k payload =>
    simp only [move]
    split
    · exact .inl rfl
    · exact .inl (registry_receive w k _)
  | elapse k =>
    simp only [move, elapse]
    split
    · exact .inl rfl
    · exact .inl rfl
  | next | pass | call | hold | introduce | stir | close | closeAll | shutdown | forget =>
    exact .inl rfl

/-! ### Runs -/

omit [Carrier C] in
/-- Sessions close by the tasks made for it. -/
theorem close_of_depart {w : World C} {m : Move C} {k : Nat}
    (hm : m.deed? w.tasks = some (k, .depart)) :
    m = .step ∧ ∃ rest, w.tasks = .close k :: rest := by
  obtain ⟨rfl, t, rest, htasks, ht⟩ := Move.step_of_isTask hm rfl
  cases t with
  | close j =>
    cases ht
    exact ⟨rfl, rest, htasks⟩
  | act p =>
    cases p with
    | feed j payload next =>
      obtain ⟨messages, -, he⟩ := Option.map_eq_some_iff.mp ht
      cases he
    | _ => cases ht
  | returned | drain => cases ht

/-- **A session closes by a task made for it**, and this is what that does to the world. -/
theorem move_of_closing {w : World C} {m : Move C} {k : Nat} {t : Turn C} (ht : t ∈ turnOf k w m)
    (hp : t.before.phase ≠ .closed) (hp' : t.after.phase = .closed) :
    m = .step ∧ ∃ rest, w.tasks = .close k :: rest ∧
      w.move m = ((({ w with tasks := rest } : World C).modify k fun _ => t.after).unregister
        k).actIf (t.before.depart w.now).2 := by
  obtain ⟨hs, hnow, hd⟩ := mem_turnOf.mp ht
  obtain ⟨hdeed, hc⟩ := Turn.open_of_closing hp hp'
  rw [hdeed] at hd
  obtain ⟨rfl, rest, htasks⟩ := close_of_depart hd
  have hl : ({ w with tasks := rest } : World C).live? k = some t.before :=
    live?_eq_some.mpr ⟨hs, (isClosed_eq_false.mp hc).2⟩
  refine ⟨rfl, rest, htasks, ?_⟩
  simp only [move, step, htasks]
  rw [close_of_live hl hp, Turn.after_of_closing hp hp', hnow]

/-- **A closed session is not entered any more.** -/
theorem not_entered_of_closed (ms : List (Move C)) {k : Nat} {s : Session C}
    (hs : (({} : World C).after ms).sessions[k]? = some s) (hp : s.phase = .closed) :
    ∀ e ∈ (({} : World C).after ms).registry, e.2 ≠ k := by
  induction ms using List.reverseRecOn generalizing s with
  | nil => cases hs
  | append_singleton ms m ih =>
    rw [after_append, after_cons, after_nil] at hs ⊢
    -- a session that was closed before has no entry, and a new entry is for a new number
    have kept {s₀ : Session C} (hk : (({} : World C).after ms).sessions[k]? = some s₀)
        (hp : s₀.phase = .closed) :
        ∀ e ∈ ((({} : World C).after ms).move m).registry, e.2 ≠ k := by
      intro e he
      rcases registry_move (({} : World C).after ms) m with
        h | ⟨id, _, _, _, _, -, -, h, -⟩ | ⟨_, _, _, _, h⟩
      · exact ih hk hp e (h ▸ he)
      · rw [h] at he
        rcases List.mem_append.mp he with he | he
        · exact ih hk hp e he
        · rw [List.mem_singleton.mp he]
          exact (Nat.ne_of_lt (List.getElem?_eq_some_iff.mp hk).1).symm
      · rw [h] at he
        exact ih hk hp e (List.mem_filter.mp he).1
    -- the session was there before, or it is new, and a new one is not closed
    rcases session_move hs with ⟨s₀, hk, ⟨-, rfl⟩ | ⟨d, ht, rfl⟩⟩ | ⟨-, -, hnew⟩
    · exact kept hk hp
    · by_cases hp₀ : s₀.phase = .closed
      · exact kept hk hp₀
      -- it closes with this move, which takes its entry away
      · have hmem : ⟨_, s₀, d⟩ ∈ turnOf k (({} : World C).after ms) m :=
          ht ▸ List.mem_singleton_self _
        obtain ⟨-, rest, -, hw⟩ := move_of_closing hmem hp₀ hp
        rw [hw, registry_actIf]
        intro e he
        simpa using (List.mem_filter.mp he).2
    · obtain ⟨_, _, _, _, _, rfl⟩ := hnew
      cases hp

end Duplex.World
