/-
Duplex/Proofs/World/Stack.lean

What a move puts on the tasks of a world.

Three things get onto the stack (`Puts`, `puts_move`): programs to run and
sessions to close; above these a `drain`, when a session is asked for messages;
and all that it takes to give out one message, which is what a `drain` comes to
that finds one.  So a `drain` is put there by a deed that wakes a session, or
it was there before.
-/
import Duplex.Proofs.World.Ending

namespace Duplex

variable {C : Type}

/-- The task neither gives out messages nor ends what is under way. -/
def Task.isPlain : Task → Bool
  | .act _ | .close _ => true
  | .drain _ | .returned .. => false

@[simp] theorem Task.isPlain_act (p : Program) : (Task.act p).isPlain = true := rfl

@[simp] theorem Task.isPlain_close (k : Nat) : (Task.close k).isPlain = true := rfl

namespace World

/-- What a move may put on top of the tasks: programs and closings, a `drain` above them when it
asks for messages, or all that it takes to give out a message. -/
inductive Puts (w : World C) (m : Move C) : List Task → Prop
  | plain {front : List Task} : (∀ t ∈ front, t.isPlain = true) → Puts w m front
  | asks {k : Nat} {d : Session.Deed C} {front : List Task} :
      m.deed? w.tasks = some (k, d) → d.wakes = true → (∀ t ∈ front, t.isPlain = true) →
      Puts w m (.drain k :: front)
  | gives {k : Nat} {p : Program} {message : String} {rest : List Task} :
      m = .step → w.tasks = .drain k :: rest → Puts w m [.act p, .returned k message, .drain k]

namespace Puts

variable {w : World C} {m : Move C}

theorem none : Puts w m [] := .plain (by simp)

theorem one {t : Task} (ht : t.isPlain = true) : Puts w m [t] := .plain (by simpa using ht)

theorem two {t t' : Task} (ht : t.isPlain = true) (ht' : t'.isPlain = true) : Puts w m [t, t'] :=
  .plain (by simp [ht, ht'])

end Puts

variable [Carrier C]

omit [Carrier C] in
/-- What a task leaves to do when a step is made. -/
theorem puts_of_task {w : World C} {t : Task} {rest ts : List Task} (ht : w.tasks = t :: rest)
    (h : t.Leaves w ts) : Puts w .step ts := by
  cases h with
  | none => exact .none
  | gives => exact .gives rfl ht
  | farewell => exact .one rfl
  | act leaves =>
    cases leaves with
    | done => exact .none
    | rest => exact .one rfl
    | close => exact .two rfl rfl
    | farewell => exact .two rfl rfl
    -- an action that asks for messages is a deed that wakes the session
    | @drain k p q left wakes =>
      obtain ⟨d, hd, hwakes⟩ := Program.deed?_of_wakes (C := C) wakes
      have hdeed : Move.deed? w.tasks .step = some (k, d) := by
        rw [ht]
        exact hd
      exact .asks hdeed hwakes (by simp)

/-- **What a move puts on the tasks**, above those that were there. -/
theorem puts_move (w : World C) (m : Move C) :
    ∃ front, Puts w m front ∧ (w.move m).tasks = front ++ m.rest w.tasks := by
  obtain ⟨ts, hleaves, hts⟩ := leaves_move w m
  refine ⟨ts, ?_, hts⟩
  cases hleaves with
  | none => exact .none
  | task top leaves => exact puts_of_task top leaves
  | call => exact .one rfl
  | opens => exact .one rfl
  | wakes deed wakes => exact .asks deed wakes (by simp)
  | asks => exact .one rfl
  | general =>
    refine .plain fun t ht => ?_
    obtain ⟨e, -, rfl⟩ := List.mem_map.mp ht
    rfl

/-- **A `drain` that waits after a move waited before**, above the same tasks, or the move is a
deed that wakes its session and put it on top. -/
theorem drain_move {w : World C} {m : Move C} {k : Nat} {above below : List Task}
    (h : (w.move m).tasks = above ++ .drain k :: below) :
    (∃ above', w.tasks = above' ++ .drain k :: below) ∨
    above = [] ∧ ∃ d front, m.deed? w.tasks = some (k, d) ∧ d.wakes = true ∧
      (∀ t ∈ front, t.isPlain = true) ∧ below = front ++ m.rest w.tasks := by
  obtain ⟨front, hp, ht⟩ := puts_move w m
  obtain ⟨top, htop⟩ := m.suffix_rest w.tasks
  rw [ht] at h
  rcases List.append_eq_append_iff.mp h with ⟨above', -, hrest⟩ | ⟨front', hfront, hbelow⟩
  · exact .inl ⟨top ++ above', by rw [← htop, hrest, List.append_assoc]⟩
  rcases front' with - | ⟨t, front'⟩
  · exact .inl ⟨top, by rw [← htop, hbelow, List.nil_append]⟩
  -- the move put it there
  obtain ⟨rfl, hunder⟩ := List.cons.inj hbelow
  have hmem : .drain k ∈ front := hfront ▸ List.mem_append_right _ List.mem_cons_self
  cases hp with
  | plain hplain => cases hplain _ hmem
  | @asks j d front hd hw hplain =>
    rcases above with - | ⟨t, above⟩
    · obtain ⟨hj, rfl⟩ := List.cons.inj hfront
      obtain rfl := Task.drain.inj hj
      exact .inr ⟨rfl, d, front, hd, hw, hplain, hunder⟩
    · obtain ⟨-, rfl⟩ := List.cons.inj hfront
      cases hplain (.drain k) (List.mem_append_right _ List.mem_cons_self)
  -- the one that gives out a message leaves one for the next message in its place
  | @gives j p message rest hm htasks =>
    obtain ⟨rfl, rfl, rfl⟩ : above = [.act p, .returned j message] ∧ k = j ∧ front' = [] := by
      simpa [List.cons_eq_append_iff] using hfront
    subst hm
    exact .inl ⟨[], by rw [htasks, hunder, htasks]; rfl⟩

end World

end Duplex
