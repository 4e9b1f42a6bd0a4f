/-
Duplex/Proofs/Session/Nesting.lean

One message inside another.

The application is *under way* with a message from the time it is given until
its handler returns.  A world has one line of execution, so messages that are
under way together are nested: the one given last returns first.  They are the
`returned` tasks on the stack (`underWay_of_run`).

Messages are given one after the other until somebody asks a session for
messages, by letting them through, setting a handler or feeding it, while it is
under way with one.  What asks is a `drain`.  One that stands above a message
under way was put there in this way, and what is below it stays as it is until
its turn comes (`asked_of_drain`):

    drain k  ::  …  returned k message  …

So messages are given one inside another exactly in those runs in which such a
`drain` finds a message when its turn comes (`sequential_iff_of_run`).
-/
import Duplex.Proofs.Session.Inbound
import Duplex.Proofs.World.Stack
import Duplex.Rehearsal.Probe

namespace Duplex

variable {C : Type}

namespace Session

/-! ### Messages under way -/

/-- The message with which the application is through at a turn. -/
def Turn.returned? (t : Turn C) : Option String :=
  match t.deed with
  | .finishMessage message => some message
  | _ => none

/-- The messages under way after a turn; nothing when one returns that was not given last. -/
def Turn.goOn (going : Option (List String)) (t : Turn C) : Option (List String) :=
  match t.given?, t.returned? with
  | some (message, _), _ => going.map (message :: ·)
  | none, some message =>
    going.bind fun messages => if messages.head? = some message then some messages.tail else none
  | none, none => going

/-- The messages under way after these turns, the one given last first. -/
def underWay? (ts : List (Turn C)) : Option (List String) := ts.foldl Turn.goOn (some [])

theorem underWay?_append (ts ts' : List (Turn C)) :
    underWay? (ts ++ ts') = ts'.foldl Turn.goOn (underWay? ts) := List.foldl_append

variable {t : Turn C}

/-- A message is given when the session is ready, and by no other deed. -/
theorem Turn.given?_ne_none : t.given? ≠ none ↔ t.deed = .deliver ∧ t.before.Ready := by
  obtain ⟨now, s, d⟩ := t
  constructor
  · intro h
    obtain ⟨⟨message, p⟩, hg⟩ := Option.ne_none_iff_exists'.mp h
    cases d with
    | deliver =>
      rcases hgone : s.gone with - | -
      · simp only [Turn.given?, hgone, Bool.false_eq_true, if_false] at hg
        obtain ⟨⟨message', p', s'⟩, hm, -⟩ := Option.map_eq_some_iff.mp hg
        obtain ⟨hp, hc, n, handler, rest, hh, hi, -⟩ := deliver?_eq_some.mp hm
        exact ⟨rfl, isClosed_eq_false.mpr ⟨hc, hgone⟩, hp, by simp [hh], by simp [hi]⟩
      · simp [Turn.given?, hgone] at hg
    | _ => cases hg
  · rintro ⟨hd, hr⟩
    obtain rfl : d = .deliver := hd
    obtain ⟨message, p, s', hm⟩ := hr.deliver? now
    have hgone : s.gone = false := (isClosed_eq_false.mp hr.1).2
    simp [Turn.given?, hgone, hm]

theorem Turn.goOn_of_quiet (hd : t.deed ≠ .deliver)
    (hf : ∀ message, t.deed ≠ .finishMessage message) (going : Option (List String)) :
    t.goOn going = going := by
  have hg : t.given? = none := by
    by_contra h
    exact hd (Turn.given?_ne_none.mp h).1
  have hr : t.returned? = none := by
    unfold Turn.returned?
    split
    · rename_i message h
      exact absurd h (hf message)
    · rfl
  rw [Turn.goOn, hg, hr]

end Session

open Session

/-- The message of session `k` that is under way until the task is done. -/
def Task.returns? (k : Nat) : Task → Option String
  | .returned j message => if j = k then some message else none
  | _ => none

/-- The messages of session `k` that are under way while these tasks wait. -/
def returning (k : Nat) (tasks : List Task) : List String := tasks.filterMap (Task.returns? k)

theorem returning_append (k : Nat) (tasks tasks' : List Task) :
    returning k (tasks ++ tasks') = returning k tasks ++ returning k tasks' :=
  List.filterMap_append

@[simp] theorem returning_act (k : Nat) (p : Program) (tasks : List Task) :
    returning k (.act p :: tasks) = returning k tasks := rfl

@[simp] theorem returning_drain (k j : Nat) (tasks : List Task) :
    returning k (.drain j :: tasks) = returning k tasks := rfl

@[simp] theorem returning_returned (k : Nat) (message : String) (tasks : List Task) :
    returning k (.returned k message :: tasks) = message :: returning k tasks :=
  List.filterMap_cons_some (if_pos rfl)

theorem returning_returned_of_ne {k j : Nat} (hj : j ≠ k) (message : String)
    (tasks : List Task) : returning k (.returned j message :: tasks) = returning k tasks :=
  List.filterMap_cons_none (if_neg hj)

theorem returning_of_plain {tasks : List Task} (h : ∀ t ∈ tasks, t.isPlain = true) (k : Nat) :
    returning k tasks = [] := by
  apply List.filterMap_eq_nil_iff.mpr
  intro t ht
  cases t with
  | returned j message => cases h _ ht
  | _ => rfl

namespace World

variable [Carrier C] {w : World C} {m : Move C} {k : Nat}

omit [Carrier C] in
/-- A message is returned by the task made for it. -/
theorem returned_of_finishMessage {message : String}
    (hm : m.deed? w.tasks = some (k, .finishMessage message)) :
    m = .step ∧ ∃ rest, w.tasks = .returned k message :: rest := by
  obtain ⟨rfl, t, rest, htasks, ht⟩ := Move.step_of_isTask hm rfl
  cases t with
  | returned j message' =>
    cases ht
    exact ⟨rfl, rest, htasks⟩
  | act p =>
    cases p with
    | feed j payload next =>
      obtain ⟨messages, -, he⟩ := Option.map_eq_some_iff.mp ht
      cases he
    | _ => cases ht
  | drain | close => cases ht

/-! ### One move -/

/-- The move gives out a message of session `k`, or returns one. -/
def Handles (k : Nat) (w : World C) (m : Move C) : Prop :=
  m = .step ∧ ∃ rest, w.tasks = .drain k :: rest ∨ ∃ message, w.tasks = .returned k message :: rest

omit [Carrier C] in
theorem returning_rest (h : ¬ w.Handles k m) :
    returning k (m.rest w.tasks) = returning k w.tasks := by
  cases m with
  | step =>
    rcases ht : w.tasks with - | ⟨t, rest⟩
    · simp [Move.rest]
    · cases t with
      | returned j message =>
        have hj : j ≠ k := by
          rintro rfl
          exact h ⟨rfl, rest, .inr ⟨message, ht⟩⟩
        exact (returning_returned_of_ne hj message rest).symm
      | _ => rfl
  | _ => rfl

/-- Any other move leaves the messages under way as they are. -/
theorem returning_of_not_handles (h : ¬ w.Handles k m) :
    returning k (w.move m).tasks = returning k w.tasks := by
  obtain ⟨front, hp, ht⟩ := puts_move w m
  have hfront : returning k front = [] := by
    cases hp with
    | plain hplain => exact returning_of_plain hplain k
    | asks _ _ hplain => exact returning_of_plain hplain k
    | @gives j _ _ rest hm htasks =>
      have hj : j ≠ k := by
        rintro rfl
        exact h ⟨hm, rest, .inl htasks⟩
      exact returning_returned_of_ne hj _ _
  rw [ht, returning_append, hfront, List.nil_append, returning_rest h]

omit [Carrier C] in
theorem not_handles_of_wakes {d : Deed C} (hm : m.deed? w.tasks = some (k, d))
    (hw : d.wakes = true) : ¬ w.Handles k m := by
  rintro ⟨rfl, rest, htasks | ⟨message, htasks⟩⟩
  · rw [htasks] at hm
    cases hm
    cases hw
  · rw [htasks] at hm
    cases hm
    cases hw

omit [Carrier C] in
theorem goOn_of_not_handles (h : ¬ w.Handles k m) (going : Option (List String)) :
    (turnOf k w m).foldl Turn.goOn going = going := by
  rcases hturn : turnOf k w m with - | ⟨t, ts⟩
  · rfl
  have ht : t ∈ turnOf k w m := hturn ▸ List.mem_cons_self
  obtain ⟨-, -, hd⟩ := mem_turnOf.mp ht
  rw [← hturn, turnOf_eq_of_mem ht]
  apply Turn.goOn_of_quiet
  · intro hdeed
    obtain ⟨hm, rest, htasks⟩ := drain_of_deliver (hdeed ▸ hd)
    exact h ⟨hm, rest, .inl htasks⟩
  · intro message hdeed
    obtain ⟨hm, rest, htasks⟩ := returned_of_finishMessage (hdeed ▸ hd)
    exact h ⟨hm, rest, .inr ⟨message, htasks⟩⟩

/-- A `drain` gives out a message of a ready session, and does nothing otherwise. -/
theorem returning_step_drain {rest : List Task} (htasks : w.tasks = .drain k :: rest) :
    (turnOf k w .step).foldl Turn.goOn (some (returning k w.tasks)) =
      some (returning k (w.move .step).tasks) := by
  rcases hs : w.sessions[k]? with - | s
  -- there is no such session: the task is dropped
  · have hturn : turnOf k w .step = [] := by simp [turnOf, hs]
    have hrest : (w.move .step).tasks = rest := by simp [move, step, htasks, drain, live?, hs]
    rw [hturn, hrest, htasks]
    rfl
  have hd : Move.deed? w.tasks .step = some (k, (.deliver : Deed C)) := by
    rw [htasks]
    rfl
  have hturn : turnOf k w .step = [⟨w.now, s, .deliver⟩] :=
    turnOf_eq_of_mem (mem_turnOf.mpr ⟨hs, rfl, hd⟩)
  rw [hturn, List.foldl_cons, List.foldl_nil]
  by_cases hr : s.Ready
  -- it gives out a message, whose handler runs before the task goes on
  · obtain ⟨message, p, s', hm⟩ := hr.deliver? w.now
    have hg : s.gone = false := (isClosed_eq_false.mp hr.1).2
    have hgiven : Turn.given? ⟨w.now, s, .deliver⟩ = some (message, p) := by
      simp [Turn.given?, hg, hm]
    rw [tasks_of_given (live?_eq_some.mpr ⟨hs, hg⟩) hd hm, Turn.goOn, hgiven, htasks]
    simp
  -- it has nothing to give, and the task is over
  · have hgiven : Turn.given? ⟨w.now, s, .deliver⟩ = none := by
      by_contra h
      exact hr (Turn.given?_ne_none.mp h).2
    have hnone : (w.live? k).bind (·.deliver? w.now) = none := by
      rcases hl : w.live? k with - | s'
      · rfl
      · obtain ⟨hs', hg⟩ := live?_eq_some.mp hl
        obtain rfl := Option.some.inj (hs.symm.trans hs')
        simpa [Turn.given?, hg] using hgiven
    have hrest : (w.move .step).tasks = rest := by
      show w.step.tasks = rest
      simp only [step, htasks, drain]
      rw [show (({ w with tasks := rest } : World C).live? k).bind (·.deliver? w.now) = none
        from hnone]
    rw [hrest, Turn.goOn, hgiven, htasks]
    rfl

/-- **A move changes the messages under way as its turn says.** -/
theorem returning_move (hk : returning k w.tasks ≠ [] → ∃ s, w.sessions[k]? = some s) :
    (turnOf k w m).foldl Turn.goOn (some (returning k w.tasks)) =
      some (returning k (w.move m).tasks) := by
  by_cases h : w.Handles k m
  · obtain ⟨rfl, rest, htasks | ⟨message, htasks⟩⟩ := h
    · exact returning_step_drain htasks
    -- the message on top is the one that was given last
    · have htop : returning k w.tasks = message :: returning k rest := by
        rw [htasks, returning_returned]
      obtain ⟨s, hs⟩ := hk (by simp [htop])
      have hd : Move.deed? w.tasks .step = some (k, (.finishMessage message : Deed C)) := by
        rw [htasks]
        rfl
      have hrest : (w.move .step).tasks = rest := by simp [move, step, htasks, record, modify]
      have hturn : turnOf k w .step = [⟨w.now, s, .finishMessage message⟩] :=
        turnOf_eq_of_mem (mem_turnOf.mpr ⟨hs, rfl, hd⟩)
      rw [hturn, htop, hrest]
      simp [Turn.goOn, Turn.given?, Turn.returned?]
  · rw [goOn_of_not_handles h, returning_of_not_handles h]

/-! ### Runs -/

/-- **Messages are under way one inside another**, and they are those that the tasks return. -/
theorem underWay_of_run (ms : List (Move C)) (k : Nat) :
    underWay? (turns k {} ms) = some (returning k (({} : World C).after ms).tasks) := by
  suffices h : underWay? (turns k {} ms) = some (returning k (({} : World C).after ms).tasks) ∧
      (returning k (({} : World C).after ms).tasks ≠ [] →
        ∃ s, (({} : World C).after ms).sessions[k]? = some s) from h.1
  induction ms using List.reverseRecOn with
  | nil => exact ⟨rfl, fun h => absurd rfl h⟩
  | append_singleton ms m ih =>
    obtain ⟨hgoing, hthere⟩ := ih
    have hmove := returning_move (m := m) hthere
    rw [after_append, after_cons, after_nil, turns_concat, underWay?_append, hgoing]
    refine ⟨hmove, fun hne => ?_⟩
    rcases hs : ((({} : World C).after ms).move m).sessions[k]? with - | s
    -- a session that is not there has no turn, so nothing of it was under way before
    · obtain ⟨hs', hturn⟩ := session_of_move hs
      rw [hturn, List.foldl_nil] at hmove
      rw [← Option.some.inj hmove] at hne
      obtain ⟨s, hs''⟩ := hthere hne
      cases hs'.symm.trans hs''
    · exact ⟨s, rfl⟩

/-- A `drain` above a message under way was put there by a deed that wakes the session while that
message was under way. -/
theorem asked_of_drain (ms : List (Move C)) {k : Nat} {above below : List Task}
    (htasks : (({} : World C).after ms).tasks = above ++ .drain k :: below)
    (hgoing : returning k below ≠ []) :
    ∃ pre m mid d, ms = pre ++ m :: mid ∧
      m.deed? (({} : World C).after pre).tasks = some (k, d) ∧ d.wakes = true ∧
      underWay? (turns k {} pre) ≠ some [] ∧
      (({} : World C).after (pre ++ [m])).tasks = .drain k :: below := by
  induction ms using List.reverseRecOn generalizing above with
  | nil => simp at htasks
  | append_singleton ms m ih =>
    rw [after_append, after_cons, after_nil] at htasks
    rcases drain_move htasks with ⟨above', hold⟩ | ⟨rfl, d, front, hd, hw, hplain, hbelow⟩
    -- the task was there before the move
    · obtain ⟨pre, m', mid, d, rfl, hasked⟩ := ih hold
      exact ⟨pre, m', mid ++ [m], d, by simp, hasked⟩
    -- the message was under way before the move, since what is put above it is plain
    · refine ⟨ms, m, [], d, rfl, hd, hw, ?_, ?_⟩
      · obtain ⟨top, htop⟩ := m.suffix_rest (({} : World C).after ms).tasks
        rw [hbelow, returning_append, returning_of_plain hplain, List.nil_append] at hgoing
        rw [underWay_of_run, ← htop, returning_append]
        intro h
        exact hgoing (List.append_eq_nil_iff.mp (Option.some.inj h)).2
      · rw [after_append, after_cons, after_nil]
        exact htasks

/-! ### One after the other -/

/-- A message of session `k` is only given when none is under way. -/
def Sequential (k : Nat) (ms : List (Move C)) : Prop :=
  ∀ pre m post, ms = pre ++ m :: post → ∀ t ∈ turnOf k (({} : World C).after pre) m,
    t.given? ≠ none → underWay? (turns k {} pre) = some []

/-- After `pre`, the move `m` asks session `k` for messages while one is under way, and there is one
when after `mid` its `drain` has its turn. -/
structure FindsWithin (k : Nat) (pre : List (Move C)) (m : Move C) (mid : List (Move C)) :
    Prop where
  asks : ∃ d, m.deed? (({} : World C).after pre).tasks = some (k, d) ∧ d.wakes = true
  within : underWay? (turns k {} pre) ≠ some []
  due : ∃ below, (({} : World C).after (pre ++ [m])).tasks = .drain k :: below ∧
    (({} : World C).after (pre ++ m :: mid)).tasks = .drain k :: below
  finds : ∃ s, (({} : World C).after (pre ++ m :: mid)).sessions[k]? = some s ∧ s.Ready

/-- A message is given inside another one only to whom asks for it there. -/
theorem finds_of_given {pre : List (Move C)} {m : Move C} {k : Nat} {t : Turn C}
    (ht : t ∈ turnOf k (({} : World C).after pre) m) (hg : t.given? ≠ none)
    (hw : underWay? (turns k {} pre) ≠ some []) :
    m = .step ∧ ∃ pre' m' mid, pre = pre' ++ m' :: mid ∧ FindsWithin k pre' m' mid := by
  obtain ⟨hs, -, hd⟩ := mem_turnOf.mp ht
  obtain ⟨hdeed, hr⟩ := Turn.given?_ne_none.mp hg
  obtain ⟨rfl, below, htasks⟩ := drain_of_deliver (hdeed ▸ hd)
  have hbelow : returning k below ≠ [] := by
    intro h
    rw [underWay_of_run, htasks, returning_drain, h] at hw
    exact hw rfl
  obtain ⟨pre', m', mid, d, rfl, hasks, hwakes, hwithin, hdue⟩ :=
    asked_of_drain pre (show _ = [] ++ .drain k :: below from htasks) hbelow
  exact ⟨rfl, pre', m', mid, rfl, ⟨d, hasks, hwakes⟩, hwithin, ⟨below, hdue, htasks⟩, _, hs, hr⟩

/-- Whoever asks inside a message is given the next one there, if there is one. -/
theorem FindsWithin.given {pre : List (Move C)} {m : Move C} {mid : List (Move C)} {k : Nat}
    (h : FindsWithin k pre m mid) :
    underWay? (turns k {} (pre ++ m :: mid)) ≠ some [] ∧
      ∃ t ∈ turnOf k (({} : World C).after (pre ++ m :: mid)) .step, t.given? ≠ none := by
  obtain ⟨⟨d, hd, hw⟩, hwithin, ⟨below, hput, hdue⟩, s, hs, hr⟩ := h
  constructor
  -- what was under way is still below the `drain`
  · rw [underWay_of_run] at hwithin ⊢
    have hsame := returning_of_not_handles (not_handles_of_wakes hd hw)
    rw [after_append, after_cons, after_nil] at hput
    rwa [hdue, ← hput, hsame]
  · refine ⟨⟨_, s, .deliver⟩, mem_turnOf.mpr ⟨hs, rfl, ?_⟩, Turn.given?_ne_none.mpr ⟨rfl, hr⟩⟩
    rw [hdue]
    rfl

/-- **Messages are given one after the other, or one inside another to whom asks for it there**:
the ones under way are always nested, and they are never two exactly in the runs in which nobody
who asks a session for messages while one is under way finds one. -/
theorem sequential_iff_of_run (ms : List (Move C)) (k : Nat) :
    (∃ going, underWay? (turns k {} ms) = some going) ∧
      (Sequential k ms ↔
        ¬ ∃ pre m mid post, ms = pre ++ m :: (mid ++ .step :: post) ∧ FindsWithin k pre m mid) := by
  refine ⟨⟨_, underWay_of_run ms k⟩, ?_⟩
  constructor
  · rintro h ⟨pre, m, mid, post, rfl, hfinds⟩
    obtain ⟨hwithin, t, ht, hg⟩ := hfinds.given
    exact hwithin (h (pre ++ m :: mid) .step post (by simp) t ht hg)
  · intro h pre m post hms t ht hg
    by_contra hw
    obtain ⟨rfl, pre', m', mid, rfl, hfinds⟩ := finds_of_given ht hg hw
    exact h ⟨pre', m', mid, post, by simp [hms], hfinds⟩

open Rehearsal

/-- A handler lets messages through, which nothing held back, and is about to be given the next. -/
def letThrough : List (Move Probe) :=
  [.make "s" (.polling {}) (fun k => .onMessage k (fun _ => .resume k .done) .done) none
      true false,
    .register 0 { name := "a" }, .step, .step, .step, .feed 0 "[\"a\",\"b\"]", .step, .step]

/-- Two messages can be under way together. -/
theorem exists_given_within :
    underWay? (turns 0 {} letThrough) = some ["a"] ∧
      underWay? (turns 0 {} (letThrough ++ [.step])) = some ["b", "a"] ∧
      ¬ Sequential 0 (letThrough ++ [.step]) := by
  have hbefore : underWay? (turns 0 {} letThrough) = some ["a"] := by decide +kernel
  have hafter : underWay? (turns 0 {} (letThrough ++ [.step])) = some ["b", "a"] := by
    decide +kernel
  have hgiven : (turnOf 0 (({} : World Probe).after letThrough) .step).map
      (fun t => t.given?.map (·.1)) = [some "b"] := by decide +kernel
  refine ⟨hbefore, hafter, fun h => ?_⟩
  obtain ⟨t, ht, hb⟩ := List.mem_map.mp (hgiven ▸ List.mem_singleton_self (some "b"))
  have hg : t.given? ≠ none := by
    intro hnone
    rw [hnone] at hb
    cases hb
  have hnone := h letThrough .step [] rfl t ht hg
  rw [hbefore] at hnone
  cases hnone

end World

end Duplex
