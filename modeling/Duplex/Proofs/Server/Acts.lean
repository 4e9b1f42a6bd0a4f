/-
Duplex/Proofs/Server/Acts.lean

What happens around a message socket.

A world and one link of it go through *acts*: the world moves, the client says
something or goes away, the link is looked after.  All that acts do to the world
is done by moves (`fst_after`), so what is known of runs is known of acts.  What an
act can do is said once (`Act.Does`), and every later fact about acts goes by its
cases.

Acts are *proper* (`IsProper`) if they are the ones that there are: moves of the
world are in time and leave the session of the link alone, which nobody but the
link itself can find, and the link hears and leaves between tasks.  It is looked
after at any time.
-/
import Duplex.Proofs.Server.Line
import Duplex.Proofs.World.Timely
import Duplex.Server.Basic

namespace Duplex

/-! ### What a client says -/

namespace ClientMessage

def isText : ClientMessage → Bool
  | .text _ => true
  | _ => false

/-- It is of no importance to the session. -/
def isIdle : ClientMessage → Bool
  | .text value => value.isEmpty
  | .binary => true
  | .ping data | .pong data => decide (data.length ≤ Link.maxControl)
  | .close => false

/-- Nothing is heard of a client that said it: it ends the connection or breaks its rules, or it
is a text that has not the shape of a payload, or cannot be read. -/
def isLast : ClientMessage → Bool
  | .text value =>
    !value.isEmpty && (!Payload.hasShape value || (Payload.messages? value).isNone)
  | .binary => false
  | .ping data | .pong data => !decide (data.length ≤ Link.maxControl)
  | .close => true

/-- The messages in it, if it is a text that can be read. -/
def messages : ClientMessage → List String
  | .text value => if value.isEmpty then [] else (Payload.messages? value).getD []
  | _ => []

theorem messages_of_isIdle {m : ClientMessage} (h : m.isIdle = true) : m.messages = [] := by
  cases m with
  | text => exact if_pos h
  | _ => rfl

theorem isLast_of_isIdle {m : ClientMessage} (h : m.isIdle = true) : m.isLast = false := by
  cases m with
  | text | ping | pong => simp_all [isIdle, isLast]
  | binary => rfl
  | close => cases h

end ClientMessage

/-- Something that happens around a message socket. -/
inductive Act where
  | world (m : Move Conduit)
  | hear (m : ClientMessage)
  /-- The client goes away without a word. -/
  | abandon
  /-- The link is looked after. -/
  | pump

namespace Link

/-! ### The moves of a link -/

variable (w : World Conduit) (l : Link)

/-- The moves by which a link is left. -/
def leaving : List (Move Conduit) :=
  ((l.queue? w).toList.map fun q =>
    .stir l.session l.place (.queue { q.drop with ended := true })) ++
    [.hold l.session false, .close l.session]

/-- The moves by which a link hears. -/
def hearing (m : ClientMessage) : List (Move Conduit) :=
  if !l.listens then []
  else
    match m with
    | .text value =>
      if (w.view l.session).closed || value.isEmpty then []
      else if Payload.hasShape value then [.feed l.session value]
      else [.close l.session]
    | .ping data | .pong data => if data.length ≤ maxControl then [] else l.leaving w
    | .close => l.leaving w
    | .binary => []

/-- The moves by which a link is looked after. -/
def pumping : List (Move Conduit) :=
  if !l.isOpen then []
  else
    match w.live? l.session, l.queue? w with
    | some s, some q =>
      if w.stopping && s.phase != .closed then [.close l.session]
      else if !q.waiting.isEmpty then
        [.stir l.session l.place (.queue { q with waiting := [] })]
      else if !q.writable then l.leaving w
      else []
    | _, _ => []

/-- The move is one that a link makes. -/
def IsOwn (l : Link) (m : Move Conduit) : Prop :=
  (∃ c, m = .stir l.session l.place c) ∨ m = .hold l.session false ∨ m = .close l.session

theorem isOwn_leaving : ∀ m ∈ l.leaving w, l.IsOwn m := by
  intro m hm
  rcases List.mem_append.mp hm with hm | hm
  · obtain ⟨q, -, rfl⟩ := List.mem_map.mp hm
    exact .inl ⟨_, rfl⟩
  · rcases List.mem_cons.mp hm with rfl | hm
    · exact .inr (.inl rfl)
    · exact .inr (.inr (List.mem_singleton.mp hm))

theorem isOwn_pumping : ∀ m ∈ l.pumping w, l.IsOwn m := by
  intro m hm
  rw [pumping] at hm
  split at hm
  · cases hm
  split at hm
  · split at hm
    · exact .inr (.inr (List.mem_singleton.mp hm))
    split at hm
    · exact .inl ⟨_, List.mem_singleton.mp hm⟩
    split at hm
    · exact isOwn_leaving w l m hm
    · cases hm
  · cases hm

theorem leave_eq : l.leave w = (w.after (l.leaving w), { l with isOpen := false }) := by
  unfold leave leaving
  rcases l.queue? w with - | q
  · rfl
  · rfl

theorem live?_of_view {w : World Conduit} {k : Nat} (h : (w.view k).closed = false) :
    ∃ s, w.live? k = some s ∧ s.isClosed = false := by
  unfold World.view at h
  split at h
  · rename_i s hs
    exact ⟨s, World.live?_eq_some.mpr ⟨hs, (Session.isClosed_eq_false.mp h).2⟩, h⟩
  · cases h

theorem fst_hearText (value : String) : (l.hearText w value).1 =
    w.after (if (w.view l.session).closed || value.isEmpty then []
      else if Payload.hasShape value then [.feed l.session value] else [.close l.session]) := by
  unfold hearText
  rcases hc : (w.view l.session).closed with - | -
  · rw [if_neg Bool.false_ne_true, Bool.false_or]
    split
    · rfl
    · split
      · obtain ⟨s, hl, -⟩ := live?_of_view hc
        have hfeed : w.after [.feed l.session value] = (w.feed l.session value).1 := by
          simp [World.after, World.move, hl]
        rw [hfeed]
        split
        · rename_i he
          rw [he]
        · rename_i he
          rw [he]
      · rfl
  · rfl

theorem fst_hear (m : ClientMessage) : (l.hear w m).1 = w.after (l.hearing w m) := by
  have hleave (n : WireMessage) : ((l.put n).leave w).1 = w.after (l.leaving w) := by
    rw [leave_eq]
    rfl
  unfold hear hearing
  split
  · rfl
  · cases m with
    | text value => exact fst_hearText w l value
    | binary => rfl
    | close => exact hleave .over
    | ping data | pong data =>
      simp only
      split
      · rfl
      · exact hleave .over

theorem fst_pump : ((l.pump? w).getD (w, l)).1 = w.after (l.pumping w) := by
  unfold pump? pumping
  generalize w.live? l.session = s, l.queue? w = q
  split
  · rfl
  · rcases s with - | s
    · rfl
    rcases q with - | q
    · rfl
    simp only
    split
    · rfl
    · split
      · rfl
      · split
        · rw [leave_eq]
          rfl
        · rfl

end Link

/-- A world with one message socket of it. -/
abbrev Talk := World Conduit × Link

namespace Talk

/-- What becomes of both with an act. -/
def act (c : Talk) : Act → Talk
  | .world m => (c.1.move m, c.2)
  | .hear m => if c.2.isOpen then c.2.hear c.1 m else c
  | .abandon => if c.2.isOpen then c.2.leave c.1 else c
  | .pump => (c.2.pump? c.1).getD c

/-- What becomes of both with these acts. -/
def after (c : Talk) (acts : List Act) : Talk := acts.foldl act c

/-- The moves of the world by which an act is done. -/
def movesOf (c : Talk) : Act → List (Move Conduit)
  | .world m => [m]
  | .hear m => if c.2.isOpen then c.2.hearing c.1 m else []
  | .abandon => if c.2.isOpen then c.2.leaving c.1 else []
  | .pump => c.2.pumping c.1

/-- The moves of the world by which these acts are done. -/
def moves : Talk → List Act → List (Move Conduit)
  | _, [] => []
  | c, a :: acts => c.movesOf a ++ (c.act a).moves acts

theorem fst_act (c : Talk) (a : Act) : (c.act a).1 = c.1.after (c.movesOf a) := by
  cases a with
  | world m => rfl
  | hear m =>
    simp only [act, movesOf]
    split
    · exact Link.fst_hear c.1 c.2 m
    · rfl
  | abandon =>
    simp only [act, movesOf]
    split
    · rw [Link.leave_eq]
    · rfl
  | pump => exact Link.fst_pump c.1 c.2

/-- **Acts are done by moves.** -/
theorem fst_after (c : Talk) (acts : List Act) : (c.after acts).1 = c.1.after (c.moves acts) := by
  induction acts generalizing c with
  | nil => rfl
  | cons a acts ih =>
    rw [moves, World.after_append, ← fst_act]
    exact ih (c.act a)

theorem run_after {c : Talk} {ms : List (Move Conduit)}
    (hrun : c.1 = ({} : World Conduit).after ms) (acts : List Act) :
    (c.after acts).1 = ({} : World Conduit).after (ms ++ c.moves acts) := by
  rw [fst_after, hrun, World.after_append]

theorem after_concat (c : Talk) (acts : List Act) (a : Act) :
    c.after (acts ++ [a]) = (c.after acts).act a := List.foldl_append

theorem act_of_left {c : Talk} (ho : c.2.isOpen = false) {a : Act} (ha : ∀ m, a ≠ .world m) :
    c.act a = c := by
  cases a with
  | world m => exact absurd rfl (ha m)
  | hear | abandon => simp [act, ho]
  | pump => simp [act, Link.pump?, ho]

end Talk

/-! ### What an act does -/

/-- Nothing that a client says is heard any more. -/
def Link.IsDeaf (l : Link) : Prop := l.isOpen = false ∨ l.listens = false

/-- An act, the moves of the world by which it is done, and the link after it. -/
inductive Act.Does (w : World Conduit) (l : Link) : Act → List (Move Conduit) → Link → Prop
  | world (m : Move Conduit) : Does w l (.world m) [m] l
  | deaf (m : ClientMessage) (deaf : l.IsDeaf) : Does w l (.hear m) [] l
  | idle {m : ClientMessage} (listens : l.listens = true) (idle : m.isIdle = true) :
    Does w l (.hear m) [] l
  | answers (data : Text.Bytes) (fits : data.length ≤ Link.maxControl) :
    Does w l (.hear (.ping data)) [] (l.put (.pong data))
  /-- A text comes to a session that is closed already. -/
  | late (value : String) (closed : (w.view l.session).closed = true) :
    Does w l (.hear (.text value)) [] l.deafen
  | takes (value : String) (full : value.isEmpty = false)
    (shaped : Payload.hasShape value = true) (messages : List String)
    (read : Payload.messages? value = some messages) :
    Does w l (.hear (.text value)) [.feed l.session value] l
  /-- A text that cannot be read is found out by the session. -/
  | refuses (value : String) (full : value.isEmpty = false)
    (opened : (w.view l.session).closed = false) (shaped : Payload.hasShape value = true)
    (unread : Payload.messages? value = none) :
    Does w l (.hear (.text value)) [.feed l.session value] l.deafen
  /-- A text without the shape of a payload never reaches the session. -/
  | rejects (value : String) (full : value.isEmpty = false)
    (misshapen : Payload.hasShape value = false) :
    Does w l (.hear (.text value)) [.close l.session] l.deafen
  | ends {m : ClientMessage} (hears : ¬ l.IsDeaf) (last : m.isLast = true)
    (noText : m.isText = false) :
    Does w l (.hear m) (l.leaving w) { l.put .over with isOpen := false }
  | gone (left : l.isOpen = false) : Does w l .abandon [] l
  | abandons (isOpen : l.isOpen = true) :
    Does w l .abandon (l.leaving w) { l with isOpen := false }
  | rests (rest : l.pump? w = none) : Does w l .pump [] l
  | stops (stopping : w.stopping = true) : Does w l .pump [.close l.session] l
  | flushes (q : MessageQueue) (queue : l.queue? w = some q) :
    Does w l .pump [.stir l.session l.place (.queue { q with waiting := [] })]
      (l.flushed q.waiting)
  | dismisses (q : MessageQueue) (queue : l.queue? w = some q) (waiting : q.waiting = [])
    (writable : q.writable = false) :
    Does w l .pump (l.leaving w) { (l.put .close).put .over with isOpen := false }

namespace Talk

variable {c : Talk}

/-- What is said to a deaf link has no effect at all. -/
theorem hear_of_deaf (h : c.2.IsDeaf) (m : ClientMessage) : c.act (.hear m) = c := by
  simp only [act]
  split
  · rename_i ho
    rcases h with h | h
    · cases h.symm.trans ho
    · simp [Link.hear, h]
  · rfl

theorem movesOf_of_deaf (h : c.2.IsDeaf) (m : ClientMessage) : c.movesOf (.hear m) = [] := by
  rw [movesOf]
  split
  · rename_i ho
    rcases h with h | h
    · cases h.symm.trans ho
    · simp [Link.hearing, h]
  · rfl

/-- What a link does that hears something. -/
theorem does_hear {w : World Conduit} {l : Link} (hears : ¬ l.IsDeaf) (m : ClientMessage) :
    Act.Does w l (.hear m) (l.hearing w m) (l.hear w m).2 := by
  have listens : l.listens = true := by
    rw [← Bool.not_eq_false]
    exact fun h => hears (.inr h)
  have ends {m : ClientMessage} (last : m.isLast = true) (noText : m.isText = false) :
      Act.Does w l (.hear m) (l.leaving w) ((l.put .over).leave w).2 := by
    rw [Link.leave_eq]
    exact .ends hears last noText
  unfold Link.hear Link.hearing
  rw [listens, Bool.not_true, if_neg Bool.false_ne_true, if_neg Bool.false_ne_true]
  cases m with
  -- binary messages and short pongs are passed over
  | binary => exact .idle listens rfl
  | close => exact ends rfl rfl
  | ping data =>
    simp only
    split
    · rename_i fits
      exact .answers data fits
    · rename_i long
      exact ends (by simpa [ClientMessage.isLast] using long) rfl
  | pong data =>
    simp only
    split
    · rename_i fits
      exact .idle listens (by simpa [ClientMessage.isIdle] using fits)
    · rename_i long
      exact ends (by simpa [ClientMessage.isLast] using long) rfl
  -- a text goes through the checks in the order in which the link makes them
  | text value =>
    simp only [Link.hearText]
    rcases hc : (w.view l.session).closed with - | -
    swap
    · exact .late value hc
    rcases hv : value.isEmpty with - | -
    swap
    · exact .idle listens hv
    rcases hshape : Payload.hasShape value with - | -
    · exact .rejects value hv hshape
    rcases hm : Payload.messages? value with - | messages
    · simpa [World.feed, hm, World.verdict] using .refuses value hv hc hshape hm
    · simpa [World.feed, hm, World.verdict] using .takes value hv hshape messages hm

/-- What is done when a link is looked after. -/
theorem does_pump (w : World Conduit) (l : Link) :
    Act.Does w l .pump (l.pumping w) ((l.pump? w).getD (w, l)).2 := by
  obtain ⟨o, hpump⟩ : ∃ o, l.pump? w = o := ⟨_, rfl⟩
  -- the two follow the same conditions
  have hdef := hpump
  unfold Link.pump? at hdef
  rw [hpump, Link.pumping]
  generalize w.live? l.session = s?, hq : l.queue? w = q? at hdef ⊢
  split
  · rename_i ho
    rw [if_pos ho] at hdef
    subst hdef
    exact .rests hpump
  rename_i ho
  rw [if_neg ho] at hdef
  rcases s? with - | s
  · subst hdef
    exact .rests hpump
  rcases q? with - | q
  · subst hdef
    exact .rests hpump
  simp only at hdef ⊢
  split
  · rename_i hstop
    rw [if_pos hstop] at hdef
    subst hdef
    exact .stops (Bool.and_eq_true _ _ ▸ hstop).1
  rename_i hstop
  rw [if_neg hstop] at hdef
  split
  · rename_i hwaiting
    rw [if_pos hwaiting] at hdef
    subst hdef
    exact .flushes q hq
  rename_i hwaiting
  rw [if_neg hwaiting] at hdef
  split
  · rename_i hwritable
    rw [if_pos hwritable, Link.leave_eq] at hdef
    subst hdef
    exact .dismisses q hq (by simpa using hwaiting) (by simpa using hwritable)
  · rename_i hwritable
    rw [if_neg hwritable] at hdef
    subst hdef
    exact .rests hpump

/-- **Every act does one of these things.** -/
theorem does_act (c : Talk) (a : Act) : a.Does c.1 c.2 (c.movesOf a) (c.act a).2 := by
  obtain ⟨w, l⟩ := c
  cases a with
  | world m => exact .world m
  | hear m =>
    by_cases hdeaf : l.IsDeaf
    · rw [movesOf_of_deaf hdeaf, hear_of_deaf hdeaf]
      exact .deaf m hdeaf
    · have ho : l.isOpen = true := by
        rw [← Bool.not_eq_false]
        exact fun h => hdeaf (.inl h)
      rw [movesOf, act, if_pos ho, if_pos ho]
      exact does_hear hdeaf m
  | abandon =>
    rcases ho : l.isOpen with - | -
    · simpa [movesOf, act, ho] using .gone ho
    · simpa [movesOf, act, ho, Link.leave_eq] using .abandons ho
  | pump => exact does_pump w l

end Talk

/-- The move does not reach session `k` from outside. -/
def Move.spares (k : Nat) : Move Conduit → Bool
  | .hold j _ | .register j _ | .again j _ | .stir j _ _ | .lose j _ | .feed j _ | .close j =>
    j != k
  | _ => true

/-- The act is one that there is. -/
def Talk.IsProper (c : Talk) : Act → Prop
  | .world m => c.1.IsTimely m ∧ c.1.IsMindful m ∧ m.spares c.2.session = true
  | .hear _ | .abandon => c.1.tasks = []
  | .pump => True

/-- Each of these acts is as it should be where it is done. -/
def Talk.Always (P : Talk → Act → Prop) : Talk → List Act → Prop
  | _, [] => True
  | c, a :: acts => P c a ∧ (c.act a).Always P acts

theorem Talk.always_append (P : Talk → Act → Prop) (c : Talk) (acts acts' : List Act) :
    c.Always P (acts ++ acts') ↔ c.Always P acts ∧ (c.after acts).Always P acts' := by
  induction acts generalizing c with
  | nil => simp [Always, after]
  | cons a acts ih =>
    rw [List.cons_append, Always, Always, ih, and_assoc]
    rfl

theorem Talk.always_of_take {P : Talk → Act → Prop} {c : Talk} {acts : List Act}
    (h : ∀ n a, acts[n]? = some a → P (c.after (acts.take n)) a) : c.Always P acts := by
  induction acts generalizing c with
  | nil => trivial
  | cons a acts ih => exact ⟨h 0 a rfl, ih fun n a' ha => h (n + 1) a' ha⟩

/-- All these acts are ones that there are. -/
def Talk.Proper : Talk → List Act → Prop := Talk.Always Talk.IsProper

end Duplex
