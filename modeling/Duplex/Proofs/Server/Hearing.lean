/-
Duplex/Proofs/Server/Hearing.lean

What is heard of a client.

All that matters of what a client did is what it *said* (`said`); one that went
away without a word counts as one that ended the connection.  The first thing
said that is the `last` to be heard ends the conversation, and `accepted` are the
messages said before it.  From then on the link is deaf (`deaf_of_said`), and
only a last thing that is no text makes it leave (`close_of_left`).
-/
import Duplex.Proofs.Server.Ties

namespace Duplex

/-! ### What a client says -/

open ClientMessage (isLast messages)

/-- The messages of a client, up to the last that is heard of it. -/
def accepted (ms : List ClientMessage) : List String :=
  (ms.takeWhile (!·.isLast)).flatMap (·.messages)

section Said

variable {ms : List ClientMessage} {m : ClientMessage}

theorem accepted_of_last (h : ms.any (·.isLast) = true) (ms' : List ClientMessage) :
    accepted (ms ++ ms') = accepted ms := by
  induction ms with
  | nil => cases h
  | cons m ms ih =>
    rcases hm : m.isLast with - | -
    · have hms : ms.any (·.isLast) = true := by simpa [hm] using h
      simpa [accepted, hm] using congrArg (m.messages ++ ·) (ih hms)
    · simp [accepted, hm]

theorem accepted_concat (h : ms.any (·.isLast) = false) (m : ClientMessage) :
    accepted (ms ++ [m]) = accepted ms ++ if m.isLast then [] else m.messages := by
  induction ms with
  | nil =>
    rcases hm : m.isLast with - | -
    · simp [accepted, hm]
    · simp [accepted, hm]
  | cons m' ms ih =>
    obtain ⟨hm', hms⟩ : m'.isLast = false ∧ ms.any (·.isLast) = false := by simpa using h
    have hms := congrArg (m'.messages ++ ·) (ih hms)
    simpa [accepted, hm'] using hms

end Said

/-- What the client says with an act.  To go away without a word is to end the connection. -/
def Act.voice? : Act → Option ClientMessage
  | .hear m => some m
  | .abandon => some .close
  | .world _ | .pump => none

/-- What the client says with these acts. -/
def said (acts : List Act) : List ClientMessage := acts.filterMap (·.voice?)

/-- A client is heard between tasks. -/
theorem Talk.IsProper.tasks {c : Talk} {a : Act} (h : c.IsProper a) {m : ClientMessage}
    (ha : a.voice? = some m) : c.1.tasks = [] := by
  cases a with
  | world | pump => cases ha
  | hear | abandon => exact h

theorem said_concat (acts : List Act) (a : Act) :
    said (acts ++ [a]) = said acts ++ a.voice?.toList := by
  rw [said, List.filterMap_append]
  rcases h : a.voice? with - | m
  · simp [said, h]
  · simp [said, h]

/-! ### Deaf links -/

namespace Talk

variable {c : Talk}

/-- A link keeps its session and its place, and what is over does not begin again. -/
theorem act_link (c : Talk) (a : Act) : ∃ isOpen listens wire,
    (c.act a).2 = { c.2 with isOpen, listens, wire } ∧ (c.2.isOpen = false → isOpen = false) ∧
      (c.2.listens = false → listens = false) := by
  have h := does_act c a
  generalize c.movesOf a = ms, (c.act a).2 = l' at h ⊢
  cases h with
  | ends | abandons | dismisses => exact ⟨_, _, _, rfl, fun _ => rfl, id⟩
  | late | refuses | rejects => exact ⟨_, _, _, rfl, id, fun _ => rfl⟩
  | _ => exact ⟨_, _, _, rfl, id, id⟩

theorem session_act (c : Talk) (a : Act) : (c.act a).2.session = c.2.session := by
  obtain ⟨_, _, _, h, -⟩ := act_link c a
  rw [h]

theorem session_after (c : Talk) (acts : List Act) : (c.after acts).2.session = c.2.session := by
  induction acts generalizing c with
  | nil => rfl
  | cons a acts ih => exact (ih (c.act a)).trans (session_act c a)

/-- A deaf link remains deaf. -/
theorem deaf_act (h : c.2.IsDeaf) (a : Act) : (c.act a).2.IsDeaf := by
  obtain ⟨_, _, _, he, ho, hl⟩ := act_link c a
  rw [he]
  exact h.imp ho hl

theorem deaf_after (h : c.2.IsDeaf) (acts : List Act) : (c.after acts).2.IsDeaf := by
  induction acts generalizing c with
  | nil => exact h
  | cons a acts ih => exact ih (deaf_act h a)

/-- The last thing that is heard makes a link deaf. -/
theorem deaf_of_last {a : Act} {m : ClientMessage} (ha : a.voice? = some m) (hm : m.isLast = true) :
    (c.act a).2.IsDeaf := by
  have h := does_act c a
  generalize c.movesOf a = ms, (c.act a).2 = l' at h ⊢
  cases h with
  | world | rests | stops | flushes | dismisses => cases ha
  | deaf _ deaf => exact deaf
  | gone left => exact .inl left
  | ends | abandons => exact .inl rfl
  | late | refuses | rejects => exact .inr rfl
  -- these are not the last to be heard
  | idle _ idle =>
    obtain rfl := Option.some.inj ha
    cases hm.symm.trans (ClientMessage.isLast_of_isIdle idle)
  | answers data fits =>
    obtain rfl := Option.some.inj ha
    simp [isLast, fits] at hm
  | takes value full shaped messages read =>
    obtain rfl := Option.some.inj ha
    simp [isLast, shaped, read] at hm

/-- **After the last thing that is heard the link is deaf.** -/
theorem deaf_of_said {acts : List Act} (h : (said acts).any (·.isLast) = true) :
    (c.after acts).2.IsDeaf := by
  induction acts generalizing c with
  | nil => cases h
  | cons a acts ih =>
    rcases hv : a.voice? with - | m
    · exact ih (by simpa [said, hv] using h)
    · have h : m.isLast = true ∨ (said acts).any (·.isLast) = true := by
        simpa [said, hv] using h
      rcases h with hm | h
      · exact deaf_after (deaf_of_last hv hm) acts
      · exact ih h

/-! ### Leaving -/

/-- **A link that was open is left with the message that says so**, unless the client goes away or
the last that is heard of it is no text. -/
theorem close_of_left (ho : c.2.isOpen = true) {acts : List Act} (ha : .abandon ∉ acts)
    (hm : ∀ m, (said acts).find? (·.isLast) = some m → m.isText = true) :
    (c.after acts).2.isOpen = false → .close ∈ (c.after acts).2.wire := by
  induction acts using List.reverseRecOn with
  | nil =>
    intro h
    cases h.symm.trans ho
  | append_singleton acts a ih =>
    rw [said_concat, List.find?_append] at hm
    have ih := ih (fun h => ha (List.mem_append_left _ h)) fun m h => hm m (by rw [h]; rfl)
    rw [after_concat]
    have h := does_act (c.after acts) a
    generalize (c.after acts).movesOf a = ms, ((c.after acts).act a).2 = l' at h ⊢
    cases h with
    | gone | abandons => exact absurd (List.mem_append_right _ (List.mem_singleton_self _)) ha
    -- everything was heard so far, so this is the last, and it is no text
    | @ends m hears last noText =>
      have hnone : (said acts).find? (·.isLast) = none := by
        rw [List.find?_eq_none]
        exact fun m' hm' hl => hears (deaf_of_said (List.any_eq_true.mpr ⟨m', hm', hl⟩))
      cases noText.symm.trans (hm m (by rw [hnone]; simp [Act.voice?, last]))
    | dismisses => exact fun _ => List.mem_cons_of_mem _ List.mem_cons_self
    | answers => exact fun h => List.mem_cons_of_mem _ (ih h)
    | flushes => exact fun h => ((c.after acts).2.close_mem_flushed _).mpr (ih h)
    | _ => exact ih

/-! ### Saying nothing -/

/-- What is of no importance to the session has no effect, but that a ping is answered. -/
theorem act_idle (c : Talk) {m : ClientMessage} (hm : m.isIdle = true) :
    (c.act (.hear m)).1 = c.1 ∧ (c.act (.hear m)).2.isOpen = c.2.isOpen ∧
      (c.act (.hear m)).2.sent = c.2.sent := by
  rw [fst_act]
  have h := does_act c (.hear m)
  generalize c.movesOf (.hear m) = ms, (c.act (.hear m)).2 = l' at h ⊢
  cases h with
  | deaf | idle | late => exact ⟨rfl, rfl, rfl⟩
  | answers data => exact ⟨rfl, rfl, (Link.sent_put _ _).trans (List.append_nil _)⟩
  -- these are of importance
  | takes _ full | refuses _ full | rejects _ full => cases full.symm.trans hm
  | ends _ last => cases last.symm.trans (ClientMessage.isLast_of_isIdle hm)

end Talk

end Duplex
