/-
Duplex/Proofs/Server/Answers.lean

What a request does to a server, as its answer tells.

Whatever is wrong with a request is found before anything is done about it, so
an answer that refuses a request leaves the server as it was.  There is one
exception.  A payload is only read when its session is found, and one that
cannot be read closes that session; the answer says so, and is the only one
with that text.

`Course` lists what a request may come to, one case for each kind of answer,
and `course_respond` goes through the checks in the order in which they are
made.  `telling_of_respond` reads off what each answer tells.
-/
import Duplex.Proofs.World.Closing
import Duplex.Server.Basic

namespace Duplex

open Text

/-- The bytes that a request gives to a resource that takes messages. -/
inductive Request.Carries (r : Request) : Resource → Bytes → Prop
  | send : r.Carries .send r.body
  | form {bytes : Bytes} : Server.mediaType? r = some "application/x-www-form-urlencoded" →
      Server.payload r.body true = .ok bytes → r.Carries .callbackSend bytes
  | plain {bytes : Bytes} : Server.mediaType? r = some "text/plain" →
      Server.payload r.body false = .ok bytes → r.Carries .callbackSend bytes

/-- The messages in the bytes of a payload, if they are a text and can be read. -/
def Payload.ofBytes? (bytes : Bytes) : Option (List String) :=
  (Utf8.text? bytes).bind Payload.messages?

/-- The answer when a payload cannot be read. -/
def Response.IsBroken (answer : Response) : Prop :=
  answer.status = 500 ∧ answer.body = .text "Broken JSON encoding."

namespace Server

variable {s : Server} {r : Request}

/-! ### What is addressed -/

/-- The route that a request takes, and what the parameters in its path stand for. -/
def route? (s : Server) (r : Request) : Option (Route × List (String × List Char)) :=
  (Route.find? r.target.path s.mounts.routes).bind fun (routes, values) =>
    (routes.find? (·.resource.methods.contains r.method)).map fun route =>
      (route, route.parameters.zip values)

/-- The request is to give messages to a resource. -/
def IsSend (s : Server) (r : Request) (resource : Resource) : Prop :=
  r.method ≠ "OPTIONS" ∧ takesBody resource = true ∧
    ∃ route parameters, s.route? r = some (route, parameters) ∧ route.resource = resource

/-- The request gives bytes to session `k`, which is open and registered under the name that stands
in the path. -/
structure Sends (s : Server) (r : Request) (resource : Resource) (k : Nat)
    (session : Session Conduit) (bytes : Bytes) : Prop where
  send : s.IsSend r resource
  named : ∃ route parameters both id, s.route? r = some (route, parameters) ∧
    names parameters = .ok both ∧ sessionName both = .ok id ∧ s.world.find? id = some k
  live : s.world.live? k = some session
  unclosed : session.phase ≠ .closed
  carried : r.Carries resource bytes

/-- A session that messages are for is registered, kept and not closed. -/
theorem of_receiver {id : String} {k : Nat} (h : s.receiver id = .ok k) :
    s.world.find? id = some k ∧
      ∃ session, s.world.live? k = some session ∧ session.phase ≠ .closed := by
  unfold receiver at h
  rcases hf : s.world.find? id with - | j
  · simp [hf] at h
  rcases hl : s.world.live? j with - | session
  · simp [hf, hl] at h
  by_cases hp : session.phase = .closed
  · simp [hf, hl, hp] at h
  · simp only [hf, hl, hp, if_false, Except.ok.injEq] at h
    exact h ▸ ⟨rfl, session, hl, hp⟩

/-! ### Causes -/

theorem receiver_error {id : String} {e : Refusal} (h : s.receiver id = .error e) :
    e = .unknownSession := by
  unfold receiver at h
  split at h
  · exact (Except.error.inj h).symm
  · split at h
    · exact (Except.error.inj h).symm
    · split at h
      · exact (Except.error.inj h).symm
      · cases h

theorem sessionName_error {both : String × String} {e : Refusal}
    (h : sessionName both = .error e) : e = .unknownSession := by
  unfold sessionName Segment.parse at h
  split at h
  · split at h
    · cases h
    · exact (Except.error.inj h).symm
  · exact (Except.error.inj h).symm

theorem payload_error {body : Bytes} {isForm : Bool} {e : Refusal}
    (h : payload body isForm = .error e) : e = .payloadExpected := by
  unfold payload at h
  split at h
  · exact (Except.error.inj h).symm
  · split at h
    · cases h
    · split at h
      · exact (Except.error.inj h).symm
      · split at h
        · cases h
        · exact (Except.error.inj h).symm

/-! ### What a request comes to -/

/-- What a request may come to: an answer and the server after it. -/
inductive Course (s : Server) (r : Request) : Response × Server → Prop
  /-- Something is wrong with it, and nothing happens. -/
  | refused {answer : Response} (error : 400 ≤ answer.status) (other : ¬ answer.IsBroken) :
      Course s r (answer, s)
  /-- Its payload cannot be read. -/
  | broken {resource : Resource} {k : Nat} {session : Session Conduit} {bytes : Bytes}
      (sends : s.Sends r resource k session bytes) (unread : Payload.ofBytes? bytes = none) :
      Course s r (refuse .malformedFrame, { s with world := s.world.push (.close k) })
  /-- Its messages are taken in. -/
  | taken {resource : Resource} {k : Nat} {session : Session Conduit} {bytes : Bytes}
      {messages : List String} {answer : Response}
      (sends : s.Sends r resource k session bytes) (read : Payload.ofBytes? bytes = some messages)
      (status : answer.status = if resource = .send then 204 else 200) :
      Course s r (answer,
        { s with
          world := (s.world.modify k (·.receive s.world.now messages)).push (.drain k) })
  /-- It is served, and had no messages to give. -/
  | served {answer : Response} {s' : Server} (success : answer.status < 400)
      (other : ∀ resource, ¬ s.IsSend r resource) : Course s r (answer, s')

/-- A cause other than a payload that cannot be read leaves everything as it was. -/
theorem course_refuse {e : Refusal} (he : e ≠ .malformedFrame) : s.Course r (refuse e, s) := by
  refine .refused ?_ ?_
  · cases e <;> decide
  · rintro ⟨-, h⟩
    cases e with
    | malformedFrame => exact he rfl
    | _ => exact absurd h (by decide)

/-- So does an answer in the server's own words. -/
theorem course_answer {status : Nat} {contentType body : String} (h : 400 ≤ status)
    (h' : status ≠ 500 ∨ body ≠ "Broken JSON encoding.") :
    s.Course r (answer status contentType body, s) := by
  refine .refused h ?_
  rintro ⟨hs, hb⟩
  rcases h' with h' | h'
  · exact h' hs
  · exact h' (Body.text.inj hb)

/-- What becomes of bytes that are given to an open session. -/
theorem deliver_cases (s : Server) (k : Nat) (bytes : Bytes) :
    s.deliver k bytes = (s, some .payloadExpected) ∨
    (Payload.ofBytes? bytes = none ∧ s.deliver k bytes =
      ({ s with world := s.world.push (.close k) }, some .malformedFrame)) ∨
    ∃ messages, Payload.ofBytes? bytes = some messages ∧ s.deliver k bytes =
      ({ s with
          world :=
            (s.world.modify k (·.receive s.world.now messages)).push (.drain k) }, none) := by
  unfold deliver Payload.ofBytes?
  split
  · exact .inl rfl
  right
  rcases Utf8.text? bytes with - | text
  · exact .inl ⟨rfl, rfl⟩
  rcases hm : Payload.messages? text with - | messages
  · exact .inl ⟨hm, by simp [World.feed, World.receive, World.verdict, hm]⟩
  · exact .inr ⟨messages, hm, by simp [World.feed, World.receive, World.verdict, hm]⟩

/-- The request is for a resource of the session of that name, and not a preflight. -/
structure IsFor (s : Server) (r : Request) (resource : Resource) (id : String) : Prop where
  method : r.method ≠ "OPTIONS"
  path : ∃ route parameters both, s.route? r = some (route, parameters) ∧
    route.resource = resource ∧ names parameters = .ok both ∧ sessionName both = .ok id

/-- A request with bytes for a session gives them to it, if it is there. -/
theorem IsFor.sends {resource : Resource} {id : String} {k : Nat} {bytes : Bytes}
    (h : s.IsFor r resource id) (hr : s.receiver id = .ok k) (hc : r.Carries resource bytes) :
    ∃ session, s.Sends r resource k session bytes := by
  obtain ⟨hf, session, hl, hp⟩ := of_receiver hr
  obtain ⟨route, parameters, both, hroute, hres, hn, hi⟩ := h.path
  have hb : takesBody resource = true := by cases hc <;> rfl
  exact ⟨session, ⟨h.method, hb, route, parameters, hroute, hres⟩,
    ⟨route, parameters, both, id, hroute, hn, hi, hf⟩, hl, hp, hc⟩

variable {resource : Resource} {id : String} {k : Nat} {bytes : Bytes} {s' : Server}

theorem course_of_deliver_some (h : s.IsFor r resource id) (hr : s.receiver id = .ok k)
    (hc : r.Carries resource bytes) {e : Refusal} (hd : s.deliver k bytes = (s', some e)) :
    s.Course r (refuse e, s') := by
  obtain ⟨session, sends⟩ := h.sends hr hc
  rcases deliver_cases s k bytes with hd' | ⟨hm, hd'⟩ | ⟨messages, -, hd'⟩
  · cases hd.symm.trans hd'
    exact course_refuse (by decide)
  · cases hd.symm.trans hd'
    exact .broken sends hm
  · cases hd.symm.trans hd'

theorem course_of_deliver_none (h : s.IsFor r resource id) (hr : s.receiver id = .ok k)
    (hc : r.Carries resource bytes) (hd : s.deliver k bytes = (s', none)) {answer : Response}
    (hs : answer.status = if resource = .send then 204 else 200) : s.Course r (answer, s') := by
  obtain ⟨session, sends⟩ := h.sends hr hc
  rcases deliver_cases s k bytes with hd' | ⟨-, hd'⟩ | ⟨messages, hm, hd'⟩
  · cases hd.symm.trans hd'
  · cases hd.symm.trans hd'
  · cases hd.symm.trans hd'
    exact .taken sends hm hs

theorem course_send (h : s.IsFor r .send id) (m : Mount) : s.Course r (s.send m id r) := by
  unfold send
  split
  · rename_i e hr
    exact course_refuse (receiver_error hr ▸ by decide)
  · rename_i k hr
    split
    · rename_i s' e hd
      exact course_of_deliver_some h hr .send hd
    · rename_i s' hd
      exact course_of_deliver_none h hr .send hd rfl

theorem course_callbackSend (h : s.IsFor r .callbackSend id) (m : Mount) :
    s.Course r (s.callbackSend m id r) := by
  unfold callbackSend
  split
  · rename_i e hr
    exact course_refuse (receiver_error hr ▸ by decide)
  rename_i k hr
  dsimp only
  split
  · exact course_refuse (by decide)
  rename_i isForm hform
  split
  · rename_i e hp
    exact course_refuse (payload_error hp ▸ by decide)
  rename_i bytes hp
  -- the media type says which reading of the body it was
  have hc : r.Carries .callbackSend bytes := by
    split at hform
    · rename_i hm
      cases hform
      exact .form hm hp
    · rename_i hm
      cases hform
      exact .plain hm hp
    · cases hform
  split
  -- the body is delivered, and refused or taken
  · rename_i s' e hd
    exact course_of_deliver_some h hr hc hd
  · rename_i s' hd
    exact course_of_deliver_none h hr hc hd rfl

theorem course_respondFor (h : s.IsFor r resource id) (hs : ∀ resource', s.IsSend r resource' →
    resource' = resource) (m : Mount) : s.Course r (s.respondFor m resource id r) := by
  have other (hb : takesBody resource = false) (resource' : Resource) :
      ¬ s.IsSend r resource' := by
    intro h'
    have hb' := h'.2.1
    rw [hs resource' h', hb] at hb'
    cases hb'
  cases resource with
  | send => exact course_send h m
  | callbackSend => exact course_callbackSend h m
  | poll | stream | events => exact .served (by decide : (200 : Nat) < 400) (other rfl)
  | callbackPoll =>
    simp only [respondFor]
    split
    · exact course_refuse (by decide)
    · exact .served (by decide : (200 : Nat) < 400) (other rfl)
  | socket =>
    simp only [respondFor]
    split
    · exact .served (by decide : (101 : Nat) < 400) (other rfl)
    · exact course_answer (by decide) (.inl (by decide))
  | greeting | info => exact .refused (by decide : 400 ≤ 404) fun h => absurd h.1 (by decide)

theorem names_error {parameters : List (String × List Char)} {answer : Response}
    (h : names parameters = .error answer) : s.Course r (answer, s) := by
  unfold names at h
  dsimp only at h
  split at h
  · cases h
    exact course_answer (by decide) (.inl (by decide))
  · split at h
    · cases h
    · rename_i values _ _
      cases h
      refine course_answer (by decide) (.inr ?_)
      intro h
      have hfirst := congrArg (fun t => t.toList.head?) h
      simp [String.toList_append] at hfirst

/-- The route that a request takes is the only one. -/
theorem IsSend.resource_eq (h : s.IsSend r resource) {route : Route}
    {parameters : List (String × List Char)} (hroute : s.route? r = some (route, parameters)) :
    resource = route.resource := by
  obtain ⟨route', parameters', hroute', rfl⟩ := h.2.2
  cases hroute.symm.trans hroute'
  rfl

theorem course_respondTo {route : Route} {parameters : List (String × List Char)}
    (hroute : s.route? r = some (route, parameters)) (c : Circumstance) (m : Mount) :
    s.Course r (s.respondTo c m route.resource parameters r) := by
  unfold respondTo
  split
  · rename_i hm
    exact .served (by decide : (204 : Nat) < 400) fun resource h => h.1 hm
  rename_i hm
  -- a resource that takes no body is no send
  have other (hb : takesBody route.resource = false) (resource : Resource) :
      ¬ s.IsSend r resource := by
    intro h
    have hb' := h.2.1
    rw [h.resource_eq hroute, hb] at hb'
    cases hb'
  split
  · rename_i hres
    exact .served (by decide : (200 : Nat) < 400) (other (by rw [hres]; rfl))
  · rename_i hres
    exact .served (by decide : (200 : Nat) < 400) (other (by rw [hres]; rfl))
  split
  · rename_i answer hn
    exact names_error hn
  -- the others name a session, and may name it badly
  rename_i both hn
  split
  · exact course_answer (by decide) (.inl (by decide))
  split
  · rename_i e hi
    exact course_refuse (sessionName_error hi ▸ by decide)
  · rename_i id hi
    have h : s.IsFor r route.resource id :=
      ⟨hm, route, parameters, both, hroute, rfl, hn, hi⟩
    exact course_respondFor h (fun _ h' => h'.resource_eq hroute) m

/-- **The course of a request**, from the first check to the last. -/
theorem course_respond (s : Server) (c : Circumstance) (r : Request) :
    s.Course r (s.respond c r) := by
  unfold respond
  split
  · exact .refused (by decide : 400 ≤ 404) fun h => absurd h.1 (by decide)
  rename_i routes values hfind
  split
  · rename_i route hmethod
    refine course_respondTo ?_ c route.mount
    simp only [route?, hfind, Option.bind_some, hmethod]
    rfl
  · refine .refused (by decide : 400 ≤ 405) ?_
    rintro ⟨hs, -⟩
    cases hs

/-! ### What an answer tells -/

/-- Session `k` of world `w` is given up for a payload that cannot be read: `w'` is the world with
the task to close it on top. -/
structure GivenUp (k : Nat) (w : World Conduit) (session : Session Conduit)
    (w' : World Conduit) : Prop where
  /-- So far nothing happened. -/
  pushed : w' = w.push (.close k)
  /-- The task closes the session and takes its entry away; then its farewell runs, if there is
  one, and all else is as it was. -/
  next : w'.step = { w with
    sessions := w.sessions.modify k fun _ => (session.depart w.now).1
    registry := w.registry.filter (·.2 != k)
    tasks := (session.farewell.toList.map fun f => .act f.2) ++ w.tasks }
  closed : (session.depart w.now).1.phase = .closed ∧ (session.depart w.now).1.Emptied
  others : ∀ j, j ≠ k → w'.step.sessions[j]? = w.sessions[j]?
  unregistered : ∀ e, e ∈ w'.step.registry ↔ e ∈ w.registry ∧ e.2 ≠ k
  /-- No message is given to the application any more. -/
  silent : ∀ ms, Session.given (World.turns k w'.step ms) = []

/-- What the answer to a request tells about the server `s'` after it. -/
structure Telling (s : Server) (r : Request) (answer : Response) (s' : Server) : Prop where
  /-- An error leaves everything as it was. -/
  refused : 400 ≤ answer.status → ¬ answer.IsBroken → s' = s
  /-- A payload that cannot be read closes the session that it was sent to. -/
  broken : answer.IsBroken → ∃ resource k session bytes,
    s.Sends r resource k session bytes ∧ Payload.ofBytes? bytes = none ∧
    s' = { s with world := s'.world } ∧ GivenUp k s.world session s'.world
  /-- A request to give messages that does not fail has given them, and the session is about to
  pass them on. -/
  taken : ∀ resource, s.IsSend r resource → answer.status < 400 →
    answer.status = (if resource = .send then 204 else 200) ∧
    ∃ k session bytes messages, s.Sends r resource k session bytes ∧
      Payload.ofBytes? bytes = some messages ∧
      s' = { s with
        world := (s.world.modify k fun _ =>
          { session with inbound := session.inbound ++ messages }.record s.world.now
            (.received messages)).push (.drain k) }

/-- An open session is given up by the task to close it. -/
theorem givenUp_of_live {w : World Conduit} {k : Nat} {session : Session Conduit}
    (hl : w.live? k = some session) (hp : session.phase ≠ .closed) :
    GivenUp k w session (w.push (.close k)) := by
  obtain ⟨hs, hg⟩ := World.live?_eq_some.mp hl
  -- what closes the session is the turn at which it departs
  let t : Session.Turn Conduit := ⟨w.now, session, .depart⟩
  have hafter : t.after = (session.depart w.now).1 := by
    show (if session.gone then session else _) = _
    rw [hg, if_neg (by decide)]
  have hclosed : t.after.phase = .closed := by
    rw [Session.Turn.after, Session.phase_does]
    simp [t, Session.phaseAfter, hg]
  have next : (w.push (.close k)).step = { w with
      sessions := w.sessions.modify k fun _ => (session.depart w.now).1
      registry := w.registry.filter (·.2 != k)
      tasks := (session.farewell.toList.map fun f => .act f.2) ++ w.tasks } := by
    show w.close k = _
    rw [World.close_of_live hl hp, Session.depart_snd hp]
    rcases session.farewell with - | f
    · rfl
    · rfl
  refine ⟨rfl, next, ?closed, ?others, ?unregistered, ?silent⟩
  case closed =>
    rw [← hafter]
    exact ⟨hclosed, Session.Turn.emptied_of_closing (t := t) hp hclosed⟩
  case others =>
    intro j hj
    rw [next]
    simp [hj.symm]
  case unregistered =>
    intro e
    rw [next]
    simp
  case silent =>
    intro ms
    refine World.given_of_closed ms (s := t.after) ?_ hclosed
    rw [next, hafter]
    simp [hs]

theorem Course.telling {answer : Response} (course : s.Course r (answer, s')) :
    Telling s r answer s' := by
  cases course with
  -- an error that is no reading failure tells of nothing done
  | refused error other =>
    refine ⟨fun _ _ => rfl, fun h => absurd h other, ?_⟩
    intro resource _ h
    omega
  | broken sends unread =>
    refine ⟨fun _ h => absurd ⟨rfl, rfl⟩ h, ?_, ?_⟩
    · intro _
      exact ⟨_, _, _, _, sends, unread, rfl, givenUp_of_live sends.live sends.unclosed⟩
    · intro resource _ h
      exact absurd (h : 500 < 400) (by decide)
  -- a send that was taken fixes the status, since it has one resource
  | taken sends read status =>
    rename_i resource k session bytes messages
    have hlow : answer.status < 400 := by
      rw [status]
      split <;> decide
    have unbroken : ¬ answer.IsBroken := fun h => by have := h.1; omega
    refine ⟨fun h => by omega, fun h => absurd h unbroken, ?_⟩
    intro resource' h _
    obtain ⟨route, parameters, hroute, hres⟩ := sends.send.2.2
    obtain rfl : resource' = resource := (h.resource_eq hroute).trans hres
    refine ⟨status, k, session, bytes, messages, sends, read, ?_⟩
    rw [World.modify_eq_modify (World.live?_eq_some.mp sends.live).1]
    simp [Session.receive, sends.unclosed]
  | served success other =>
    have unbroken : ¬ answer.IsBroken := fun h => by have := h.1; omega
    refine ⟨fun h => by omega, fun h => absurd h unbroken, ?_⟩
    intro resource h _
    exact absurd h (other resource)

/-- **Every answer tells what happened.** -/
theorem telling_of_respond (s : Server) (c : Circumstance) (r : Request) :
    Telling s r (s.respond c r).1 (s.respond c r).2 := (course_respond s c r).telling

end Server

end Duplex
