/-
Duplex/Proofs/Server/Posting.lean

What becomes of a post, by the bytes that it carries.

A request that gives bytes to a session does so in one of three ways: as they
are to `send`, as they are to `callbackSend`, or as the field d of a form.
What follows depends on the bytes alone (`respondFor_of_carries`), whichever
way they came: an open session hears the messages in them or is given up
(`takes_respond`).  So a text is the same post in a form and as it is, in every
spelling and with whatever fields behind it (`posted_of_form`).

The size of a body is looked at before anything is read, and a spelling takes
more room than what it spells, so a text may be heard as it is and refused in a
form (`exists_posts_apart`).
-/
import Duplex.Proofs.Server.Answers
import Duplex.Proofs.Text.Forms
import Duplex.Proofs.Text.Utf8

namespace Duplex

open Text

/-! ### What of a request matters -/

/-- The requests have the same method, target and cookies. -/
structure Request.Alike (r r' : Request) : Prop where
  method : r.method = r'.method
  target : r.target = r'.target
  cookies : r.headers.all "cookie" = r'.headers.all "cookie"

theorem Request.Alike.refl (r : Request) : r.Alike r := ⟨rfl, rfl, rfl⟩

theorem Headers.sessionCookie_congr {hs hs' : Headers} (h : hs.all "cookie" = hs'.all "cookie")
    (o : Options) (lines : Headers) : sessionCookie o hs lines = sessionCookie o hs' lines := by
  simp only [sessionCookie, clientCookie?, h]

namespace Server

variable {s : Server} {r r' : Request} {id : String} {resource : Resource} {bytes : Bytes}

theorem route?_congr (h : r.Alike r') : s.route? r = s.route? r' := by
  simp only [route?, h.method, h.target]

theorem IsFor.congr (h : s.IsFor r resource id) (ha : r.Alike r') : s.IsFor r' resource id :=
  ⟨ha.method ▸ h.method, route?_congr ha ▸ h.path⟩

/-- A request for a resource that takes messages is refused for the size of its body, or comes to
the resource. -/
theorem respond_of_route {route : Route} {parameters : List (String × List Char)}
    {both : String × String} (hm : r.method ≠ "OPTIONS")
    (hroute : s.route? r = some (route, parameters)) (hb : takesBody route.resource = true)
    (hn : names parameters = .ok both) (hi : sessionName both = .ok id) (c : Circumstance) :
    s.respond c r = if maxBody < r.body.length then (bodyTooLong, s)
      else s.respondFor route.mount route.resource id r := by
  simp only [route?, Option.bind_eq_some_iff, Option.map_eq_some_iff, Prod.mk.injEq,
    Prod.exists] at hroute
  obtain ⟨routes, values, hfind, route', hmethod, rfl, rfl⟩ := hroute
  have hrespondTo : s.respond c r =
      s.respondTo c route'.mount route'.resource (route'.parameters.zip values) r := by
    simp only [respond, hfind, hmethod]
  rw [hrespondTo, respondTo, if_neg hm, hn, hb, Bool.true_and]
  · simp only [decide_eq_true_eq, hi]
  · intro hres
    rw [hres] at hb
    cases hb
  · intro hres
    rw [hres] at hb
    cases hb

/-- So it is with all requests that differ in nothing that matters for the way to the resource. -/
theorem IsFor.exists_respond_eq (h : s.IsFor r resource id) (hb : takesBody resource = true) :
    ∃ m, ∀ r', r.Alike r' → ∀ c, s.respond c r' =
      if maxBody < r'.body.length then (bodyTooLong, s) else s.respondFor m resource id r' := by
  obtain ⟨route, parameters, both, hroute, rfl, hn, hi⟩ := h.path
  refine ⟨route.mount, fun r' ha c => ?_⟩
  have hroute' := (route?_congr ha).symm.trans hroute
  exact respond_of_route (ha.method ▸ h.method) hroute' hb hn hi c

/-! ### Bytes given to a session -/

/-- The answer to bytes that were taken in. -/
def acceptance (m : Mount) (resource : Resource) (r : Request) : Response :=
  let hs := Headers.noCache [.ofText "content-type" plainText]
  let hs := Headers.sessionCookie m.options r.headers hs
  if resource = .send then { status := 204, headers := Headers.allowOrigin r.headers hs }
  else { status := 200, headers := hs, body := .text "ok" }

/-- What follows depends on the bytes, and on nothing else of the body or of how it is read. -/
theorem respondFor_of_carries (h : r.Carries resource bytes) (m : Mount) (id : String) :
    s.respondFor m resource id r =
      match s.receiver id with
      | .error e => (refuse e, s)
      | .ok k =>
        match s.deliver k bytes with
        | (s', some e) => (refuse e, s')
        | (s', none) => (acceptance m resource r, s') := by
  cases h with
  | send =>
    simp only [respondFor, send]
    rcases s.receiver id with e | k
    · rfl
    · rfl
  | form hm hp =>
    simp only [respondFor, callbackSend, hm, hp]
    rfl
  | plain hm hp =>
    simp only [respondFor, callbackSend, hm, hp]
    rfl

/-- Session `k` is open and registered under the name. -/
structure Opens (s : Server) (id : String) (k : Nat) (session : Session Conduit) : Prop where
  found : s.world.find? id = some k
  live : s.world.live? k = some session
  unclosed : session.phase ≠ .closed

/-- An answer, and a server on which session `k` was given up for a payload that cannot be read. -/
structure Breaks (s : Server) (k : Nat) (session : Session Conduit)
    (result : Response × Server) : Prop where
  answer : result.1.IsBroken
  server : result.2 = { s with world := result.2.world }
  givenUp : GivenUp k s.world session result.2.world

/-- An answer, and a server on which session `k` has the messages and is about to pass them on. -/
structure Hears (s : Server) (k : Nat) (session : Session Conduit) (resource : Resource)
    (messages : List String) (result : Response × Server) : Prop where
  status : result.1.status = if resource = .send then 204 else 200
  body : result.1.body = .text (if resource = .send then "" else "ok")
  server : result.2 = { s with
    world := (s.world.modify k fun _ =>
      { session with inbound := session.inbound ++ messages }.record s.world.now
        (.received messages)).push (.drain k) }

variable {k : Nat} {session : Session Conduit}

theorem Opens.receiver (h : s.Opens id k session) : s.receiver id = .ok k := by
  simp only [Server.receiver, h.found, h.live, if_neg h.unclosed]

theorem deliver_ne_expected (hne : bytes ≠ []) (s : Server) (k : Nat) (s' : Server) :
    s.deliver k bytes ≠ (s', some .payloadExpected) := by
  unfold deliver
  rw [if_neg (by simpa using hne)]
  rcases Utf8.text? bytes with - | text
  · intro h
    cases h
  · simp only [World.feed, World.verdict]
    intro h
    split at h
    · cases h
    · cases h

theorem body_acceptance (m : Mount) (resource : Resource) (r : Request) :
    (acceptance m resource r).status = (if resource = .send then 204 else 200) ∧
      (acceptance m resource r).body = .text (if resource = .send then "" else "ok") := by
  unfold acceptance
  split
  · exact ⟨rfl, rfl⟩
  · exact ⟨rfl, rfl⟩

/-- What a request comes to that gives bytes to session `k`, which is open: the session hears the
messages in them, or is given up. -/
def Takes (s : Server) (k : Nat) (session : Session Conduit) (resource : Resource)
    (messages? : Option (List String)) (result : Response × Server) : Prop :=
  match messages? with
  | none => s.Breaks k session result
  | some messages => s.Hears k session resource messages result

theorem takes_respondFor (ho : s.Opens id k session) (hc : r.Carries resource bytes)
    (hne : bytes ≠ []) (m : Mount) :
    s.Takes k session resource (Payload.ofBytes? bytes) (s.respondFor m resource id r) := by
  rw [respondFor_of_carries hc, ho.receiver]
  rcases deliver_cases s k bytes with hd | ⟨hm, hd⟩ | ⟨messages, hm, hd⟩
  · exact absurd hd (deliver_ne_expected hne s k s)
  · rw [hm]
    simp only [hd]
    exact ⟨⟨rfl, rfl⟩, rfl, givenUp_of_live ho.live ho.unclosed⟩
  · rw [hm]
    simp only [hd]
    obtain ⟨hstatus, hbody⟩ := body_acceptance m resource r
    have hreceive : session.receive s.world.now messages =
        { session with inbound := session.inbound ++ messages }.record s.world.now
          (.received messages) := by
      rw [Session.receive, if_neg ho.unclosed]
    refine ⟨hstatus, hbody, ?_⟩
    rw [World.modify_eq_modify (g := fun _ => _) (World.live?_eq_some.mp ho.live).1 hreceive]

theorem takes_respond (h : s.IsFor r resource id) (ho : s.Opens id k session)
    (hc : r.Carries resource bytes) (hne : bytes ≠ []) (hle : r.body.length ≤ maxBody)
    (c : Circumstance) :
    s.Takes k session resource (Payload.ofBytes? bytes) (s.respond c r) := by
  have hb : takesBody resource = true := by cases hc <;> rfl
  obtain ⟨m, hm⟩ := h.exists_respond_eq hb
  rw [hm r (.refl r) c, if_neg (Nat.not_lt.mpr hle)]
  exact takes_respondFor ho hc hne m

/-! ### The payload of a form -/

/-- A form that begins as it must, with something in its first field, carries that. -/
theorem payload_of_spelt {e tail : Bytes} (h : Percent.Spells e bytes)
    (ht : Percent.IsMore tail) (hne : bytes ≠ []) :
    payload (0x64 :: 0x3D :: e ++ tail) true = .ok (Utf8.encode (Utf8.decodeLossy bytes)) := by
  have he : 0 < e.length := Nat.lt_of_lt_of_le (List.length_pos_iff.mpr hne) h.length_le
  have hlong : ¬ (0x64 :: 0x3D :: e ++ tail).length ≤ 2 := by
    simp only [List.length_append, List.length_cons]
    omega
  have hbegins : ((0x64 :: 0x3D :: e ++ tail).take 2 != [0x64, 0x3D]) = false := rfl
  rw [payload, Percent.first?_of_spells h ht, hbegins]
  simp only [Bool.false_or, decide_eq_true_eq, if_neg hlong, String.toList_ofList]
  rfl

/-- A form that begins otherwise, or with an empty field, carries nothing. -/
theorem payload_of_blank {body : Bytes} (h : ¬ [0x64, 0x3D] <+: body ∨
    ∃ tail, body = 0x64 :: 0x3D :: tail ∧ Percent.IsMore tail) :
    payload body true = .error .payloadExpected ∨ payload body true = .ok [] := by
  rcases h with h | ⟨tail, rfl, ht⟩
  -- the body does not begin with the field
  · left
    have hbegins : (body.take 2 != [0x64, 0x3D]) = true := by
      rw [bne_iff_ne]
      intro h'
      exact h ⟨body.drop 2, h' ▸ List.take_append_drop 2 body⟩
    unfold payload
    rw [hbegins]
    split
    · rfl
    · rfl
  -- the field is there and says nothing
  · have hread : Percent.first? "d" (0x64 :: 0x3D :: tail) = some "" :=
      Percent.first?_of_spells .nil ht
    unfold payload
    rw [hread]
    by_cases hlong : (0x64 :: 0x3D :: tail).length ≤ 2
    · left
      simp only [hlong, decide_true, Bool.or_true, if_true]
      rfl
    · right
      simp only [hlong, decide_false, Bool.or_false]
      rfl

/-! ### Texts, however they are spelt -/

/-- The media type of a form. -/
def IsForm (r : Request) : Prop := mediaType? r = some "application/x-www-form-urlencoded"

instance (r : Request) : Decidable (IsForm r) :=
  inferInstanceAs (Decidable (mediaType? r = some "application/x-www-form-urlencoded"))

/-- One request posts the text in a form, in some spelling and with whatever fields behind it, and
the other posts it as it is. -/
structure PostBoth (t : String) (form plain : Request) : Prop where
  alike : form.Alike plain
  isForm : IsForm form
  isPlain : mediaType? plain = some "text/plain"
  spelt : ∃ e tail, Percent.Spells e (Utf8.encode t.toList) ∧ Percent.IsMore tail ∧
    form.body = 0x64 :: 0x3D :: e ++ tail
  whole : plain.body = Utf8.encode t.toList

theorem encode_ne_nil {t : String} (h : t ≠ "") : Utf8.encode t.toList ≠ [] := by
  intro he
  apply h
  have hread := Utf8.text?_encode t
  rw [he] at hread
  exact (Option.some.inj hread).symm

theorem ofBytes?_encode (t : String) :
    Payload.ofBytes? (Utf8.encode t.toList) = Payload.messages? t := by
  rw [Payload.ofBytes?, Utf8.text?_encode, Option.bind_some]

variable {t : String} {form plain : Request}

theorem PostBoth.carries (h : PostBoth t form plain) (hne : t ≠ "") :
    form.Carries .callbackSend (Utf8.encode t.toList) ∧
      plain.Carries .callbackSend (Utf8.encode t.toList) := by
  obtain ⟨e, tail, hspells, hmore, hbody⟩ := h.spelt
  constructor
  · refine .form h.isForm ?_
    rw [hbody, payload_of_spelt hspells hmore (encode_ne_nil hne), Utf8.decodeLossy_encode]
  · refine .plain h.isPlain ?_
    rw [h.whole, payload, if_neg (by simpa using encode_ne_nil hne)]
    rfl

/-- Written as it is a text is no longer than in a form. -/
theorem PostBoth.length_le (h : PostBoth t form plain) : plain.body.length ≤ form.body.length := by
  obtain ⟨e, tail, hspells, -, hbody⟩ := h.spelt
  rw [hbody, h.whole]
  have := hspells.length_le
  simp only [List.length_append, List.length_cons]
  omega

theorem acceptance_congr (h : r.Alike r') (m : Mount) :
    acceptance m .callbackSend r = acceptance m .callbackSend r' := by
  rw [acceptance, acceptance, Headers.sessionCookie_congr h.cookies]
  rfl

/-- What the posts of one form to the session named `id` come to. -/
structure Posted (s : Server) (id : String) (form : Request) : Prop where
  /-- A body with too many bytes is refused, whatever is in it. -/
  long : maxBody < form.body.length → ∀ c, s.respond c form = (bodyTooLong, s)
  /-- Otherwise a text in the form and the text as it is are answered alike, and leave the same
  server. -/
  same : form.body.length ≤ maxBody → ∀ t plain, t ≠ "" → PostBoth t form plain → ∀ c c',
    s.respond c form = s.respond c' plain
  /-- That is the server where the session has the messages in the text, in order, or is given up
  if there are none to be read. -/
  heard : form.body.length ≤ maxBody → ∀ t plain, t ≠ "" → PostBoth t form plain →
    ∀ k session, s.Opens id k session → ∀ c,
      s.Takes k session .callbackSend (Payload.messages? t) (s.respond c form)
  /-- A form that does not begin with its field d, or has nothing in it, changes nothing. -/
  blank : form.body.length ≤ maxBody → ∀ k session, s.Opens id k session →
    (¬ [0x64, 0x3D] <+: form.body ∨
      ∃ tail, form.body = 0x64 :: 0x3D :: tail ∧ Percent.IsMore tail) → ∀ c,
    s.respond c form = (answer 500 plainText "Payload expected.", s)

/-- **A text is the same post in a form and as it is**, in every spelling that is not too long. -/
theorem posted_of_form (h : s.IsFor form .callbackSend id) (hform : IsForm form) :
    Posted s id form := by
  obtain ⟨m, hm⟩ := h.exists_respond_eq rfl
  refine ⟨?long, ?same, ?heard, ?blank⟩
  -- a form that is too long is refused before it is read
  case long =>
    intro hlong c
    rw [hm form (.refl form), if_pos hlong]
  -- a plain body that says the same is answered the same
  case same =>
    intro hle t plain hne hboth c c'
    have hsmall : ¬ maxBody < plain.body.length :=
      Nat.not_lt.mpr (Nat.le_trans hboth.length_le hle)
    obtain ⟨hcform, hcplain⟩ := hboth.carries hne
    rw [hm form (.refl form), hm plain hboth.alike, if_neg (Nat.not_lt.mpr hle), if_neg hsmall,
      respondFor_of_carries hcform, respondFor_of_carries hcplain, acceptance_congr hboth.alike]
  case heard =>
    intro hle t plain hne hboth k session ho c
    -- what is delivered is the text that the field spells
    rw [← ofBytes?_encode]
    exact takes_respond h ho (hboth.carries hne).1 (encode_ne_nil hne) hle c
  case blank =>
    intro hle k session ho hblank c
    rw [hm form (.refl form), if_neg (Nat.not_lt.mpr hle)]
    show s.callbackSend m id form = _
    have hmedia : mediaType? form = some "application/x-www-form-urlencoded" := hform
    rcases payload_of_blank hblank with hp | hp
    · simp only [callbackSend, ho.receiver, hmedia, hp]
      rfl
    · simp only [callbackSend, ho.receiver, hmedia, hp]
      rfl

/-- The resource and the name of the session in the path of a request. -/
def addressed? (s : Server) (r : Request) : Option (Resource × String) :=
  (s.route? r).bind fun (route, parameters) =>
    match names parameters with
    | .error _ => none
    | .ok both => (sessionName both).toOption.map (route.resource, ·)

theorem isFor_of_addressed (hm : r.method ≠ "OPTIONS") (h : s.addressed? r = some (resource, id)) :
    s.IsFor r resource id := by
  obtain ⟨⟨route, parameters⟩, hroute, h⟩ := Option.bind_eq_some_iff.mp h
  simp only at h
  split at h
  · simp at h
  rename_i both hn
  simp only [Option.map_eq_some_iff, Prod.mk.injEq] at h
  obtain ⟨id', hi, hres, rfl⟩ := h
  refine ⟨hm, route, parameters, both, hroute, hres, hn, ?_⟩
  rcases hs : sessionName both with e | id''
  · rw [hs] at hi
    cases hi
  · rw [hs] at hi
    cases hi
    rfl

/-- A request to a resource of the session named s. -/
def toBoard (resource contentType : String) (body : Bytes) : Request :=
  { method := "POST"
    target := { path := ("/board/000/s/" ++ resource).toList }
    headers := [.ofText "content-type" contentType]
    body := body }

/-- A server on which the session named s has been polled once. -/
def board : Server :=
  let s := (respond { mounts := [⟨"/board", {}, Application.echo⟩] } {} (toBoard "xhr" "" [])).2
  { s with world := s.world.after (List.replicate 4 .step) }

theorem opens_board : ∃ session, board.Opens "s" 0 session := by
  have hlive : (board.world.live? 0).any (·.phase != .closed) = true := by decide +kernel
  rcases hl : board.world.live? 0 with - | session
  · rw [hl] at hlive
    cases hlive
  · rw [hl] at hlive
    exact ⟨session, by decide +kernel, hl, by simpa using hlive⟩

theorem alike_toBoard (resource contentType contentType' : String) (body body' : Bytes) :
    (toBoard resource contentType body).Alike (toBoard resource contentType' body') :=
  ⟨rfl, rfl, rfl⟩

theorem isFor_toBoard (contentType : String) (body : Bytes) :
    board.IsFor (toBoard "jsonp_send" contentType body) .callbackSend "s" := by
  have h : board.IsFor (toBoard "jsonp_send" "" []) .callbackSend "s" :=
    isFor_of_addressed (by decide) (by decide +kernel)
  exact h.congr (alike_toBoard "jsonp_send" "" contentType [] body)

theorem postBoth_toBoard {t : String} {e tail : Bytes} (h : Percent.Spells e (Utf8.encode t.toList))
    (ht : Percent.IsMore tail) :
    PostBoth t
      (toBoard "jsonp_send" "application/x-www-form-urlencoded" (0x64 :: 0x3D :: e ++ tail))
      (toBoard "jsonp_send" "text/plain" (Utf8.encode t.toList)) := by
  refine ⟨alike_toBoard .., ?_, ?_, ⟨e, tail, h, ht, rfl⟩, rfl⟩
  · show mediaType? (toBoard "jsonp_send" "application/x-www-form-urlencoded" []) = _
    decide +kernel
  · show mediaType? (toBoard "jsonp_send" "text/plain" []) = _
    decide +kernel

/-- The text `["a b"]`, with escapes of either case, a plus sign, and another field d. -/
def spacedForm : Request :=
  toBoard "jsonp_send" "application/x-www-form-urlencoded"
    (0x64 :: 0x3D :: Utf8.encode "%5b%22a+b%22%5D".toList ++ Utf8.encode "&d=x".toList)

/-- The session hears the message in it. -/
theorem posted_of_spacedForm : board.IsFor spacedForm .callbackSend "s" ∧ IsForm spacedForm ∧
    PostBoth "[\"a b\"]" spacedForm
      (toBoard "jsonp_send" "text/plain" (Utf8.encode "[\"a b\"]".toList)) ∧
    (∃ session, board.Opens "s" 0 session) ∧ Payload.messages? "[\"a b\"]" = some ["a b"] ∧
    Posted board "s" spacedForm := by
  have hspells : Percent.Spells (Utf8.encode "%5b%22a+b%22%5D".toList)
      (Utf8.encode "[\"a b\"]".toList) :=
    .escape (.inl (by decide)) (.inl (by decide)) <|
    .escape (.inl (by decide)) (.inl (by decide)) <|
    .literal (by decide) (by decide) (by decide) <| .space <|
    .literal (by decide) (by decide) (by decide) <|
    .escape (.inl (by decide)) (.inl (by decide)) <|
    .escape (.inl (by decide)) (.inr (by decide)) .nil
  have hboth :=
    postBoth_toBoard hspells (.inr ⟨_, rfl⟩ : Percent.IsMore (Utf8.encode "&d=x".toList))
  have hread : Payload.messages? "[\"a b\"]" = some ["a b"] := by decide +kernel
  exact ⟨isFor_toBoard .., hboth.isForm, hboth, opens_board, hread,
    posted_of_form (isFor_toBoard ..) hboth.isForm⟩

/-- A payload of one message: so many letters. -/
def letters (n : Nat) : String :=
  String.ofList ('[' :: '"' :: (List.replicate n 'a' ++ ['"', ']']))

theorem messages?_letters (n : Nat) :
    Payload.messages? (letters n) = some [String.ofList (List.replicate n 'a')] := by
  have hescape : (List.replicate n 'a').flatMap Quoted.escape = List.replicate n 'a' := by
    induction n with
    | zero => rfl
    | succ n ih =>
      rw [List.replicate_succ, List.flatMap_cons, ih]
      rfl
  rw [← Payload.messages?_batch]
  simp [letters, Frame.batchJson, Json.chars, Json.itemsChars, Quoted.write, hescape]

theorem encode_letters (n : Nat) :
    Utf8.encode (letters n).toList = [0x5B, 0x22] ++ (List.replicate n 0x61 ++ [0x22, 0x5D]) := by
  have hletters : Utf8.encode (List.replicate n 'a') = List.replicate n 0x61 := by
    induction n with
    | zero => rfl
    | succ n ih =>
      rw [List.replicate_succ, List.replicate_succ, ← ih]
      rfl
  have hends : Utf8.encode ['"', ']'] = [0x22, 0x5D] := by decide
  rw [letters, String.toList_ofList, ← hends, ← hletters]
  simp only [Utf8.encode, List.flatMap_cons, List.flatMap_append]
  rfl

/-- The letters in a form, each as an escape. -/
def escapedLetters (n : Nat) : Bytes :=
  [0x5B, 0x22] ++ ((List.replicate n [0x25, 0x36, 0x31]).flatten ++ [0x22, 0x5D])

theorem spells_letters (n : Nat) :
    Percent.Spells (escapedLetters n) (Utf8.encode (letters n).toList) := by
  have hletters : Percent.Spells (List.replicate n [0x25, 0x36, 0x31]).flatten
      (List.replicate n 0x61) := by
    induction n with
    | zero => exact .nil
    | succ n ih =>
      rw [List.replicate_succ, List.replicate_succ, List.flatten_cons]
      exact .escape (.inl (by decide)) (.inl (by decide)) ih
  rw [encode_letters]
  refine .append ?_ (.append hletters ?_)
  · exact .literal (by decide) (by decide) (by decide)
      (.literal (by decide) (by decide) (by decide) .nil)
  · exact .literal (by decide) (by decide) (by decide)
      (.literal (by decide) (by decide) (by decide) .nil)

/-- The letters in a form in which each is an escape, and the letters as they are. -/
def lettersForm (n : Nat) : Request :=
  toBoard "jsonp_send" "application/x-www-form-urlencoded" (0x64 :: 0x3D :: escapedLetters n ++ [])

def lettersPlain (n : Nat) : Request :=
  toBoard "jsonp_send" "text/plain" (Utf8.encode (letters n).toList)

theorem length_lettersForm (n : Nat) : (lettersForm n).body.length = 3 * n + 6 := by
  simp only [lettersForm, toBoard, escapedLetters, List.length_append, List.length_flatten,
    List.map_replicate, List.sum_replicate_nat, List.length_cons, List.length_nil]
  omega

theorem length_lettersPlain (n : Nat) : (lettersPlain n).body.length = n + 4 := by
  simp only [lettersPlain, toBoard, encode_letters, List.length_append, List.length_replicate,
    List.length_cons, List.length_nil]
  omega

theorem letters_ne (n : Nat) : letters n ≠ "" := by
  intro h
  have hlist := congrArg String.toList h
  rw [letters, String.toList_ofList] at hlist
  cases hlist

/-- Letters that are too many for the form, though not as they are, are refused in the form and
heard as they are. -/
theorem posts_apart {n : Nat} (hlong : maxBody < 3 * n + 6) (hshort : n + 4 ≤ maxBody) :
    letters n ≠ "" ∧ board.IsFor (lettersForm n) .callbackSend "s" ∧
      PostBoth (letters n) (lettersForm n) (lettersPlain n) ∧
      board.respond {} (lettersForm n) = (bodyTooLong, board) ∧
      ∃ session, board.Opens "s" 0 session ∧
        board.Hears 0 session .callbackSend [String.ofList (List.replicate n 'a')]
          (board.respond {} (lettersPlain n)) := by
  have hboth : PostBoth (letters n) (lettersForm n) (lettersPlain n) :=
    postBoth_toBoard (spells_letters n) (.inl rfl)
  have hform : board.IsFor (lettersForm n) .callbackSend "s" := isFor_toBoard ..
  obtain ⟨session, ho⟩ := opens_board
  obtain ⟨m, hm⟩ := hform.exists_respond_eq rfl
  have htakes := takes_respond (hform.congr hboth.alike) ho (hboth.carries (letters_ne n)).2
    (encode_ne_nil (letters_ne n)) (length_lettersPlain n ▸ hshort) {}
  rw [ofBytes?_encode, messages?_letters] at htakes
  refine ⟨letters_ne n, hform, hboth, ?_, session, ho, htakes⟩
  rw [hm (lettersForm n) (.refl _), length_lettersForm, if_pos hlong]

/-- **A spelling may be too long** where the text as it is would be heard. -/
theorem exists_posts_apart : letters 700000 ≠ "" ∧
    board.IsFor (lettersForm 700000) .callbackSend "s" ∧
    PostBoth (letters 700000) (lettersForm 700000) (lettersPlain 700000) ∧
    board.respond {} (lettersForm 700000) = (bodyTooLong, board) ∧
    ∃ session, board.Opens "s" 0 session ∧
      board.Hears 0 session .callbackSend [String.ofList (List.replicate 700000 'a')]
        (board.respond {} (lettersPlain 700000)) :=
  posts_apart (by decide) (by decide)

end Server

end Duplex
