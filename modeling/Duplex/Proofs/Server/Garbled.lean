/-
Duplex/Proofs/Server/Garbled.lean

What becomes of bytes that are no text.

A session takes texts.  Bytes that no text is written as close it where they
come as they are, be it to `send` or to `callbackSend`.  In a form they never
arrive: the reader of forms puts U+FFFD where they are no text, and what is
looked at is the text that it made.  So they close the session exactly when
they came as they are, or when that text is no payload (`garbled_of_offers`);
otherwise the session hears it (`exists_garbled_heard`).
-/
import Duplex.Proofs.Server.Posting

namespace Duplex

open Text

namespace Server

variable {s : Server} {r : Request} {id : String} {resource : Resource} {bytes : Bytes} {k : Nat}
  {session : Session Conduit}

/-! ### What is offered and what arrives -/

/-- The bytes that a request gives to a resource, be they a text or not. -/
inductive Offers (r : Request) : Resource → Bytes → Prop
  | send : Offers r .send r.body
  | plain (h : mediaType? r = some "text/plain") : Offers r .callbackSend r.body
  | form {e bytes tail : Bytes} (h : IsForm r) (spells : Percent.Spells e bytes)
      (more : Percent.IsMore tail) (body : r.body = 0x64 :: 0x3D :: e ++ tail) :
      Offers r .callbackSend bytes

/-- The bytes that arrive: from a form those of the text that its reader made of them. -/
def arriving (r : Request) (resource : Resource) (bytes : Bytes) : Bytes :=
  if resource = .callbackSend ∧ IsForm r then Utf8.encode (Utf8.decodeLossy bytes) else bytes

theorem Offers.carries (h : Offers r resource bytes) (hne : bytes ≠ []) :
    r.Carries resource (arriving r resource bytes) := by
  unfold arriving
  cases h with
  | send =>
    rw [if_neg (by simp)]
    exact .send
  | plain hm =>
    rw [if_neg (by simp [IsForm, hm])]
    refine .plain hm ?_
    rw [payload, if_neg (by simpa using hne)]
    rfl
  | form hm spells more body =>
    rw [if_pos ⟨rfl, hm⟩]
    refine .form hm ?_
    rw [body, payload_of_spelt spells more hne]

theorem takesBody_of_offers (h : Offers r resource bytes) : takesBody resource = true := by
  cases h <;> rfl

theorem encode_decodeLossy_ne_nil (h : ∀ t : String, bytes ≠ Utf8.encode t.toList) :
    Utf8.encode (Utf8.decodeLossy bytes) ≠ [] := by
  have hmem := Utf8.replacement_mem_decodeLossy (Utf8.text?_eq_none_iff.mpr h)
  rw [← String.toList_ofList (l := Utf8.decodeLossy bytes)] at hmem ⊢
  apply encode_ne_nil
  intro he
  rw [he] at hmem
  cases hmem

/-! ### What follows -/

/-- What bytes that are no text come to, offered by a request to session `k`. -/
structure Garbled (s : Server) (k : Nat) (session : Session Conduit) (resource : Resource)
    (bytes : Bytes) (r : Request) : Prop where
  long : maxBody < r.body.length → ∀ c, s.respond c r = (bodyTooLong, s)
  /-- As they are they close the session. -/
  plain : r.body.length ≤ maxBody → ¬ (resource = .callbackSend ∧ IsForm r) → ∀ c,
    s.Breaks k session (s.respond c r)
  /-- A form is read as a text with U+FFFD in it, and that is what the session takes. -/
  form : r.body.length ≤ maxBody → resource = .callbackSend ∧ IsForm r →
    Utf8.replacement ∈ Utf8.decodeLossy bytes ∧ ∀ c,
      s.Takes k session resource
        (Payload.messages? (String.ofList (Utf8.decodeLossy bytes))) (s.respond c r)
  /-- So they close the session unless they come in a form and that text is a payload. -/
  breaks_iff : r.body.length ≤ maxBody → ∀ c,
    (s.Breaks k session (s.respond c r) ↔ (resource = .callbackSend ∧ IsForm r →
      Payload.messages? (String.ofList (Utf8.decodeLossy bytes)) = none))

theorem not_breaks_of_hears {messages : List String} {result : Response × Server}
    (h : s.Hears k session resource messages result) : ¬ s.Breaks k session result := by
  intro h'
  have hstatus := h.status.symm.trans h'.answer.1
  split at hstatus
  · cases hstatus
  · cases hstatus

/-- **Bytes that are no text close the session that they are for**, unless a form makes a payload
of them. -/
theorem garbled_of_offers (h : s.IsFor r resource id) (ho : s.Opens id k session)
    (hr : Offers r resource bytes) (hbytes : ∀ t : String, bytes ≠ Utf8.encode t.toList) :
    Garbled s k session resource bytes r := by
  have hne : bytes ≠ [] := hbytes ""
  have hcarries := hr.carries hne
  -- a body that is read strictly breaks off
  have plain (hle : r.body.length ≤ maxBody) (hp : ¬ (resource = .callbackSend ∧ IsForm r))
      (c : Circumstance) : s.Breaks k session (s.respond c r) := by
    rw [arriving, if_neg hp] at hcarries
    have htakes := takes_respond h ho hcarries hne hle c
    rwa [Payload.ofBytes?, Utf8.text?_eq_none_iff.mpr hbytes, Option.bind_none] at htakes
  -- one that is read as a form is taken, with the bytes that are no text replaced
  have form (hle : r.body.length ≤ maxBody) (hf : resource = .callbackSend ∧ IsForm r)
      (c : Circumstance) : s.Takes k session resource
        (Payload.messages? (String.ofList (Utf8.decodeLossy bytes))) (s.respond c r) := by
    rw [arriving, if_pos hf] at hcarries
    have htakes := takes_respond h ho hcarries (encode_decodeLossy_ne_nil hbytes) hle c
    rwa [← String.toList_ofList (l := Utf8.decodeLossy bytes), ofBytes?_encode] at htakes
  refine ⟨?long, ?plain, ?form, ?breaks⟩
  case long =>
    intro hlong c
    obtain ⟨m, hm⟩ := h.exists_respond_eq (takesBody_of_offers hr)
    rw [hm r (.refl r), if_pos hlong]
  case plain =>
    exact plain
  case form =>
    intro hle hf
    exact ⟨Utf8.replacement_mem_decodeLossy (Utf8.text?_eq_none_iff.mpr hbytes), form hle hf⟩
  case breaks =>
    intro hle c
    by_cases hf : resource = .callbackSend ∧ IsForm r
    · have htakes := form hle hf c
      rcases hread : Payload.messages? (String.ofList (Utf8.decodeLossy bytes)) with - | messages
      · rw [hread] at htakes
        exact ⟨fun _ _ => rfl, fun _ => htakes⟩
      · rw [hread] at htakes
        exact ⟨fun hb => absurd hb (not_breaks_of_hears htakes), fun hn => by cases hn hf⟩
    · exact ⟨fun _ hf' => absurd hf' hf, fun _ => plain hle hf c⟩

/-- Quotation marks around a byte that begins no character. -/
def noText : Bytes := [0x22, 0xFF, 0x22]

theorem noText_ne (t : String) : noText ≠ Utf8.encode t.toList :=
  Utf8.text?_eq_none_iff.mp (by decide) t

/-- As they are they close the session. -/
theorem garbled_of_noText : ∃ session, board.Opens "s" 0 session ∧
    board.IsFor (toBoard "jsonp_send" "text/plain" noText) .callbackSend "s" ∧
    Offers (toBoard "jsonp_send" "text/plain" noText) .callbackSend noText ∧
    (∀ t : String, noText ≠ Utf8.encode t.toList) ∧
    Garbled board 0 session .callbackSend noText (toBoard "jsonp_send" "text/plain" noText) := by
  obtain ⟨session, ho⟩ := opens_board
  have hoffers : Offers (toBoard "jsonp_send" "text/plain" noText) .callbackSend noText :=
    .plain (by decide +kernel)
  exact ⟨session, ho, isFor_toBoard .., hoffers, noText_ne,
    garbled_of_offers (isFor_toBoard ..) ho hoffers noText_ne⟩

/-- The same bytes in a form. -/
def noTextForm : Request :=
  toBoard "jsonp_send" "application/x-www-form-urlencoded" (Utf8.encode "d=%22%FF%22".toList)

/-- **A form may make a message of bytes that are no text**: the session hears U+FFFD and stays
open. -/
theorem exists_garbled_heard : ∃ session, board.Opens "s" 0 session ∧
    board.IsFor noTextForm .callbackSend "s" ∧ Offers noTextForm .callbackSend noText ∧
    (∀ t : String, noText ≠ Utf8.encode t.toList) ∧
    board.Hears 0 session .callbackSend ["\ufffd"] (board.respond {} noTextForm) ∧
    ¬ board.Breaks 0 session (board.respond {} noTextForm) := by
  obtain ⟨session, ho⟩ := opens_board
  have hform : IsForm noTextForm := by
    unfold IsForm
    decide +kernel
  have hspells : Percent.Spells (Utf8.encode "%22%FF%22".toList) noText :=
    .escape (.inl (by decide)) (.inl (by decide)) <|
    .escape (.inr (by decide)) (.inr (by decide)) <|
    .escape (.inl (by decide)) (.inl (by decide)) .nil
  have hoffers : Offers noTextForm .callbackSend noText :=
    .form hform hspells (.inl rfl) (by decide)
  have hcarries := hoffers.carries (by decide)
  rw [arriving, if_pos ⟨rfl, hform⟩] at hcarries
  have hread : Payload.ofBytes? (Utf8.encode (Utf8.decodeLossy noText)) = some ["\ufffd"] := by
    decide +kernel
  have htakes := takes_respond (isFor_toBoard ..) ho hcarries (by decide) (by decide) {}
  rw [hread] at htakes
  exact ⟨session, ho, isFor_toBoard .., hoffers, noText_ne, htakes, not_breaks_of_hears htakes⟩

end Server

end Duplex
