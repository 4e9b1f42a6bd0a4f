/-
Duplex/Proofs/Http/Cookies.lean

The session cookie that is sent back.

A request may have any lines, and only those cookie lines are looked at that
can be read: visible ASCII, spaces and tabs.  Their parts between semicolons,
from one line after the other, are the candidates (`CookieParts`), and one is
the session cookie when nothing but blanks stands around its name, an equals
sign and its value (`IsCookie`).  The first of them is sent back, or a dummy
value if there is none (`Echoed`).

Nothing in such a value ends it: it has no semicolon and no control character
but tabs, so the line that is sent has two parts and is one line
(`sessionCookie_echoed`).
-/
import Duplex.Http.Policy
import Duplex.Proofs.Text.Pieces
import Duplex.Proofs.Text.Utf8

namespace Duplex

open Text

/-! ### Lines that can be read -/

/-- A visible ASCII character, a space or a tab. -/
def IsReadable (c : Char) : Prop := c = '\t' ∨ ' ' ≤ c ∧ c ≤ '~'

instance (c : Char) : Decidable (IsReadable c) := inferInstanceAs (Decidable (_ ∨ _))

/-- The characters of a text are gone through, and not all that there are. -/
theorem forall_mem_of_all {p : Char → Prop} [DecidablePred p] {cs : List Char}
    (h : cs.all (fun c => decide (p c)) = true) : ∀ c ∈ cs, p c := by
  intro c hc
  exact of_decide_eq_true (List.all_eq_true.mp h c hc)

namespace Header

/-- The value of the line is that text, and all of it can be read. -/
structure Holds (h : Header) (cs : List Char) : Prop where
  value : h.value = Utf8.encode cs
  readable : ∀ c ∈ cs, IsReadable c

theorem toNat_lt_of_isReadable {c : Char} (h : IsReadable c) : c.toNat < 127 := by
  rcases h with rfl | ⟨-, h⟩
  · decide
  · have h' : c.toNat ≤ '~'.toNat := h
    exact Nat.lt_of_le_of_lt h' (by decide)

/-- A readable character is one visible byte. -/
theorem isVisible_of_isReadable {c : Char} (h : IsReadable c) :
    isVisible (UInt8.ofNat c.toNat) = true ∧
      Char.ofNat (UInt8.ofNat c.toNat).toNat = c := by
  have hlt := toNat_lt_of_isReadable h
  have hb : (UInt8.ofNat c.toNat).toNat = c.toNat := by
    rw [UInt8.toNat_ofNat']
    omega
  rw [hb, Char.ofNat_toNat]
  refine ⟨?_, rfl⟩
  rcases h with rfl | ⟨hc, -⟩
  · decide
  · have hc' : 32 ≤ c.toNat := hc
    simp only [isVisible, Bool.or_eq_true, Bool.and_eq_true, decide_eq_true_eq,
      UInt8.le_iff_toNat_le, UInt8.lt_iff_toNat_lt, hb]
    exact .inl ⟨hc', hlt⟩

/-- A visible byte is one readable character. -/
theorem isReadable_of_isVisible {b : UInt8} (h : isVisible b = true) :
    IsReadable (Char.ofNat b.toNat) ∧ String.utf8EncodeChar (Char.ofNat b.toNat) = [b] := by
  have hlt : b.toNat < 127 := by
    simp only [isVisible, Bool.or_eq_true, Bool.and_eq_true, decide_eq_true_eq,
      UInt8.lt_iff_toNat_lt, beq_iff_eq] at h
    rcases h with ⟨-, h⟩ | rfl
    · exact h
    · decide
  have hc : (Char.ofNat b.toNat).toNat = b.toNat := Utf8.toNat_ofNat (.inl (by omega))
  constructor
  · simp only [isVisible, Bool.or_eq_true, Bool.and_eq_true, decide_eq_true_eq,
      UInt8.le_iff_toNat_le, beq_iff_eq] at h
    rcases h with ⟨h, -⟩ | rfl
    · refine .inr ⟨?_, ?_⟩
      · show 32 ≤ (Char.ofNat b.toNat).toNat
        rw [hc]
        exact h
      · show (Char.ofNat b.toNat).toNat ≤ 126
        omega
    · exact .inl rfl
  · rw [Utf8.encodeChar_one (by omega), hc, UInt8.ofNat_toNat]

/-- **A line is read as what it says.** -/
theorem text?_eq_some_iff {h : Header} {s : String} : h.text? = some s ↔ h.Holds s.toList := by
  obtain ⟨name, bytes⟩ := h
  constructor
  · intro ht
    simp only [text?] at ht
    split at ht
    · rename_i hall
      rw [← Option.some.inj ht, String.toList_ofList]
      rw [List.all_eq_true] at hall
      -- what is read is visible, so each byte is a character of its own
      refine ⟨?_, ?_⟩
      · show bytes = _
        rw [Utf8.encode, List.flatMap_map]
        clear ht
        induction bytes with
        | nil => rfl
        | cons b bytes ih =>
          obtain ⟨hb, hbytes⟩ := List.forall_mem_cons.mp hall
          rw [List.flatMap_cons, (isReadable_of_isVisible hb).2, ← ih hbytes]
          rfl
      · intro c hc
        obtain ⟨b, hb, rfl⟩ := List.mem_map.mp hc
        exact (isReadable_of_isVisible (hall b hb)).1
    · cases ht
  · rintro ⟨hvalue, hread⟩
    obtain rfl : bytes = Utf8.encode s.toList := hvalue
    -- a readable character is written as one byte
    have hbytes : Utf8.encode s.toList = s.toList.map fun c => UInt8.ofNat c.toNat := by
      rw [Utf8.encode, List.map_eq_flatMap]
      apply List.flatMap_congr
      intro c hc
      exact Utf8.encodeChar_one (Nat.lt_succ_of_lt (toNat_lt_of_isReadable (hread c hc)))
    have hall : (Utf8.encode s.toList).all isVisible = true := by
      rw [hbytes, List.all_map, List.all_eq_true]
      exact fun c hc => (isVisible_of_isReadable (hread c hc)).1
    have hback : (Utf8.encode s.toList).map (fun b => Char.ofNat b.toNat) = s.toList := by
      rw [hbytes, List.map_map]
      exact (List.map_congr_left fun c hc =>
        (isVisible_of_isReadable (hread c hc)).2).trans (List.map_id _)
    simp only [text?, hall, if_true, hback, String.ofList_toList]

end Header

namespace Headers

/-! ### Candidates -/

/-- The parts of the readable cookie lines, line after line. -/
inductive CookieParts : Headers → List (List Char) → Prop where
  | nil : CookieParts [] []
  | other {h : Header} {hs : Headers} {parts : List (List Char)} (name : h.name ≠ "cookie")
      (rest : CookieParts hs parts) : CookieParts (h :: hs) parts
  | unreadable {h : Header} {hs : Headers} {parts : List (List Char)} (none : ∀ cs, ¬ h.Holds cs)
      (rest : CookieParts hs parts) : CookieParts (h :: hs) parts
  | line {h : Header} {hs : Headers} {cs : List Char} {here parts : List (List Char)}
      (name : h.name = "cookie") (text : h.Holds cs) (splits : Splits ';' cs here)
      (rest : CookieParts hs parts) : CookieParts (h :: hs) (here ++ parts)

/-- Between its blanks the part is the session cookie, with that value. -/
def IsCookie (part value : List Char) : Prop :=
  Trims isBlank part ("JSESSIONID=".toList ++ value)

/-- What is sent back for the cookie lines of a request. -/
inductive Echoed (request : Headers) : List Char → Prop where
  | sent {before after : List (List Char)} {part value : List Char}
      (parts : CookieParts request (before ++ part :: after))
      (first : ∀ p ∈ before, ∀ v, ¬ IsCookie p v) (cookie : IsCookie part value) :
      Echoed request value
  | dummy {candidates : List (List Char)} (parts : CookieParts request candidates)
      (none : ∀ p ∈ candidates, ∀ v, ¬ IsCookie p v) : Echoed request "dummy".toList

/-- The parts of the readable cookie lines, as they are found. -/
def cookieParts (request : Headers) : List (List Char) :=
  ((request.all "cookie").filterMap Header.text?).flatMap fun s => pieces (· == ';') s.toList

theorem cookieParts_of_line {h : Header} {hs : Headers} (hn : h.name = "cookie") :
    cookieParts (h :: hs) =
      (h.text?.elim [] fun s => pieces (· == ';') s.toList) ++ cookieParts hs := by
  rw [cookieParts, all, List.filter_cons_of_pos (by simpa using hn), List.filterMap_cons]
  cases h.text? <;> rfl

theorem cookieParts_of_other {h : Header} {hs : Headers} (hn : h.name ≠ "cookie") :
    cookieParts (h :: hs) = cookieParts hs := by
  rw [cookieParts, all, List.filter_cons_of_neg (by simpa using hn)]
  rfl

theorem text?_eq_none {h : Header} (hs : ∀ cs, ¬ h.Holds cs) : h.text? = none :=
  Option.eq_none_iff_forall_ne_some.mpr fun _ ht => hs _ (Header.text?_eq_some_iff.mp ht)

/-- **A request has one row of candidates.** -/
theorem cookieParts_iff {request : Headers} {parts : List (List Char)} :
    CookieParts request parts ↔ cookieParts request = parts := by
  constructor
  · intro h
    induction h with
    | nil => rfl
    | other name _ ih => rw [cookieParts_of_other name, ih]
    -- a header that is no text has no part, whatever its name
    | @unreadable h _ _ none _ ih =>
      by_cases hn : h.name = "cookie"
      · rw [cookieParts_of_line hn, text?_eq_none none, ih]
        rfl
      · rw [cookieParts_of_other hn, ih]
    | @line h _ cs _ _ name text splits _ ih =>
      have ht : h.text? = some (String.ofList cs) :=
        Header.text?_eq_some_iff.mpr (by rwa [String.toList_ofList])
      rw [cookieParts_of_line name, ht, ih, Option.elim_some, String.toList_ofList,
        splits_iff.mp splits]
  · rintro rfl
    induction request with
    | nil => exact .nil
    | cons h hs ih =>
      by_cases hn : h.name = "cookie"
      · rw [cookieParts_of_line hn]
        rcases ht : h.text? with - | s
        · refine .unreadable (fun cs hcs => ?_) ih
          have hsome := Header.text?_eq_some_iff.mpr
            (show h.Holds (String.ofList cs).toList by rwa [String.toList_ofList])
          cases ht.symm.trans hsome
        · exact .line hn (Header.text?_eq_some_iff.mp ht) (splits_pieces _ _) ih
      · rw [cookieParts_of_other hn]
        exact .other hn ih

/-- No candidate holds a semicolon or anything that cannot be read. -/
theorem CookieParts.readable {request : Headers} {parts : List (List Char)}
    (h : CookieParts request parts) : ∀ part ∈ parts, ∀ c ∈ part, c ≠ ';' ∧ IsReadable c := by
  induction h with
  | nil => simp
  | other _ _ ih | unreadable _ _ ih => exact ih
  | line _ text splits _ ih =>
    intro part hpart c hc
    rcases List.mem_append.mp hpart with hpart | hpart
    · refine ⟨?_, text.readable c (splits.mem_of_mem hpart hc)⟩
      rintro rfl
      exact splits.apart part hpart hc
    · exact ih part hpart c hc

/-! ### The value that is sent -/

/-- The part has the name of the session cookie. -/
def isNamed (part : List Char) : Bool :=
  (cut (· == '=') (trim part)).any (·.1 == cookieName.toList)

theorem isCookie_iff {part value : List Char} :
    IsCookie part value ↔ cut (· == '=') (trim part) = some (cookieName.toList, value) := by
  have hname : '=' ∉ cookieName.toList := by decide
  rw [IsCookie, trims_iff, cut_eq_some_iff, and_iff_left hname]
  rfl

theorem isNamed_iff {part : List Char} : isNamed part = true ↔ ∃ v, IsCookie part v := by
  simp only [isNamed, isCookie_iff, Option.any_eq_true, beq_iff_eq]
  constructor
  · rintro ⟨⟨name, v⟩, h, rfl⟩
    exact ⟨v, h⟩
  · rintro ⟨v, h⟩
    exact ⟨_, h, rfl⟩

theorem clientCookie?_eq (request : Headers) : clientCookie? request =
    (((cookieParts request).find? isNamed).bind fun part =>
      cut (· == '=') (trim part)).map fun pair => String.ofList pair.2 := by
  unfold isNamed
  rw [← List.find?_filterMap, cookieParts, List.filterMap_flatMap]
  rfl

/-- The first session cookie among the candidates is found. -/
theorem clientCookie?_of_first {request : Headers} {before after : List (List Char)}
    {part value : List Char} (hparts : cookieParts request = before ++ part :: after)
    (hfirst : ∀ p ∈ before, ∀ v, ¬ IsCookie p v) (hcookie : IsCookie part value) :
    clientCookie? request = some (String.ofList value) := by
  have hfind : (cookieParts request).find? isNamed = some part := by
    rw [List.find?_eq_some_iff_append]
    refine ⟨isNamed_iff.mpr ⟨value, hcookie⟩, before, after, hparts, fun p hp => ?_⟩
    rw [Bool.not_eq_true', ← Bool.not_eq_true, isNamed_iff]
    exact fun ⟨v, hv⟩ => hfirst p hp v hv
  rw [clientCookie?_eq, hfind, Option.bind_some, isCookie_iff.mp hcookie]
  rfl

theorem clientCookie?_of_none {request : Headers}
    (hnone : ∀ p ∈ cookieParts request, ∀ v, ¬ IsCookie p v) : clientCookie? request = none := by
  have hfind : (cookieParts request).find? isNamed = none := by
    rw [List.find?_eq_none]
    exact fun p hp h => (isNamed_iff.mp h).elim (hnone p hp)
  rw [clientCookie?_eq, hfind]
  rfl

/-- Some candidate is the first session cookie, or none is one. -/
theorem exists_echoed (request : Headers) : ∃ value, Echoed request value := by
  rcases hfind : (cookieParts request).find? isNamed with - | part
  · exact ⟨_, .dummy (cookieParts_iff.mpr rfl) fun p hp v hv =>
      List.find?_eq_none.mp hfind p hp (isNamed_iff.mpr ⟨v, hv⟩)⟩
  · obtain ⟨hpart, before, after, hparts, hbefore⟩ := List.find?_eq_some_iff_append.mp hfind
    obtain ⟨value, hvalue⟩ := isNamed_iff.mp hpart
    refine ⟨value, .sent (cookieParts_iff.mpr hparts) (fun p hp v hv => ?_) hvalue⟩
    have hnot := hbefore p hp
    rw [isNamed_iff.mpr ⟨v, hv⟩] at hnot
    cases hnot

/-- The value that is sent back to a client. -/
def echo (request : Headers) : List Char := ((clientCookie? request).getD dummyCookie).toList

theorem Echoed.echo_eq {request : Headers} {value : List Char} (h : Echoed request value) :
    echo request = value := by
  cases h with
  | sent parts first cookie =>
    rw [echo, clientCookie?_of_first (cookieParts_iff.mp parts) first cookie, Option.getD_some,
      String.toList_ofList]
  | dummy parts none =>
    rw [echo, clientCookie?_of_none (cookieParts_iff.mp parts ▸ none)]
    rfl

/-- **What is sent back is the value of the first session cookie**, or the dummy one. -/
theorem echoed_iff {request : Headers} {value : List Char} :
    Echoed request value ↔ echo request = value := by
  refine ⟨Echoed.echo_eq, ?_⟩
  rintro rfl
  obtain ⟨value, h⟩ := exists_echoed request
  rwa [h.echo_eq]

/-- Nothing in the value ends it. -/
theorem Echoed.readable {request : Headers} {value : List Char} (h : Echoed request value) :
    ∀ c ∈ value, c ≠ ';' ∧ IsReadable c := by
  cases h with
  | @sent before after part _ parts first cookie =>
    obtain ⟨front, back, hpart, -, -⟩ := cookie.split
    intro c hc
    exact parts.readable part (by simp) c (by simp [hpart, hc])
  | dummy => exact forall_mem_of_all (by decide)

/-! ### The line that is sent -/

/-- The text of the line that sets the session cookie to a value. -/
def cookieLine (value : List Char) : List Char :=
  "JSESSIONID=".toList ++ value ++ "; path=/".toList

/-- The lines `out` are the lines `hs` but that the session cookie is set to the value, once. -/
structure Sets (value : List Char) (hs out : Headers) : Prop where
  line : ∃ h, out.all "set-cookie" = [h] ∧ h.Holds (cookieLine value)
  others : out.without "set-cookie" = hs.without "set-cookie"

theorem all_put (hs : Headers) (h : Header) : (hs.put h).all h.name = [h] := by
  simp [put, all, without]

theorem without_put (hs : Headers) (h : Header) :
    (hs.put h).without h.name = hs.without h.name := by
  simp [put, without]

theorem put_put {hs : Headers} {h h' : Header} (hn : h'.name = h.name) :
    (hs.put h).put h' = hs.put h' := by
  rw [put, hn, without_put, put, hn]

theorem path_eq : "; path=/".toList = [';'] ++ " path=/".toList := by decide

/-- A semicolon ends the cookie, and the path follows. -/
theorem cookieLine_eq (value : List Char) : cookieLine value =
    [';'].intercalate ["JSESSIONID=".toList ++ value, " path=/".toList] := by
  have hjoin (a b : List Char) : [';'].intercalate [a, b] = a ++ ([';'] ++ b) := by
    rw [List.intercalate_cons_cons, List.intercalate_singleton, List.append_assoc]
  rw [hjoin, ← path_eq]
  rfl

/-- The line has two parts, and the second one is not the client's. -/
theorem splits_cookieLine {value : List Char} (h : ∀ c ∈ value, c ≠ ';') :
    Splits ';' (cookieLine value) ["JSESSIONID=".toList ++ value, " path=/".toList] := by
  have hname : ';' ∉ "JSESSIONID=".toList := by decide
  have hpath : ';' ∉ " path=/".toList := by decide
  have hvalue : ';' ∉ value := fun hmem => h ';' hmem rfl
  refine Splits.mk (List.cons_ne_nil _ _) (cookieLine_eq value) ?_
  rw [List.forall_mem_cons, List.forall_mem_singleton, List.mem_append, not_or]
  exact ⟨⟨hname, hvalue⟩, hpath⟩

theorem sessionCookie_eq {o : Options} (ho : o.insertCookie = true) (request hs : Headers) :
    sessionCookie o request hs =
      hs.put ⟨"set-cookie", Utf8.encode (cookieLine (echo request))⟩ := by
  have hline : (cookieName ++ "=" ++ (clientCookie? request).getD dummyCookie ++
      "; path=/").toList = cookieLine (echo request) := by
    rw [String.toList_append, String.toList_append, String.toList_append]
    rfl
  simp only [sessionCookie, if_pos ho, Header.ofText, hline]

/-- **The session cookie is sent back as it came, and carries nothing else.**  If the options ask
for it, one line sets the cookie: its value is that of the first session cookie of the request, or
the dummy one, and holds no semicolon and no control character but tabs, so that the line has no
part but the cookie and the path.  All other lines are left as they are, and doing it again changes
nothing.  If the options do not ask for it, all lines are left as they are. -/
theorem sessionCookie_echoed (o : Options) (request hs : Headers) :
    (o.insertCookie = false → sessionCookie o request hs = hs) ∧
    (o.insertCookie = true → ∃ value, (∀ v, Echoed request v ↔ v = value) ∧
      (∀ c ∈ value, c ≠ ';' ∧ (c = '\t' ∨ ' ' ≤ c ∧ c ≤ '~')) ∧
      Splits ';' (cookieLine value) ["JSESSIONID=".toList ++ value, " path=/".toList] ∧
      Sets value hs (sessionCookie o request hs) ∧
      sessionCookie o request (sessionCookie o request hs) = sessionCookie o request hs) := by
  refine ⟨fun ho => by simp [sessionCookie, ho], fun ho => ?_⟩
  have hecho : Echoed request (echo request) := echoed_iff.mpr rfl
  have hread := hecho.readable
  -- the value is readable, and what stands around it is too
  have hline : ∀ c ∈ cookieLine (echo request), IsReadable c := by
    have hname : ∀ c ∈ "JSESSIONID=".toList, IsReadable c := forall_mem_of_all (by decide)
    have hpath : ∀ c ∈ "; path=/".toList, IsReadable c := forall_mem_of_all (by decide)
    intro c hc
    rcases List.mem_append.mp hc with hc | hc
    · exact (List.mem_append.mp hc).elim (hname c) fun hc => (hread c hc).2
    · exact hpath c hc
  have hsets : Sets (echo request) hs (sessionCookie o request hs) := by
    rw [sessionCookie_eq ho]
    exact ⟨⟨_, all_put hs _, rfl, hline⟩, without_put hs _⟩
  refine ⟨echo request, fun v => echoed_iff.trans eq_comm, hread,
    splits_cookieLine fun c hc => (hread c hc).1, hsets, ?_⟩
  rw [sessionCookie_eq ho, sessionCookie_eq ho]
  exact put_put rfl

/-- A visit with a cookie line that cannot be read, a part without an equals sign, a cookie of
another name, and the session cookie twice. -/
def visit : Headers :=
  [⟨"cookie", Utf8.encode "JSESSIONID=a\x00b".toList⟩,
    ⟨"cookie", Utf8.encode "JSESSIONID; JSESSIONIDS=c".toList⟩, ⟨"host", []⟩,
    ⟨"cookie", Utf8.encode "d=e; \tJSESSIONID=f\tg=h ;JSESSIONID=i".toList⟩]

theorem sessionCookie_echoed_visit :
    Sets "f\tg=h".toList [⟨"set-cookie", []⟩, ⟨"vary", []⟩]
      (sessionCookie { insertCookie := true } visit [⟨"set-cookie", []⟩, ⟨"vary", []⟩]) := by
  obtain ⟨value, hiff, -, -, hsets, -⟩ :=
    (sessionCookie_echoed { insertCookie := true } visit [⟨"set-cookie", []⟩, ⟨"vary", []⟩]).2 rfl
  have hvalue := (hiff "f\tg=h".toList).mp (echoed_iff.mpr (by decide +kernel))
  rwa [hvalue]

end Headers

end Duplex
