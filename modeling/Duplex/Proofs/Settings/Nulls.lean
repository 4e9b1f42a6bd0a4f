/-
Duplex/Proofs/Settings/Nulls.lean

Nulls in a value that is laid over another one.

`Json.strip` leaves out every null member, however deep it stands in objects.
What is laid over a value changes nothing by such members where they meet an
object,

    merge t s = merge t s.strip  ↔  t has an object wherever s has one with a null member,

and everywhere else the null comes into the result (`nulls_of_merge`), as it
does when the whole upper value is null.  Settings do not show the difference:
what the defaults hold as objects are the sections, and whatever stands deeper
in a document is no setting at all, be it null or an object.
-/
import Duplex.Proofs.Settings.Layering

namespace Duplex

namespace Json

/-! ### Values without nulls -/

mutual

/-- The value without its null members and those of the objects in it. Arrays stay as they are. -/
def strip : Json → Json
  | .object members => .object (stripMembers members)
  | v => v

/-- Members without null ones, each one stripped. -/
def stripMembers : List (String × Json) → List (String × Json)
  | [] => []
  | (key, v) :: rest =>
    if v.isNull then stripMembers rest else (key, v.strip) :: stripMembers rest

end

theorem stripMembers_eq (ms : List (String × Json)) :
    stripMembers ms = (nonNull ms).map fun m => (m.1, m.2.strip) := by
  induction ms with
  | nil => rw [stripMembers]; rfl
  | cons m ms ih =>
    obtain ⟨key, v⟩ := m
    cases hv : v.isNull <;> simp [stripMembers, nonNull, hv, ih]

@[simp] theorem isNull_strip (v : Json) : v.strip.isNull = v.isNull := by
  cases v <;> simp [strip, isNull]

theorem strip_of_not_object {s : Json} (hs : ∀ members, s ≠ .object members) : s.strip = s := by
  cases s <;> simp_all [strip]

theorem keys_stripMembers (ms : List (String × Json)) :
    keys (stripMembers ms) = keys (nonNull ms) := by
  rw [stripMembers_eq]
  exact keys_map (fun _ v => v.strip) _

theorem nonNull_stripMembers (ms : List (String × Json)) :
    nonNull (stripMembers ms) = stripMembers ms := by
  refine List.filter_eq_self.2 fun m hm => ?_
  rw [stripMembers_eq] at hm
  obtain ⟨n, hn, rfl⟩ := List.mem_map.1 hm
  simpa using (List.mem_filter.1 hn).2

theorem lookup_stripMembers {ms : List (String × Json)} (once : (keys ms).Nodup) (key : String) :
    (stripMembers ms).lookup key = ((ms.lookup key).filter fun v => !v.isNull).map strip := by
  rw [stripMembers_eq, ← lookup_nonNull once]
  exact lookup_map (fun _ v => v.strip) _ key

theorem single_strip {s : Json} (hs : s.Single) : s.strip.Single := by
  induction hs with
  | @object members once parts ih =>
    rw [strip]
    refine .object (by rw [keys_stripMembers]; exact nodup_nonNull once) fun m hm => ?_
    rw [stripMembers_eq] at hm
    obtain ⟨n, hn, rfl⟩ := List.mem_map.1 hm
    exact ih n (List.mem_of_mem_filter hn)
  | array parts =>
    rw [strip_of_not_object (by simp)]
    exact .array parts
  | _ => constructor

/-- **A stripped value has what the value has, except nulls.** -/
theorem at?_strip {s : Json} (hs : s.Single) (hnull : s.isNull = false) (p : List String) :
    s.strip.at? p = ((s.at? p).filter fun v => !v.isNull).map strip := by
  induction p generalizing s with
  | nil => simp [Option.filter, hnull]
  | cons key p ih =>
    cases s with
    | object members =>
      obtain - | - | - | - | - | ⟨once, parts⟩ := hs
      rw [at?_cons, at?_cons, strip]
      simp only [get?, lookup_stripMembers once]
      cases hv : members.lookup key with
      | none => rfl
      | some v =>
        cases hvnull : v.isNull with
        | false => simpa [Option.filter, hvnull] using ih (parts _ (mem_of_lookup hv)) hvnull
        | true =>
          obtain rfl : v = .null := by cases v <;> simp_all [isNull]
          cases p <;> simp [Option.filter, isNull, at?, get?]
    | _ => rfl

/-- No member inside the value is null. -/
def NullFree (s : Json) : Prop := ∀ q key, s.at? (q ++ [key]) ≠ some .null

theorem nullFree_of_not_object {s : Json} (hs : ∀ members, s ≠ .object members) : s.NullFree := by
  intro q key
  have hget (key : String) : s.get? key = none := by cases s <;> simp_all [get?]
  cases q <;> simp [at?, hget]

theorem nullFree_object {members : List (String × Json)} (once : (keys members).Nodup) :
    (object members).NullFree ↔ ∀ m ∈ members, m.2.isNull = false ∧ m.2.NullFree := by
  constructor
  · intro h m hm
    refine ⟨?_, fun q key hq => h (m.1 :: q) key ((at?_cons_of_mem once hm _).trans hq)⟩
    cases hv : m.2 with
    | null => exact absurd ((at?_cons_of_mem once hm []).trans (congrArg some hv)) (h [] m.1)
    | _ => rfl
  · intro h q key hq
    cases q with
    | nil =>
      obtain ⟨v, hv, hnull⟩ := Option.bind_eq_some_iff.1 hq
      have := (h _ (mem_of_lookup hv)).1
      simp_all [isNull]
    | cons k q =>
      obtain ⟨v, hv, hq⟩ := Option.bind_eq_some_iff.1 hq
      exact (h _ (mem_of_lookup hv)).2 q key hq

theorem strip_eq_self_iff {s : Json} (hs : s.Single) : s.strip = s ↔ s.NullFree := by
  constructor
  · intro h q key hq
    cases hnull : s.isNull with
    | true => cases q <;> cases s <;> simp_all [isNull, at?, get?]
    | false =>
      have hstrip := at?_strip hs hnull (q ++ [key])
      rw [h, hq] at hstrip
      simp [Option.filter, isNull] at hstrip
  · intro h
    induction hs with
    | @object members once parts ih =>
      rw [nullFree_object once] at h
      have hall : nonNull members = members :=
        List.filter_eq_self.2 fun m hm => by simp [(h m hm).1]
      rw [strip, stripMembers_eq, hall]
      refine congrArg object ((List.map_congr_left fun m hm => ?_).trans (List.map_id _))
      rw [ih m hm (h m hm).2]
      rfl
    | _ => rw [strip_of_not_object (by simp)]

/-! ### Nulls that are passed over -/

theorem isNull_of_at? {v u : Json} {q : List String} {key : String}
    (h : v.at? (q ++ [key]) = some u) : v.isNull = false := by
  cases v with
  | null => exact absurd (at?_null h).1 (by simp)
  | _ => rfl

/-- Wherever the upper value has an object with a null member, the lower one has an object. -/
def Covers (t s : Json) : Prop := ∀ q key, s.at? (q ++ [key]) = some .null → t.HasObject q

theorem covers_of_not_object {t : Json} (ht : ∀ members, t ≠ .object members) (s : Json) :
    t.Covers s ↔ s.NullFree :=
  forall_congr' fun q => forall_congr' fun _ =>
    ⟨fun h hq => not_hasObject ht q (h hq), fun h hq => absurd hq h⟩

theorem covers_object {below above : List (String × Json)} (once : (keys above).Nodup) :
    (object below).Covers (object above) ↔ ∀ m ∈ above,
      (below.lookup m.1 = none → m.2.isNull = false → m.2.NullFree) ∧
      ∀ w, below.lookup m.1 = some w → w.Covers m.2 := by
  constructor
  · intro h m hm
    have hcons (q : List String) (key : String) (hq : m.2.at? (q ++ [key]) = some .null) :
        ∃ w, below.lookup m.1 = some w ∧ w.HasObject q :=
      hasObject_cons.1 (h (m.1 :: q) key ((at?_cons_of_mem once hm _).trans hq))
    refine ⟨fun hnone _ q key hq => ?_, fun w hw q key hq => ?_⟩
    -- a null under an absent key has no object of below over it
    · obtain ⟨w, hw, -⟩ := hcons q key hq
      rw [hnone] at hw
      cases hw
    · obtain ⟨w', hw', hq⟩ := hcons q key hq
      obtain rfl : w = w' := Option.some.inj (hw.symm.trans hw')
      exact hq
  · intro h q key hq
    cases q with
    | nil => exact hasObject_nil.2 ⟨below, rfl⟩
    | cons k q =>
      -- the way to the null begins with a member of above
      obtain ⟨v, hv, hq⟩ := Option.bind_eq_some_iff.1 hq
      obtain ⟨hnone, hsome⟩ := h _ (mem_of_lookup hv)
      rw [hasObject_cons]
      cases hw : below.lookup k with
      | some w => exact ⟨w, hw, hsome w hw q key hq⟩
      | none =>
        exact absurd hq (hnone hw (isNull_of_at? hq) q key)

/-- Stripped members are laid alike exactly if each one of them is. -/
theorem mergeMembers_strip_iff {above : List (String × Json)} (once : (keys above).Nodup)
    (below : List (String × Json)) :
    mergeMembers below (stripMembers above) = mergeMembers below above ↔ ∀ m ∈ above,
      (below.lookup m.1 = none → m.2.isNull = false → m.2.strip = m.2) ∧
      ∀ w, below.lookup m.1 = some w → m.2.isNull = false → merge w m.2.strip = merge w m.2 := by
  constructor
  · intro h m hm
    -- looked up by key, the two merges say what each member says
    have hlook := congrArg (List.lookup m.1) h
    have hkeys : (keys (stripMembers above)).Nodup := by
      rw [keys_stripMembers]
      exact nodup_nonNull once
    rw [lookup_mergeMembers once, lookup_mergeMembers hkeys, nonNull_stripMembers,
      lookup_stripMembers once, lookup_nonNull once, lookup_of_mem once hm] at hlook
    refine ⟨fun hnone hnull => ?_, fun w hw hnull => ?_⟩
    · simpa [Option.filter, hnull, hnone] using hlook
    · simpa [Option.filter, hnull, hw] using hlook
  · intro h
    induction above generalizing below with
    | nil => rw [stripMembers]
    | cons m above ih =>
      obtain ⟨key, v⟩ := m
      obtain ⟨hkey, once⟩ : key ∉ keys above ∧ (keys above).Nodup := List.nodup_cons.1 once
      rw [List.forall_mem_cons] at h
      rw [stripMembers, mergeMembers]
      cases hnull : v.isNull with
      | true => exact ih once below h.2
      | false =>
        -- the member that is put in now is none of those that come later
        have hput (u : Json) (m : String × Json) (hm : m ∈ above) :
            (insert key u below).lookup m.1 = below.lookup m.1 :=
          lookup_insert_of_ne (ne_of_mem_of_not_mem (List.mem_map_of_mem hm) hkey) u below
        have hrest (u : Json) := ih once (insert key u below) fun m hm => by
          rw [hput u m hm]
          exact h.2 m hm
        simp only [mergeMembers, isNull_strip, hnull, Bool.false_eq_true, if_false]
        cases hw : below.lookup key with
        | none =>
          have hself : v.strip = v := h.1.1 hw hnull
          simpa only [hself] using hrest v
        | some w =>
          have hself : merge w v.strip = merge w v := h.1.2 w hw hnull
          simpa only [hself] using hrest (merge w v)

/-- **Null members change nothing exactly where they meet objects.** -/
theorem merge_strip_iff {s : Json} (hs : s.Single) (t : Json) :
    merge t s.strip = merge t s ↔ t.Covers s := by
  induction hs generalizing t with
  | @object above once parts ih =>
    by_cases ht : ∀ members, t ≠ .object members
    · rw [strip, merge_of_flat ht, merge_of_flat ht, covers_of_not_object ht, ← strip,
        strip_eq_self_iff (.object once parts)]
    · obtain ⟨below, rfl⟩ : ∃ below, t = .object below := by simpa using ht
      rw [strip, merge, merge, object.injEq, mergeMembers_strip_iff once, covers_object once]
      refine forall_congr' fun m => forall_congr' fun hm => and_congr ?_ ?_
      · exact forall_congr' fun _ => forall_congr' fun _ => strip_eq_self_iff (parts m hm)
      · refine forall_congr' fun w => forall_congr' fun _ => ?_
        rw [ih m hm w]
        -- a null has nothing in it that would have to be covered
        refine ⟨fun h => ?_, fun h _ => h⟩
        cases hv : m.2 with
        | null => exact fun q key hq => absurd (at?_null hq).1 (by simp)
        | _ => exact hv ▸ h (by rw [hv]; rfl)
  | _ =>
    rw [strip_of_not_object (by simp)]
    refine iff_of_true rfl fun q key hq => ?_
    exact absurd hq (nullFree_of_not_object (by simp) q key)

/-- Where a null meets an object, there is what the object has. -/
theorem at?_merge_of_null {s t : Json} (hs : s.Single) {q : List String} {key : String}
    (h : s.at? (q ++ [key]) = some .null) (ht : t.HasObject q) :
    (merge t s).at? (q ++ [key]) = t.at? (q ++ [key]) := by
  have hnull (v : Json) (hv : s.at? (q ++ [key]) = some v) : v = .null :=
    Option.some.inj (hv.symm.trans h)
  have hin (front : List String) (hf : front <+: q ++ [key]) (hne : front ≠ q ++ [key]) :
      t.HasObject front ∧ s.HasObject front := by
    have hq : front <+: q := (List.prefix_concat_iff.1 hf).resolve_left hne
    exact ⟨ht.of_isPrefix hq, (hasObject_of_at?_append h).of_isPrefix hq⟩
  simpa using at?_merge_of_none hs (by simp) hnull hin []

/-- Where a null meets no object, it comes into the result. -/
theorem at?_merge_of_null_of_not {s t : Json} (hs : s.Single) {q : List String} {key : String}
    (h : s.at? (q ++ [key]) = some .null) (ht : ¬ t.HasObject q) :
    (merge t s).at? (q ++ [key]) = some .null := by
  induction q generalizing s t with
  | nil => rwa [merge_of_flat (by simpa [hasObject_nil] using ht)]
  | cons k q ih =>
    obtain ⟨v, hv, hq⟩ := Option.bind_eq_some_iff.1 h
    have hnull : v.isNull = false := isNull_of_at? hq
    rw [List.cons_append, at?_cons, get?_merge_of_some hs hv hnull]
    cases hw : t.get? k with
    | none => exact hq
    | some w => exact ih (hs.get? hv) hq fun hobj => ht (hasObject_cons.2 ⟨w, hw, hobj⟩)

end Json

/-! ### Settings -/

namespace Record

variable {α : Type}

/-- Members changed in two ways are read alike if each field reads its own member alike. -/
theorem ofTree?_map_congr {fields : List (Field α)} (hap : fields.Pairwise Field.Apart)
    {members : List (String × Json)} (once : (Json.keys members).Nodup)
    (g g' : String → Json → Json)
    (h : ∀ f ∈ fields, ∀ u, members.lookup f.name = some u →
      f.set? (Tree.ofJson (g f.name u)) = f.set? (Tree.ofJson (g' f.name u))) (a : α) :
    ofTree? fields a (Tree.ofJson (.object (members.map fun m => (m.1, g m.1 m.2)))) =
      ofTree? fields a (Tree.ofJson (.object (members.map fun m => (m.1, g' m.1 m.2)))) := by
  rw [ofTree?_object hap (by rwa [Json.keys_map]), ofTree?_object hap (by rwa [Json.keys_map])]
  refine ofParts?_layered hap fun f hf => .inl fun b => ?_
  rw [Json.lookup_map, Json.lookup_map]
  cases hu : members.lookup f.name with
  | none => rfl
  | some u => exact congrFun (h f hf u hu) b

/-- The fields of a record read no objects. -/
def ReadsFlat (fields : List (Field α)) : Prop :=
  ∀ f ∈ fields, ∀ members members',
    f.set? (Tree.ofJson (.object members)) = f.set? (Tree.ofJson (.object members'))

/-- A section is read alike with and without the nulls in it. -/
theorem ofTree?_dropNulls_strip {fields : List (Field α)} (hap : fields.Pairwise Field.Apart)
    (hflat : ReadsFlat fields) {u : Json} (hu : u.Single) (a : α) :
    ofTree? fields a (Tree.ofJson u.strip.dropNulls) =
      ofTree? fields a (Tree.ofJson u.dropNulls) := by
  cases hu with
  | @object members once parts =>
    have hread := ofTree?_map_congr hap (Json.nodup_nonNull once) (fun _ v => v.strip)
      (fun _ v => v) (fun f hf v _ => ?_) a
    · rw [Json.strip, Json.dropNulls, Json.dropNulls, Json.nonNull_stripMembers,
        Json.stripMembers_eq]
      simpa using hread
    · by_cases hv : ∀ inner, v ≠ .object inner
      · rw [Json.strip_of_not_object hv]
      · obtain ⟨inner, rfl⟩ : ∃ inner, v = .object inner := by simpa using hv
        rw [Json.strip]
        exact hflat f hf _ _
  | _ => rfl

end Record

theorem Binding.readsFlat : Record.ReadsFlat fields := by
  intro f hf members members'
  simp only [fields, List.mem_cons, List.not_mem_nil, or_false] at hf
  rcases hf with rfl | rfl <;> rfl

theorem Options.readsFlat : Record.ReadsFlat fields := by
  intro f hf members members'
  simp only [fields, List.mem_cons, List.not_mem_nil, or_false] at hf
  rcases hf with rfl | rfl | rfl | rfl | rfl <;> rfl

theorem Logging.readsFlat : Record.ReadsFlat fields := by
  intro f hf members members'
  simp only [fields, List.mem_cons, List.not_mem_nil, or_false] at hf
  rcases hf with rfl | rfl <;> rfl

namespace Settings

/-- A field that reads a record does so with and without the nulls in it. -/
theorem section_strip {α : Type} {inner : List (Field α)} (hap : inner.Pairwise Field.Apart)
    (hflat : Record.ReadsFlat inner) (a : α) (name : String) (put : α → Settings → Settings)
    {u : Json} (hu : u.Single) :
    (Field.of name (Record.ofTree? inner a) put).set? (Tree.ofJson u.strip.dropNulls) =
      (Field.of name (Record.ofTree? inner a) put).set? (Tree.ofJson u.dropNulls) := by
  simp only [Field.of, Record.ofTree?_dropNulls_strip hap hflat hu]

theorem ofTree?_withoutNulls_strip {v : Json} (hv : v.Single) :
    ofTree? (Tree.ofJson v.strip.withoutNulls) = ofTree? (Tree.ofJson v.withoutNulls) := by
  cases hv with
  | @object members once parts =>
    have hread := Record.ofTree?_map_congr apart (Json.nodup_nonNull once)
      (fun name u => Json.sectionWithoutNulls name u.strip) Json.sectionWithoutNulls
      (fun f hf u hu => ?_) {}
    · rw [Json.strip, Json.withoutNulls, Json.nonNull_stripMembers, Json.stripMembers_eq,
        List.map_map]
      exact hread
    · have hsingle : u.Single := parts _ (List.mem_of_mem_filter (Json.mem_of_lookup hu))
      simp only [fields, List.mem_cons, List.not_mem_nil, or_false] at hf
      obtain rfl | rfl | rfl := hf
      · exact section_strip Binding.apart Binding.readsFlat _ "server" _ hsingle
      · exact section_strip Options.apart Options.readsFlat _ "sockjs" _ hsingle
      · exact section_strip Logging.apart Logging.readsFlat _ "logging" _ hsingle
  | _ => rfl

/-- **Null members of a document change no setting.** -/
theorem ofJson?_strip {v : Json} (hv : v.Single) : ofJson? v.strip = ofJson? v := by
  simp only [ofJson?, ofTree?_merge hv, ofTree?_merge (Json.single_strip hv),
    ofTree?_withoutNulls_strip hv]

end Settings

namespace Json

/-! ### What nulls do -/

/-- What the nulls of `s` do when `s` is laid over `t`. -/
structure Nulls (t s : Json) : Prop where
  alone_iff : merge t .null = t ↔ t = .null
  same_iff : merge t s = merge t s.strip ↔
    ∀ q key, s.at? (q ++ [key]) = some .null → t.HasObject q
  passed : ∀ q key, s.at? (q ++ [key]) = some .null → t.HasObject q →
    (merge t s).at? (q ++ [key]) = t.at? (q ++ [key])
  put : ∀ q key, s.at? (q ++ [key]) = some .null → ¬ t.HasObject q →
    (merge t s).at? (q ++ [key]) = some .null
  settings : Settings.ofJson? s = Settings.ofJson? s.strip

/-- **A null is passed over where it meets an object, and only there.**  The members that are null
may be left out exactly if each of them stands in an object that is laid over an object; a null
that is a whole value or meets anything else comes into the result. -/
theorem nulls_of_merge {s : Json} (hs : s.Single) (t : Json) : Nulls t s where
  alone_iff := by
    rw [merge_of_not_object (by simp)]
    exact eq_comm
  same_iff := by
    rw [eq_comm]
    exact merge_strip_iff hs t
  passed _ _ h ht := at?_merge_of_null hs h ht
  put _ _ h ht := at?_merge_of_null_of_not hs h ht
  settings := (Settings.ofJson?_strip hs).symm

/-- The null of `overlay` meets an object, so it may be left out. -/
theorem nulls_of_overlay : overlay.Single ∧ Nulls underlay overlay ∧
    overlay.at? ["a", "b"] = some .null ∧ underlay.HasObject ["a"] :=
  ⟨single_overlay, nulls_of_merge single_overlay underlay, by rfl, _, by rfl⟩

/-- An object in which a null stands one level down. -/
def deepNull : Json := .object [("a", .object [("b", .null)])]

/-- **Nulls may replace values and come where nothing was**: a null over an object leaves null, of
which no settings can be read, and one in an object that meets nothing stays. -/
theorem null_comes_through :
    merge (.object [("a", .nat 1)]) .null ≠ .object [("a", .nat 1)] ∧
      Settings.ofJson? .null = none ∧
      merge (.object []) deepNull ≠ merge (.object []) deepNull.strip := by
  refine ⟨by simp [merge], by rfl, ?_⟩
  have hnull : deepNull.at? (["a"] ++ ["b"]) = some .null := by rfl
  have hsingle : deepNull.Single :=
    .object (by decide) (List.forall_mem_singleton.2
      (.object (by decide) (List.forall_mem_singleton.2 .null)))
  intro h
  obtain ⟨members, hmembers⟩ := (merge_strip_iff hsingle _).1 h.symm ["a"] "b" hnull
  cases hmembers

end Json

end Duplex
