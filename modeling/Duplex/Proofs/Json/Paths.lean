/-
Duplex/Proofs/Json/Paths.lean

Values laid over values, path by path.

A path is a row of keys that leads from a value into the objects inside it
(`Json.at?`).  What a merge has at a path is decided where the two values are
no longer both objects:

    (merge t s).at? p = s.at? p                 if s has a value there, neither null nor an object,
    (merge t s).at? (q ++ p) = t.at? (q ++ p)   if s has nothing or null at q.

Each rule is one about a single key (`get?_merge_of_some`, `get?_merge_of_none`)
followed along the path.  A merge only has paths that one of its parts has, and
laying the same value over it again changes nothing (`merge_merge`), since a
value laid over itself is that value (`merge_self`).
-/
import Duplex.Json.Merge
import Duplex.Proofs.Json.Records

namespace Duplex

namespace Json

/-! ### One key -/

theorem lookup_map (g : String → Json → Json) (ms : List (String × Json)) (key : String) :
    (ms.map fun m => (m.1, g m.1 m.2)).lookup key = (ms.lookup key).map (g key) := by
  induction ms with
  | nil => rfl
  | cons m ms ih =>
    obtain ⟨k, v⟩ := m
    by_cases h : key = k
    · simp [h]
    · simp [List.lookup_cons, beq_eq_false_iff_ne.2 h, ih]

theorem keys_map (g : String → Json → Json) (ms : List (String × Json)) :
    keys (ms.map fun m => (m.1, g m.1 m.2)) = keys ms := by
  simp [keys, Function.comp_def]

/-- The members that are not null. -/
def nonNull (ms : List (String × Json)) : List (String × Json) := ms.filter fun m => !m.2.isNull

theorem nodup_nonNull {ms : List (String × Json)} (h : (keys ms).Nodup) :
    (keys (nonNull ms)).Nodup :=
  h.sublist (List.filter_sublist.map _)

theorem lookup_nonNull {ms : List (String × Json)} (h : (keys ms).Nodup) (key : String) :
    (nonNull ms).lookup key = (ms.lookup key).filter fun v => !v.isNull := by
  induction ms with
  | nil => rfl
  | cons m ms ih =>
    obtain ⟨k, v⟩ := m
    obtain ⟨hk, hms⟩ : k ∉ keys ms ∧ (keys ms).Nodup := List.nodup_cons.1 h
    by_cases hkey : key = k
    · subst hkey
      cases hv : v.isNull
      · simp [nonNull, hv, Option.filter]
      · have hnone : (nonNull ms).lookup key = none := by
          rw [ih hms, lookup_eq_none hk, Option.filter_none]
        simpa [nonNull, hv, Option.filter] using hnone
    · have hne : (key == k) = false := beq_eq_false_iff_ne.2 hkey
      have ih := ih hms
      cases hv : v.isNull <;>
        simpa [nonNull, hv, List.lookup_cons, hne] using ih

theorem nodup_mergeMembers {below : List (String × Json)} (h : (keys below).Nodup)
    (above : List (String × Json)) : (keys (mergeMembers below above)).Nodup := by
  induction above generalizing below with
  | nil => rwa [mergeMembers]
  | cons m above ih =>
    obtain ⟨key, v⟩ := m
    rw [mergeMembers]
    split
    · exact ih h
    · split <;> exact ih (nodup_insert h _ _)

/-- **A member of a merged object** is the upper one, laid over the lower one if there is one;
where the upper object has none or null, it is the lower one. -/
theorem lookup_mergeMembers {above : List (String × Json)} (h : (keys above).Nodup)
    (below : List (String × Json)) (key : String) :
    (mergeMembers below above).lookup key =
      match (nonNull above).lookup key with
      | none => below.lookup key
      | some u => some (((below.lookup key).map (merge · u)).getD u) := by
  induction above generalizing below with
  | nil => rfl
  | cons m above ih =>
    obtain ⟨k, v⟩ := m
    obtain ⟨hk, hms⟩ : k ∉ keys above ∧ (keys above).Nodup := List.nodup_cons.1 h
    rw [mergeMembers]
    cases hv : v.isNull with
    | true =>
      have hcons : nonNull ((k, v) :: above) = nonNull above := by
        simp [nonNull, hv]
      rw [if_pos rfl, ih hms, hcons]
    | false =>
      have hcons : nonNull ((k, v) :: above) = (k, v) :: nonNull above := by
        simp [nonNull, hv]
      rw [if_neg (by simp), hcons]
      by_cases hkey : key = k
      -- it is the key of this member, which comes only once
      · subst hkey
        have hnone : (nonNull above).lookup key = none := by
          rw [lookup_nonNull hms, lookup_eq_none hk, Option.filter_none]
        cases hb : below.lookup key <;>
          simp [ih hms, hnone, lookup_insert_self]
      · have hne : (key == k) = false := beq_eq_false_iff_ne.2 hkey
        cases hb : below.lookup k <;>
          simp [ih hms, List.lookup_cons, hne, lookup_insert_of_ne hkey]

theorem merge_of_flat {w : Json} (hw : ∀ members, w ≠ .object members) (u : Json) :
    merge w u = u := by
  cases w <;> cases u <;> simp_all [merge]

theorem mem_of_lookup {ms : List (String × Json)} {key : String} {v : Json}
    (h : ms.lookup key = some v) : (key, v) ∈ ms := by
  obtain ⟨front, back, rfl, -⟩ := List.lookup_eq_some_iff.1 h
  simp

theorem lookup_of_mem {ms : List (String × Json)} (once : (keys ms).Nodup) {m : String × Json}
    (h : m ∈ ms) : ms.lookup m.1 = some m.2 := by
  obtain ⟨front, back, rfl⟩ := List.append_of_mem h
  refine List.lookup_eq_some_iff.2 ⟨front, back, rfl, fun n hn => ?_⟩
  rw [keys, List.map_append, List.map_cons, List.nodup_append] at once
  have hne : n.1 ≠ m.1 := once.2.2 n.1 (List.mem_map_of_mem hn) m.1 List.mem_cons_self
  simpa using hne.symm

theorem Single.get? {v u : Json} (hv : v.Single) {key : String} (h : v.get? key = some u) :
    u.Single := by
  cases hv with
  | object once parts => exact parts (key, u) (mem_of_lookup h)
  | _ => cases h

theorem merge_of_not_object {s : Json} (hs : ∀ members, s ≠ .object members) (t : Json) :
    merge t s = s := by
  cases s <;> cases t <;> simp_all [merge]

/-- A member of the upper value that is not null is there, laid over the lower one if there is
one. -/
theorem get?_merge_of_some {s : Json} (hs : s.Single) {key : String} {v : Json}
    (h : s.get? key = some v) (hv : v.isNull = false) (t : Json) :
    (merge t s).get? key = some (((t.get? key).map (merge · v)).getD v) := by
  cases hs with
  | @object above once parts =>
    have hlook : (nonNull above).lookup key = some v := by
      rw [lookup_nonNull once, show above.lookup key = some v from h]
      simp [hv]
    cases t with
    | object below => simp only [merge, get?, lookup_mergeMembers once, hlook]
    | _ => simpa [merge, get?] using h
  | _ => cases h

/-- Where the upper object has no member or a null one, there is what the lower object has. -/
theorem get?_merge_of_none {above : List (String × Json)} (once : (keys above).Nodup)
    {key : String} (h : ∀ v, above.lookup key = some v → v = .null)
    (below : List (String × Json)) :
    (merge (.object below) (.object above)).get? key = below.lookup key := by
  have hlook : (nonNull above).lookup key = none := by
    rw [lookup_nonNull once]
    cases ha : above.lookup key with
    | none => rfl
    | some v => simp [h v ha, isNull]
  simp only [merge, get?, lookup_mergeMembers once, hlook]

/-! ### Paths of keys -/

/-- The value at a path of keys, if there is one. -/
def at? : List String → Json → Option Json
  | [], v => some v
  | key :: path, v => (v.get? key).bind (at? path)

/-- There is an object at that path. -/
def HasObject (v : Json) (path : List String) : Prop :=
  ∃ members, v.at? path = some (.object members)

@[simp] theorem at?_nil (v : Json) : v.at? [] = some v := rfl

theorem at?_cons (key : String) (path : List String) (v : Json) :
    v.at? (key :: path) = (v.get? key).bind (at? path) := rfl

theorem at?_cons_of_mem {ms : List (String × Json)} (once : (keys ms).Nodup) {m : String × Json}
    (hm : m ∈ ms) (path : List String) : (object ms).at? (m.1 :: path) = m.2.at? path := by
  rw [at?_cons, get?, lookup_of_mem once hm]
  rfl

theorem at?_append (v : Json) (p q : List String) :
    v.at? (p ++ q) = (v.at? p).bind (at? q) := by
  induction p generalizing v with
  | nil => rfl
  | cons key p ih =>
    rw [List.cons_append, at?_cons, at?_cons, Option.bind_assoc]
    exact congrArg _ (funext ih)

theorem hasObject_nil {t : Json} : t.HasObject [] ↔ ∃ members, t = .object members := by
  simp [HasObject]

theorem hasObject_cons {t : Json} {key : String} {q : List String} :
    t.HasObject (key :: q) ↔ ∃ w, t.get? key = some w ∧ w.HasObject q := by
  simp only [HasObject, at?_cons, Option.bind_eq_some_iff]
  constructor
  · rintro ⟨members, w, hw, hq⟩
    exact ⟨w, hw, members, hq⟩
  · rintro ⟨w, hw, members, hq⟩
    exact ⟨members, w, hw, hq⟩

theorem not_hasObject {t : Json} (ht : ∀ members, t ≠ .object members) (q : List String) :
    ¬ t.HasObject q := by
  cases q with
  | nil => simpa [hasObject_nil] using ht
  | cons key q => cases t <;> simp_all [hasObject_cons, get?]

theorem hasObject_of_at?_append {v u : Json} {front : List String} {key : String}
    {rest : List String} (h : v.at? (front ++ key :: rest) = some u) : v.HasObject front := by
  rw [at?_append] at h
  obtain ⟨w, hw, hrest⟩ := Option.bind_eq_some_iff.1 h
  cases w with
  | object members => exact ⟨members, hw⟩
  | _ => cases hrest

theorem HasObject.of_isPrefix {v : Json} {front q : List String} (h : v.HasObject q)
    (hf : front <+: q) : v.HasObject front := by
  obtain ⟨back, rfl⟩ := hf
  cases back with
  | nil => simpa using h
  | cons key back => exact hasObject_of_at?_append h.choose_spec

theorem at?_null {p : List String} {v : Json} (h : Json.null.at? p = some v) :
    p = [] ∧ v = .null := by
  cases p with
  | nil => exact ⟨rfl, (Option.some.inj h).symm⟩
  | cons key p => cases h

/-- **What the upper value has, neither null nor an object, the merge has.** -/
theorem at?_merge_of_some {s : Json} (hs : s.Single) {p : List String} {v : Json}
    (h : s.at? p = some v) (hnull : v ≠ .null) (hobj : ∀ members, v ≠ .object members)
    (t : Json) : (merge t s).at? p = some v := by
  induction p generalizing s t with
  | nil =>
    obtain rfl : s = v := Option.some.inj h
    rw [merge_of_not_object hobj]
    rfl
  | cons key p ih =>
    obtain ⟨u, hu, hp⟩ := Option.bind_eq_some_iff.1 h
    have hunull : u.isNull = false := by
      cases u with
      | null => exact absurd (at?_null hp).2 hnull
      | _ => rfl
    rw [at?_cons, get?_merge_of_some hs hu hunull, Option.bind_some]
    cases t.get? key with
    | none => exact hp
    | some w => exact ih (hs.get? hu) hp w

/-- **Where the upper value has nothing or null, the merge has what the lower value has.** -/
theorem at?_merge_of_none {s t : Json} (hs : s.Single) {q : List String} (hq : q ≠ [])
    (h : ∀ v, s.at? q = some v → v = .null)
    (hin : ∀ front, front <+: q → front ≠ q → t.HasObject front ∧ s.HasObject front)
    (rest : List String) : (merge t s).at? (q ++ rest) = t.at? (q ++ rest) := by
  induction q generalizing s t with
  | nil => exact absurd rfl hq
  | cons key q ih =>
    obtain ⟨⟨below, hbelow⟩, above, habove⟩ := hin [] List.nil_prefix (List.cons_ne_nil _ _).symm
    obtain rfl : t = .object below := Option.some.inj hbelow
    obtain rfl : s = .object above := Option.some.inj habove
    rw [List.cons_append, at?_cons, at?_cons]
    cases q with
    | nil =>
      obtain - | - | - | - | - | ⟨once, -⟩ := hs
      -- the way ends here, at a null or at nothing
      have hkey (v : Json) (hv : above.lookup key = some v) : v = .null :=
        h v (by rw [at?_cons, show (Json.object above).get? key = some v from hv]; rfl)
      rw [get?_merge_of_none once hkey below]
      rfl
    | cons key' q =>
      -- both values go on with an object, and the rest of the way is a way through these two
      obtain ⟨⟨below', hbelow'⟩, above', habove'⟩ := hin [key] ⟨key' :: q, rfl⟩ (by simp)
      obtain ⟨w, hw, hw'⟩ := Option.bind_eq_some_iff.1 hbelow'
      obtain ⟨u, hu, hu'⟩ := Option.bind_eq_some_iff.1 habove'
      obtain rfl : u = .object above' := Option.some.inj hu'
      rw [get?_merge_of_some hs hu rfl, hw]
      refine ih (hs.get? hu) (List.cons_ne_nil _ _) (fun v hv => h v ?_) fun front hf hne => ?_
      · rwa [at?_cons, hu]
      · obtain ⟨⟨b, hb⟩, a, ha⟩ := hin (key :: front) (List.cons_prefix_cons.2 ⟨rfl, hf⟩)
          (fun e => hne (List.cons.inj e).2)
        rw [at?_cons, hw] at hb
        rw [at?_cons, hu] at ha
        exact ⟨⟨b, hb⟩, a, ha⟩

/-- **A merge has no path but those of its parts.** -/
theorem isSome_at?_of_merge {s t : Json} (hs : s.Single) {p : List String}
    (h : ((merge t s).at? p).isSome) : (t.at? p).isSome ∨ (s.at? p).isSome := by
  induction p generalizing s t with
  | nil => exact .inl rfl
  | cons key p ih =>
    by_cases hkey : ∃ v, s.get? key = some v ∧ v.isNull = false
    · obtain ⟨v, hv, hnull⟩ := hkey
      rw [at?_cons, get?_merge_of_some hs hv hnull] at h
      rw [at?_cons, at?_cons, hv]
      cases hw : t.get? key with
      | none => exact .inr (by simpa [hw] using h)
      | some w => exact ih (hs.get? hv) (by simpa [hw] using h)
    · -- the upper value has nothing to say about the key, so the way goes on in the lower one
      cases s with
      | object above =>
        cases t with
        | object below =>
          obtain - | - | - | - | - | ⟨once, -⟩ := hs
          have hnull (v : Json) (hv : above.lookup key = some v) : v = .null := by
            cases v with
            | null => rfl
            | _ => exact absurd ⟨_, hv, rfl⟩ hkey
          rw [at?_cons, get?_merge_of_none once hnull] at h
          exact .inl h
        | _ => exact .inr h
      | _ => exact .inr (by rwa [merge_of_not_object (by simp)] at h)

/-! ### The same value once more -/

theorem insert_of_lookup {key : String} {v : Json} {ms : List (String × Json)}
    (h : ms.lookup key = some v) : insert key v ms = ms := by
  induction ms with
  | nil => cases h
  | cons m ms ih =>
    obtain ⟨k, w⟩ := m
    by_cases hk : k = key
    · subst hk
      obtain rfl : w = v := by simpa using h
      simp [insert]
    · have hne : (key == k) = false := beq_eq_false_iff_ne.2 (Ne.symm hk)
      rw [insert, if_neg hk, ih (by simpa [List.lookup_cons, hne] using h)]

/-- Members that are laid already change nothing. -/
theorem mergeMembers_eq_self {below above : List (String × Json)}
    (h : ∀ m ∈ above, m.2.isNull = false → ∃ w, below.lookup m.1 = some w ∧ merge w m.2 = w) :
    mergeMembers below above = below := by
  induction above with
  | nil => rw [mergeMembers]
  | cons m above ih =>
    obtain ⟨key, v⟩ := m
    rw [List.forall_mem_cons] at h
    rw [mergeMembers]
    cases hv : v.isNull with
    | true => exact ih h.2
    | false =>
      obtain ⟨w, hw, hmerge⟩ := h.1 hv
      have hlook : below.lookup key = some w := hw
      simp only [hlook, Bool.false_eq_true, if_false]
      rw [show merge w v = w from hmerge, insert_of_lookup hlook]
      exact ih h.2

/-- **A value laid over itself is that value.** -/
theorem merge_self {t : Json} (ht : t.Single) : merge t t = t := by
  induction ht with
  | object once _ ih =>
    rw [merge, mergeMembers_eq_self fun m hm _ => ⟨m.2, lookup_of_mem once hm, ih m hm⟩]
  | _ => rfl

/-- **A value laid once more changes nothing.** -/
theorem merge_merge {s : Json} (hs : s.Single) (t : Json) : merge (merge t s) s = merge t s := by
  induction hs generalizing t with
  | @object above once parts ih =>
    cases t with
    | object below =>
      rw [merge, merge, mergeMembers_eq_self fun m hm hnull => ?_]
      have hlook : (nonNull above).lookup m.1 = some m.2 := by
        rw [lookup_nonNull once, lookup_of_mem once hm]
        simp [hnull]
      rw [lookup_mergeMembers once, hlook]
      refine ⟨_, rfl, ?_⟩
      -- a member was laid over the lower one, or stands there as it came
      cases below.lookup m.1 with
      | none => exact merge_self (parts m hm)
      | some w => exact ih m hm w
    | _ => exact merge_self (.object once parts)
  | _ => rw [merge_of_not_object (by simp), merge_of_not_object (by simp)]

/-! ### What a merge is -/

/-- No key is given twice in a merge of two values of that kind. -/
theorem single_merge {s t : Json} (ht : t.Single) (hs : s.Single) : (merge t s).Single := by
  induction hs generalizing t with
  | @object above once parts ih =>
    cases ht with
    | @object below below_once below_parts =>
      have nodup := nodup_mergeMembers below_once above
      refine .object nodup fun m hm => ?_
      have hlook := lookup_of_mem nodup hm
      rw [lookup_mergeMembers once] at hlook
      -- each member of the merge is one of below, of above or of both
      cases hu : (nonNull above).lookup m.1 with
      | none => exact below_parts m (mem_of_lookup (by simpa [hu] using hlook))
      | some u =>
        have hmem := List.mem_of_mem_filter (mem_of_lookup hu)
        obtain hm | ⟨w, hw, hm⟩ : u = m.2 ∨ ∃ w, below.lookup m.1 = some w ∧ merge w u = m.2 := by
          cases hw : below.lookup m.1 <;> simp_all
        · exact hm ▸ parts _ hmem
        · exact hm ▸ ih _ hmem (below_parts _ (mem_of_lookup hw))
    | _ => exact .object once parts
  | array parts =>
    rw [merge_of_not_object (by simp)]
    exact .array parts
  | _ =>
    rw [merge_of_not_object (by simp)]
    constructor

/-- What `s` laid over `t` is. -/
structure Laid (t s : Json) : Prop where
  taken : ∀ p v, s.at? p = some v → v ≠ .null → (∀ members, v ≠ .object members) →
    (merge t s).at? p = some v
  /-- Two ways of objects part at `q`, where `s` ends. -/
  kept : ∀ q rest, q ≠ [] → (s.at? q = none ∨ s.at? q = some .null) →
    (∀ front, front <+: q → front ≠ q → t.HasObject front ∧ s.HasObject front) →
    (merge t s).at? (q ++ rest) = t.at? (q ++ rest)
  paths : ∀ p, ((merge t s).at? p).isSome → (t.at? p).isSome ∨ (s.at? p).isSome
  again : merge (merge t s) s = merge t s
  same : merge t t = t
  single : (merge t s).Single

/-- **What a merge has at every path.**  What the upper value has there, neither null nor an
object; else, where the upper value ends on the way, what the lower value has. -/
theorem laid_merge {t s : Json} (ht : t.Single) (hs : s.Single) : Laid t s where
  taken _ _ h hnull hobj := at?_merge_of_some hs h hnull hobj t
  kept _ rest hq h hin := by
    refine at?_merge_of_none hs hq (fun v hv => ?_) hin rest
    simpa [hv] using h
  paths _ h := isSome_at?_of_merge hs h
  again := merge_merge hs t
  same := merge_self ht
  single := single_merge ht hs

/-- A value with a null and an object in it. -/
def underlay : Json := .object [("a", .object [("b", .nat 1)]), ("c", .null)]

/-- A value with a null in the object, and an object where the other one has a null. -/
def overlay : Json := .object [("a", .object [("b", .null), ("d", .nat 2)]), ("c", .object [])]

theorem single_underlay : underlay.Single := by
  refine .object (by decide) (List.forall_mem_cons.2 ⟨?_, List.forall_mem_singleton.2 .null⟩)
  exact .object (by decide) (List.forall_mem_singleton.2 (.number _))

theorem single_overlay : overlay.Single := by
  refine .object (by decide) (List.forall_mem_cons.2 ⟨?_, List.forall_mem_singleton.2 ?_⟩)
  · refine .object (by decide) (List.forall_mem_cons.2 ⟨.null, ?_⟩)
    exact List.forall_mem_singleton.2 (.number _)
  · exact .object (by decide) (by simp)

/-- The number under `a` and `b` is kept, and the one under `a` and `d` is taken. -/
theorem laid_merge_of_overlay : underlay.Single ∧ overlay.Single ∧ Laid underlay overlay ∧
    (merge underlay overlay).at? ["a", "b"] = some (.nat 1) ∧
    (merge underlay overlay).at? ["a", "d"] = some (.nat 2) :=
  ⟨single_underlay, single_overlay, laid_merge single_underlay single_overlay, by rfl, by rfl⟩

end Json

end Duplex
