/-
Duplex/Proofs/Settings/Layering.lean

Settings laid over their defaults are settings read directly.

A settings document is laid over the defaults as a value, and the result is
read.  The same settings come out when the document is read by itself, provided
that the null members of the document and of its sections are left out first:

    ofTree? (ofJson (merge (json {}) v)) = ofTree? (ofJson v.withoutNulls).

Both paths meet field by field.  A member that is not null is read alike on
both sides; where there is none, one side reads the default and the other side
keeps it (`Record.ofTree?_merge`, used for the sections and then for the
document).  Documents and sections in the form of arrays replace the defaults
whole, so there is nothing to be shown for them.
-/
import Duplex.Proofs.Json.Paths
import Duplex.Proofs.Json.Trees
import Duplex.Settings.Layers

namespace Duplex

/-! ### Records laid over their defaults -/

namespace Record

variable {α : Type}

/-- **A value laid over a record's default** is read like the value without its null members,
where each field reads a laid member like the member in the form that `g` gives it. -/
theorem ofTree?_merge {fields : List (Field α)} (hap : fields.Pairwise Field.Apart) {a : α}
    {below : List (String × Json)} (hbelow : (Json.keys below).Nodup) (g : String → Json → Json)
    (hfields : ∀ f ∈ fields, ∃ w, below.lookup f.name = some w ∧
      f.set? (Tree.ofJson w) a = some a ∧
      ∀ u : Json, u.Single →
        f.set? (Tree.ofJson (Json.merge w u)) = f.set? (Tree.ofJson (g f.name u)))
    {members : List (String × Json)} (hv : (Json.object members).Single) :
    ofTree? fields a (Tree.ofJson (Json.merge (.object below) (.object members))) =
      ofTree? fields a
        (Tree.ofJson (.object ((Json.nonNull members).map fun m => (m.1, g m.1 m.2)))) := by
  obtain - | - | - | - | - | ⟨once, parts⟩ := hv
  have hstripped :
      (Json.keys ((Json.nonNull members).map fun m => (m.1, g m.1 m.2))).Nodup := by
    rw [Json.keys_map]
    exact Json.nodup_nonNull once
  rw [Json.merge, ofTree?_object hap (Json.nodup_mergeMembers hbelow _),
    ofTree?_object hap hstripped]
  refine ofParts?_layered hap fun f hf => ?_
  obtain ⟨w, hw, hset, hmerge⟩ := hfields f hf
  rw [Json.lookup_mergeMembers once, Json.lookup_map, hw]
  cases hu : (Json.nonNull members).lookup f.name with
  | none => exact .inr ⟨rfl, _, rfl, hset⟩
  | some u =>
    have hsingle : u.Single := parts _ (List.mem_of_mem_filter (Json.mem_of_lookup hu))
    exact .inl fun b => congrFun (hmerge u hsingle) b

end Record

/-! ### Documents without nulls -/

namespace Json

/-- The value without the null members that it has itself. -/
def dropNulls : Json → Json
  | .object members => .object (nonNull members)
  | v => v

/-- A member of a document: a section without its null members, or any other value. -/
def sectionWithoutNulls (name : String) (v : Json) : Json :=
  if name ∈ ["server", "sockjs", "logging"] then v.dropNulls else v

/-- The document without its null members and those of its sections. -/
def withoutNulls : Json → Json
  | .object members =>
    .object ((nonNull members).map fun m => (m.1, sectionWithoutNulls m.1 m.2))
  | v => v

@[simp] theorem nat_ne_object (n : Nat) (members : List (String × Json)) :
    nat n ≠ .object members := nofun

theorem single_dropNulls {v : Json} (h : v.Single) : v.dropNulls.Single := by
  cases h with
  | object once parts =>
    exact .object (nodup_nonNull once) fun m hm => parts m (List.mem_of_mem_filter hm)
  | array parts => exact .array parts
  | _ => constructor

end Json

namespace Record

variable {α : Type}

/-- The members hold every field of the record as the record has it, and none as an object. -/
def Shows (fields : List (Field α)) (members : List (String × Json)) (a : α) : Prop :=
  ∀ f ∈ fields, ∃ w, members.lookup f.name = some w ∧ f.set? (Tree.ofJson w) a = some a ∧
    ∀ inner, w ≠ .object inner

/-- **A section laid over its default** is read like the section without its null members. -/
theorem ofTree?_merge_section {fields : List (Field α)} (hap : fields.Pairwise Field.Apart)
    {a : α} {below : List (String × Json)} (hbelow : (Json.keys below).Nodup)
    (hshows : Shows fields below a) {u : Json} (hu : u.Single) :
    ofTree? fields a (Tree.ofJson (Json.merge (.object below) u)) =
      ofTree? fields a (Tree.ofJson u.dropNulls) := by
  have hfields : ∀ f ∈ fields, ∃ w, below.lookup f.name = some w ∧
      f.set? (Tree.ofJson w) a = some a ∧
      ∀ u : Json, u.Single → f.set? (Tree.ofJson (Json.merge w u)) = f.set? (Tree.ofJson u) := by
    intro f hf
    obtain ⟨w, hw, hset, hflat⟩ := hshows f hf
    exact ⟨w, hw, hset, fun u _ => by rw [Json.merge_of_flat hflat]⟩
  cases hu with
  | object once parts =>
    simpa [Json.dropNulls] using
      ofTree?_merge hap hbelow (fun _ u => u) hfields (.object once parts)
  | _ => rfl

/-- Members that show a record are read as the record. -/
theorem ofTree?_of_shows {fields : List (Field α)} (hap : fields.Pairwise Field.Apart) {a : α}
    {members : List (String × Json)} (hk : (Json.keys members).Nodup)
    (hshows : Shows fields members a) :
    ofTree? fields a (Tree.ofJson (.object members)) = some a := by
  rw [ofTree?_object hap hk, ← ofParts?_none fields a]
  refine ofParts?_layered hap fun f hf => .inr ⟨rfl, ?_⟩
  obtain ⟨w, hw, hset, -⟩ := hshows f hf
  exact ⟨_, by rw [hw, Option.map_some], hset⟩

end Record

/-! ### The parts of settings -/

namespace Tree

theorem natural?_nat {n most : Nat} (h : n ≤ most) :
    (ofJson (Json.nat n)).natural? most = some n := by
  have hn : ¬ ((n : Int) < 0) := by omega
  simp [Json.nat, ofJson, natural?, Number.numeral, Numeral.natural?, hn, h]

theorem word64?_nat (n : UInt64) : (ofJson (Json.nat n.toNat)).word64? = some n := by
  have h : n.toNat ≤ Text.Decimal.maxWord64 := Nat.le_of_lt_succ n.toNat_lt
  simp [word64?, natural?_nat h]

theorem word16?_nat (n : UInt16) : (ofJson (Json.nat n.toNat)).word16? = some n := by
  have h : n.toNat ≤ Text.Decimal.maxWord16 := Nat.le_of_lt_succ n.toNat_lt
  simp [word16?, natural?_nat h]

theorem str?_text (s : String) : (ofJson (.text s)).str? = some s := string?_ofString s

theorem flag?_bool (b : Bool) : (ofJson (.bool b)).flag? = some b := rfl

end Tree

theorem Binding.apart : Binding.fields.Pairwise Field.Apart := by
  simp only [Binding.fields, List.pairwise_cons, List.forall_mem_cons, List.Pairwise.nil,
    List.not_mem_nil, false_implies, implies_true, and_true]
  exact Field.apart_of (by decide) _ _ fun _ _ _ => rfl

theorem Options.apart : Options.fields.Pairwise Field.Apart := by
  simp only [Options.fields, List.pairwise_cons, List.forall_mem_cons, List.Pairwise.nil,
    List.not_mem_nil, false_implies, implies_true, and_true]
  and_intros <;> exact Field.apart_of (by decide) _ _ fun _ _ _ => rfl

theorem Logging.apart : Logging.fields.Pairwise Field.Apart := by
  simp only [Logging.fields, List.pairwise_cons, List.forall_mem_cons, List.Pairwise.nil,
    List.not_mem_nil, false_implies, implies_true, and_true]
  exact Field.apart_of (by decide) _ _ fun _ _ _ => rfl

theorem Settings.apart : Settings.fields.Pairwise Field.Apart := by
  simp only [Settings.fields, List.pairwise_cons, List.forall_mem_cons, List.Pairwise.nil,
    List.not_mem_nil, false_implies, implies_true, and_true]
  and_intros <;> exact Field.apart_of (by decide) _ _ fun _ _ _ => rfl

/-- The members that a value has itself. -/
def Json.members : Json → List (String × Json)
  | .object members => members
  | _ => []

theorem Binding.shows (b : Binding) : Record.Shows fields b.json.members b := by
  simp [Record.Shows, fields, json, Json.members, Field.of, List.lookup_cons, Tree.str?_text,
    Tree.word16?_nat]

theorem Logging.shows (l : Logging) : Record.Shows fields l.json.members l := by
  obtain ⟨level, _ | _⟩ := l <;>
    simp [Record.Shows, fields, json, Json.members, Field.of, List.lookup_cons, Tree.str?_text,
      Tree.flag?_bool]

theorem Options.shows (o : Options) : Record.Shows fields o.json.members o := by
  obtain ⟨timeout, period, most, _ | _, _ | _⟩ := o <;>
    simp [Record.Shows, fields, json, Json.members, Field.of, List.lookup_cons, Tree.word64?_nat,
      Tree.flag?_bool]

/-! ### The document -/

namespace Settings

/-- A field that reads a record, laid over the record it has, reads it without nulls. -/
theorem section_merge {α : Type} {fields : List (Field α)} (hap : fields.Pairwise Field.Apart)
    {a : α} {below : List (String × Json)} (hbelow : (Json.keys below).Nodup)
    (hshows : Record.Shows fields below a) (name : String) {put : α → Settings → Settings}
    {s : Settings} (hput : put a s = s) :
    let f : Field Settings := .of name (Record.ofTree? fields a) put
    f.set? (Tree.ofJson (.object below)) s = some s ∧
      ∀ u : Json, u.Single →
        f.set? (Tree.ofJson (Json.merge (.object below) u)) = f.set? (Tree.ofJson u.dropNulls) := by
  refine ⟨?_, fun u hu => ?_⟩
  · simp [Field.of, Record.ofTree?_of_shows hap hbelow hshows, hput]
  · simp [Field.of, Record.ofTree?_merge_section hap hbelow hshows hu]

/-- **A document laid over the defaults is the document without nulls, read directly.** -/
theorem ofTree?_merge {v : Json} (hv : v.Single) :
    ofTree? (Tree.ofJson (Json.merge (json {}) v)) = ofTree? (Tree.ofJson v.withoutNulls) := by
  cases hv with
  | object once parts =>
    refine Record.ofTree?_merge apart (a := {}) ?_ Json.sectionWithoutNulls (fun f hf => ?_)
      (.object once parts)
    · decide
    simp only [fields, List.mem_cons, List.not_mem_nil, or_false] at hf
    obtain rfl | rfl | rfl := hf
    · exact ⟨_, rfl, section_merge Binding.apart (by decide) (Binding.shows _) "server" rfl⟩
    · exact ⟨_, rfl, section_merge Options.apart (by decide) (Options.shows _) "sockjs" rfl⟩
    · exact ⟨_, rfl, section_merge Logging.apart (by decide) (Logging.shows _) "logging" rfl⟩
  | _ => rfl

/-! ### What a document does not mention -/

/-- The sections and the settings in them, by name and in order. -/
def layout : List (String × List String) :=
  [("server", Binding.fields.map (·.name)), ("sockjs", Options.fields.map (·.name)),
   ("logging", Logging.fields.map (·.name))]

/-- What a document gives for the `j`-th setting of the `i`-th section. -/
def given? (v : Json) (i j : Nat) : Option Json :=
  layout[i]?.bind fun (name, names) =>
    names[j]?.bind fun inner => (v.part? name i).bind (·.part? inner j)

end Settings

theorem Json.Single.part {v u : Json} (hv : v.Single) {name : String} {place : Nat}
    (h : v.part? name place = some u) : u.Single := by
  cases hv with
  | object once parts => exact parts (name, u) (Json.mem_of_lookup h)
  | array parts => exact parts u (List.mem_of_getElem? h)
  | _ => exact absurd h nofun

theorem Json.single_withoutNulls {v : Json} (hv : v.Single) : v.withoutNulls.Single := by
  cases hv with
  | object once parts =>
    refine .object (by rw [keys_map]; exact nodup_nonNull once) fun m hm => ?_
    obtain ⟨m', hm', rfl⟩ := List.mem_map.1 hm
    have hu := parts m' (List.mem_of_mem_filter hm')
    simp only [sectionWithoutNulls]
    split
    · exact single_dropNulls hu
    · exact hu
  | array parts => exact .array parts
  | _ => constructor

/-- No field changes what the record's value has under the name of another field. -/
def Record.Views {α : Type} (fields : List (Field α)) (json : α → Json) : Prop :=
  ∀ f ∈ fields, ∀ g ∈ fields, g.name ≠ f.name → ∀ j, g.Keeps fun a => (json a).part? f.name j

theorem Binding.views : Record.Views fields json := by
  intro f hf g hg hne j
  simp only [fields, List.mem_cons, List.not_mem_nil, or_false] at hf hg
  rcases hf with rfl | rfl <;> rcases hg with rfl | rfl <;>
    first | exact absurd rfl hne | exact Field.keeps_of _ _ fun _ _ => rfl

theorem Logging.views : Record.Views fields json := by
  intro f hf g hg hne j
  simp only [fields, List.mem_cons, List.not_mem_nil, or_false] at hf hg
  rcases hf with rfl | rfl <;> rcases hg with rfl | rfl <;>
    first | exact absurd rfl hne | exact Field.keeps_of _ _ fun _ _ => rfl

theorem Options.views : Record.Views fields json := by
  intro f hf g hg hne j
  simp only [fields, List.mem_cons, List.not_mem_nil, or_false] at hf hg
  rcases hf with rfl | rfl | rfl | rfl | rfl <;> rcases hg with rfl | rfl | rfl | rfl | rfl <;>
    first | exact absurd rfl hne | exact Field.keeps_of _ _ fun _ _ => rfl

namespace Settings

/-- A setting of a section that a document does not give is the section's default. -/
theorem section_kept {α : Type} {inner : List (Field α)} (hap : inner.Pairwise Field.Apart)
    {toJson : α → Json} (hviews : Record.Views inner toJson) {a : α} {name : String} {i : Nat}
    {put : α → Settings → Settings} {get : Settings → α}
    (hf : fields[i]? = some (.of name (Record.ofTree? inner a) put))
    (hput : ∀ b s, get (put b s) = b)
    (hget : ∀ g ∈ fields, g.name ≠ name → g.Keeps get) (ha : get {} = a)
    {v : Json} (hv : v.Single) {s : Settings} (hs : ofTree? (Tree.ofJson v) = some s)
    {f : Field α} {j : Nat} (hj : inner[j]? = some f)
    (hnone : (v.part? name i).bind (·.part? f.name j) = none) :
    (toJson (get s)).part? f.name j = (toJson a).part? f.name j := by
  cases hu : v.part? name i with
  | none => rw [Record.ofTree?_kept apart hf hget hv hu hs, ha]
  | some u =>
    obtain ⟨b, b', hset, hget'⟩ := Record.ofTree?_given apart hf hget hv hu hs
    obtain ⟨c, hc, rfl⟩ := Option.map_eq_some_iff.1 hset
    rw [hget', hput]
    have hmem := List.mem_of_getElem? hj
    refine Record.ofTree?_kept hap hj (fun g hg hne => hviews f hmem g hg hne j) (hv.part hu) ?_ hc
    simpa [hu] using hnone

/-- An option that has its default is not clamped. -/
theorem part?_clamp {o : Options} {f : Field Options} (hf : f ∈ Options.fields) {j : Nat}
    (h : o.json.part? f.name j = (Options.json {}).part? f.name j) :
    o.clamp.json.part? f.name j = (Options.json {}).part? f.name j := by
  have hnat {n m : UInt64} (h : Json.nat n.toNat = Json.nat m.toNat) : n = m := by
    injection h with h
    injection h with h
    exact UInt64.toNat_inj.1 (Int.ofNat_inj.1 h)
  have hclamp (most : Nat) (d : UInt64) : clampTo most d d = d := ite_self _
  simp only [Options.fields, List.mem_cons, List.not_mem_nil, or_false] at hf
  rcases hf with rfl | rfl | rfl | rfl | rfl
  · have ho : o.sessionTimeout = _ := hnat (Option.some.inj h)
    simp [Field.of, Json.part?, Options.json, Options.clamp, ho, hclamp]
  · have ho : o.heartbeatPeriod = _ := hnat (Option.some.inj h)
    simp [Field.of, Json.part?, Options.json, Options.clamp, ho, hclamp, List.lookup_cons]
  · have ho : o.maxBytesStreaming = _ := hnat (Option.some.inj h)
    simp [Field.of, Json.part?, Options.json, Options.clamp, ho, hclamp, List.lookup_cons]
  · exact h
  · exact h

/-- The settings with the options clamped. -/
def clamped (s : Settings) : Settings := { s with options := s.options.clamp }

@[simp] theorem part?_server (s : Settings) (i : Nat) :
    s.json.part? "server" i = some s.server.json := rfl

@[simp] theorem part?_sockjs (s : Settings) (i : Nat) :
    s.json.part? "sockjs" i = some s.options.json := rfl

@[simp] theorem part?_logging (s : Settings) (i : Nat) :
    s.json.part? "logging" i = some s.logging.json := rfl

/-- **What a document does not give keeps its default.** -/
theorem given?_of_not_given {v : Json} (hv : v.Single) {s : Settings}
    (hs : ofTree? (Tree.ofJson v) = some s) {i j : Nat} (hnone : given? v i j = none) :
    given? s.clamped.json i j = given? (json {}) i j := by
  -- each section is set by its own field only
  have hkeeps : ∀ f ∈ fields,
      (f.name ≠ "server" → f.Keeps Settings.server) ∧
      (f.name ≠ "sockjs" → f.Keeps Settings.options) ∧
      (f.name ≠ "logging" → f.Keeps Settings.logging) := by
    intro f hf
    simp only [fields, List.mem_cons, List.not_mem_nil, or_false] at hf
    rcases hf with rfl | rfl | rfl
    · exact ⟨fun h => absurd rfl h, fun _ => Field.keeps_of _ _ fun _ _ => rfl,
        fun _ => Field.keeps_of _ _ fun _ _ => rfl⟩
    · exact ⟨fun _ => Field.keeps_of _ _ fun _ _ => rfl, fun h => absurd rfl h,
        fun _ => Field.keeps_of _ _ fun _ _ => rfl⟩
    · exact ⟨fun _ => Field.keeps_of _ _ fun _ _ => rfl,
        fun _ => Field.keeps_of _ _ fun _ _ => rfl, fun h => absurd rfl h⟩
  match i with
  | 0 =>
    cases hj : Binding.fields[j]? with
    | none => simp [given?, layout, hj]
    | some f =>
      have hpart := section_kept Binding.apart Binding.views (i := 0) rfl (fun _ _ => rfl)
        (fun g hg => (hkeeps g hg).1) rfl hv hs hj (by simpa [given?, layout, hj] using hnone)
      simpa [given?, layout, hj, clamped] using hpart
  | 1 =>
    cases hj : Options.fields[j]? with
    | none => simp [given?, layout, hj]
    | some f =>
      -- the clamp is on this section, and keeps the defaults
      have hpart := section_kept Options.apart Options.views (i := 1) rfl (fun _ _ => rfl)
        (fun g hg => (hkeeps g hg).2.1) rfl hv hs hj (by simpa [given?, layout, hj] using hnone)
      simpa [given?, layout, hj, clamped] using part?_clamp (List.mem_of_getElem? hj) hpart
  | 2 =>
    cases hj : Logging.fields[j]? with
    | none => simp [given?, layout, hj]
    | some f =>
      have hpart := section_kept Logging.apart Logging.views (i := 2) rfl (fun _ _ => rfl)
        (fun g hg => (hkeeps g hg).2.2) rfl hv hs hj (by simpa [given?, layout, hj] using hnone)
      simpa [given?, layout, hj, clamped] using hpart
  | i + 3 => simp [given?, layout]

/-- **Loading a file in layers is reading it without nulls and then clamping.**  For every text
that is a value, the settings are the ones that the value holds when its null members and those
of its sections are left out, with the options clamped; if it holds none, the document is
malformed.  A setting that is not given keeps its default. -/
theorem ofDocument_eq_direct {bytes : Text.Bytes} {text : String} {v : Json}
    (htext : Text.Utf8.text? bytes = some text) (hv : Json.read? text = some v) :
    (ofDocument (.content bytes) =
      match ofTree? (Tree.ofJson v.withoutNulls) with
      | some s => .ok s.clamped
      | none => .error .malformed) ∧
    ∀ s, ofDocument (.content bytes) = .ok s →
      ∀ i j, given? v.withoutNulls i j = none → given? s.json i j = given? (json {}) i j := by
  have hsingle := Json.single_of_read? hv
  have hload : ofDocument (.content bytes) =
      match ofTree? (Tree.ofJson v.withoutNulls) with
      | some s => .ok s.clamped
      | none => .error .malformed := by
    simp only [ofDocument, htext, hv, Option.bind_some, ofJson?, ofTree?_merge hsingle]
    cases ofTree? (Tree.ofJson v.withoutNulls) <;> rfl
  refine ⟨hload, fun s hs i j hnone => ?_⟩
  rw [hload] at hs
  cases hread : ofTree? (Tree.ofJson v.withoutNulls) with
  | none => simp [hread] at hs
  | some s₀ =>
    obtain rfl : s₀.clamped = s := by simpa [hread] using hs
    exact given?_of_not_given (Json.single_withoutNulls hsingle) hread hnone

end Settings

/-! ### A document with a null in one section, and another section as an array -/

/-- The document. -/
def mixed : Json :=
  .object [("server", .object [("host", .null)]), ("sockjs", .array [.nat 1, .nat 0])]

theorem read?_mixed : Json.read? mixed.write = some mixed := by
  rw [Json.read?, Json.write, String.toList_ofList, Tree.read?_chars]
  rfl

namespace Settings

/-- The host keeps its default, the timeout is what the array says, and the heartbeat period is
out of range. -/
theorem ofDocument_eq_direct_mixed :
    ofDocument (.content (Text.Utf8.encode mixed.chars)) =
        .ok { options := { sessionTimeout := 1 } } ∧
      given? mixed.withoutNulls 0 0 = none ∧ given? mixed.withoutNulls 1 1 = some (.nat 0) := by
  have htext : Text.Utf8.text? (Text.Utf8.encode mixed.chars) = some mixed.write := by
    decide +kernel
  exact ⟨(ofDocument_eq_direct htext read?_mixed).1.trans (by decide +kernel), by rfl, by rfl⟩

end Settings

end Duplex
