/-
Duplex/Proofs/Json/Records.lean

Records read from values whose keys are given once.

A value that was read from a text has no key twice in any of its objects
(`Json.single_of_read?`).  From such an object a record is read field by field,
in whatever order the members come, each field from the member of its name
(`Record.ofTree?_object`); an array gives the fields by their places.  Both are
`Record.ofParts?`, which asks a function for the part of each field.

Fields of one record do not get in each other's way (`Field.Apart`), from
which follow what a record that is laid over its default is read as
(`Record.ofParts?_layered`) and what a field that is not given keeps
(`Record.ofTree?_kept`).
-/
import Duplex.Json.Record
import Mathlib.Data.List.Nodup

namespace Duplex

/-! ### Keys given once -/

namespace Json

/-- The keys of a row of members. -/
def keys (members : List (String × Json)) : List String := members.map Prod.fst

@[simp] theorem keys_nil : keys [] = [] := rfl

@[simp] theorem keys_cons (m : String × Json) (ms : List (String × Json)) :
    keys (m :: ms) = m.1 :: keys ms := rfl

/-- No object inside the value has a key twice. -/
inductive Single : Json → Prop
  | null : Single .null
  | bool (value : Bool) : Single (.bool value)
  | number (value : Number) : Single (.number value)
  | text (value : String) : Single (.text value)
  | array {items : List Json} (parts : ∀ v ∈ items, Single v) : Single (.array items)
  | object {members : List (String × Json)} (once : (keys members).Nodup)
      (parts : ∀ m ∈ members, Single m.2) : Single (.object members)

theorem keys_insert (key : String) (v : Json) (ms : List (String × Json)) :
    keys (insert key v ms) = if key ∈ keys ms then keys ms else keys ms ++ [key] := by
  induction ms with
  | nil => simp [insert]
  | cons m ms ih =>
    obtain ⟨k, w⟩ := m
    by_cases hk : k = key
    · simp [insert, hk]
    · by_cases hm : key ∈ keys ms <;> simp [insert, hk, Ne.symm hk, ih, hm]

theorem nodup_insert {ms : List (String × Json)} (h : (keys ms).Nodup) (key : String) (v : Json) :
    (keys (insert key v ms)).Nodup := by
  rw [keys_insert]
  split
  · exact h
  · next hk => exact List.nodup_append.2 ⟨h, by simp, by grind⟩

theorem mem_insert {key : String} {v : Json} {ms : List (String × Json)} {m : String × Json}
    (h : m ∈ insert key v ms) : m = (key, v) ∨ m ∈ ms := by
  induction ms with
  | nil => simpa [insert] using h
  | cons n ms ih =>
    obtain ⟨k, w⟩ := n
    by_cases hk : k = key
    · rcases List.mem_cons.1 (by simpa [insert, hk] using h) with h | h
      · exact .inl h
      · exact .inr (List.mem_cons_of_mem _ h)
    · rcases List.mem_cons.1 (by simpa [insert, hk] using h) with h | h
      · exact .inr (h ▸ List.mem_cons_self)
      · exact (ih h).imp_right (List.mem_cons_of_mem _)

theorem lookup_eq_none {key : String} {ms : List (String × Json)} (h : key ∉ keys ms) :
    ms.lookup key = none := by
  rw [List.lookup_eq_none_iff]
  intro m hm
  have : key ≠ m.1 := fun e => h (e ▸ List.mem_map_of_mem hm)
  simpa using this

/-- What a value gives for the part of a record that has this name and this place. -/
def part? (name : String) (place : Nat) : Json → Option Json
  | .object members => members.lookup name
  | .array items => items[place]?
  | _ => none

end Json

/-! ### Reading keeps keys single -/

namespace Tree

mutual

theorem single_of_jsonWithin? : ∀ (t : Tree) {room : Nat} {v : Json},
    jsonWithin? room t = some v → v.Single
  | .null, _, _, h => by simp only [jsonWithin?, Option.some.injEq] at h; exact h ▸ .null
  | .bool b, _, _, h => by simp only [jsonWithin?, Option.some.injEq] at h; exact h ▸ .bool b
  | .number n, _, _, h => by
    obtain ⟨x, -, rfl⟩ := Option.map_eq_some_iff.1 (by simpa only [jsonWithin?] using h)
    exact .number x
  | .text gs, _, _, h => by
    obtain ⟨s, -, rfl⟩ := Option.map_eq_some_iff.1 (by simpa only [jsonWithin?] using h)
    exact .text s
  | .array items, 0, _, h => by simp [jsonWithin?] at h
  | .array items, room + 1, _, h => by
    obtain ⟨vs, hvs, rfl⟩ := Option.map_eq_some_iff.1 (by simpa only [jsonWithin?] using h)
    exact .array (single_of_itemsWithin? items hvs)
  | .object members, 0, _, h => by simp [jsonWithin?] at h
  | .object members, room + 1, _, h => by
    obtain ⟨ms, hms, rfl⟩ := Option.map_eq_some_iff.1 (by simpa only [jsonWithin?] using h)
    have hs := single_of_membersWithin? members (by simp) (by simp) hms
    exact .object hs.1 hs.2

theorem single_of_itemsWithin? : ∀ (ts : List Tree) {room : Nat} {vs : List Json},
    itemsWithin? room ts = some vs → ∀ v ∈ vs, v.Single
  | [], _, _, h => by
    simp only [itemsWithin?, Option.some.injEq] at h
    simp [← h]
  | t :: ts, room, _, h => by
    rw [itemsWithin?] at h
    cases ht : jsonWithin? room t with
    | none => simp [ht] at h
    | some v =>
      obtain ⟨vs, hvs, rfl⟩ := Option.map_eq_some_iff.1 (by simpa only [ht] using h)
      exact List.forall_mem_cons.2 ⟨single_of_jsonWithin? t ht, single_of_itemsWithin? ts hvs⟩

theorem single_of_membersWithin? : ∀ (ts : List (List Quoted.Glyph × Tree)) {room : Nat}
    {acc ms : List (String × Json)}, (Json.keys acc).Nodup → (∀ m ∈ acc, m.2.Single) →
    membersWithin? room acc ts = some ms → (Json.keys ms).Nodup ∧ ∀ m ∈ ms, m.2.Single
  | [], _, _, _, hk, hv, h => by
    simp only [membersWithin?, Option.some.injEq] at h
    exact h ▸ ⟨hk, hv⟩
  | (gs, t) :: ts, room, acc, ms, hk, hv, h => by
    rw [membersWithin?] at h
    cases hs : string? gs with
    | none => simp [hs] at h
    | some key =>
      cases ht : jsonWithin? room t with
      | none => simp [hs, ht] at h
      | some v =>
        simp only [hs, ht] at h
        refine single_of_membersWithin? ts (Json.nodup_insert hk key v) (fun m hm => ?_) h
        rcases Json.mem_insert hm with rfl | hm
        · exact single_of_jsonWithin? t ht
        · exact hv m hm

end

end Tree

/-- **What is read from a text has no key twice.** -/
theorem Json.single_of_read? {s : String} {v : Json} (h : Json.read? s = some v) : v.Single := by
  obtain ⟨t, -, ht⟩ := Option.bind_eq_some_iff.1 h
  exact Tree.single_of_jsonWithin? t ht

/-! ### Values as trees -/

namespace Tree

theorem string?_ofString (s : String) : string? (glyphs s) = some s := by
  have key (acc cs : List Char) :
      Quoted.joinOnto acc (cs.map .char) = some (acc.reverse ++ cs) := by
    induction cs generalizing acc with
    | nil => simp [Quoted.joinOnto]
    | cons c cs ih => simp [Quoted.joinOnto, ih]
  simp [string?, glyphs, Quoted.join?, key]

theorem ofItems_eq (vs : List Json) : ofItems vs = vs.map ofJson := by
  induction vs with
  | nil => rfl
  | cons v vs ih => simp [ofItems, ih]

end Tree

/-! ### Fields -/

namespace Field

variable {α β γ : Type}

/-- The record with the field read from its part; without one it stays as it is. -/
def put? (f : Field α) (part : Option Tree) (a : α) : Option α :=
  match part with
  | none => some a
  | some t => f.set? t a

/-- Two fields of different names that may be read in either order. -/
structure Apart (f g : Field α) : Prop where
  name_ne : f.name ≠ g.name
  comm : ∀ t u a, (f.set? t a).bind (g.set? u) = (g.set? u a).bind (f.set? t)

/-- Reading the field leaves what `get` gives as it is. -/
def Keeps (get : α → β) (f : Field α) : Prop := ∀ t a a', f.set? t a = some a' → get a' = get a

theorem apart_of {name name' : String} (hn : name ≠ name') (read? : Tree → Option β)
    (read?' : Tree → Option γ) {put : β → α → α} {put' : γ → α → α}
    (h : ∀ b c a, put' c (put b a) = put b (put' c a)) :
    Apart (.of name read? put) (.of name' read?' put') := by
  refine ⟨hn, fun t u a => ?_⟩
  cases ht : read? t <;> cases hu : read?' u <;> simp [of, ht, hu, h]

theorem keeps_of (name : String) (read? : Tree → Option γ) {put : γ → α → α} {get : α → β}
    (h : ∀ c a, get (put c a) = get a) : Keeps get (.of name read? put) := by
  intro t a a' ha
  obtain ⟨c, -, rfl⟩ := Option.map_eq_some_iff.1 ha
  exact h c a

/-- What a field does to a record that already holds the part, it does after another field too. -/
theorem Apart.put?_eq_self {f g : Field α} (h : Apart f g) {t : Tree} {a a' : α}
    (hg : g.set? t a = some a) {part : Option Tree} (hf : f.put? part a = some a') :
    g.set? t a' = some a' := by
  cases part with
  | none =>
    obtain rfl : a = a' := Option.some.inj hf
    exact hg
  | some u =>
    have hc := h.comm u t a
    have hu : f.set? u a = some a' := hf
    rw [hg, hu] at hc
    simpa [hu] using hc

end Field

/-! ### Records by parts -/

namespace Record

variable {α β : Type}

/-- Reads one field after another, each from the part that `part?` has for its name. -/
def ofParts? (part? : String → Option Tree) : List (Field α) → α → Option α
  | [], a => some a
  | f :: fields, a => (f.put? (part? f.name) a).bind (ofParts? part? fields)

theorem ofParts?_congr {p q : String → Option Tree} {fields : List (Field α)}
    (h : ∀ f ∈ fields, p f.name = q f.name) (a : α) :
    ofParts? p fields a = ofParts? q fields a := by
  induction fields generalizing a with
  | nil => rfl
  | cons f fields ih =>
    rw [List.forall_mem_cons] at h
    simp only [ofParts?, h.1]
    exact congrArg _ (funext fun b => ih h.2 b)

theorem ofParts?_none (fields : List (Field α)) (a : α) :
    ofParts? (fun _ => none) fields a = some a := by
  induction fields with
  | nil => rfl
  | cons f fields ih => simpa [ofParts?, Field.put?] using ih

/-- A part more than before may as well be read before all others. -/
theorem ofParts?_insert {fields : List (Field α)} (hap : fields.Pairwise Field.Apart) {f : Field α}
    (hf : f ∈ fields) (t : Tree) {p : String → Option Tree} (hp : p f.name = none) (a : α) :
    ofParts? (fun name => if name = f.name then some t else p name) fields a =
      (f.set? t a).bind (ofParts? p fields) := by
  induction fields generalizing a with
  | nil => simp at hf
  | cons g fields ih =>
    obtain ⟨hg, hap⟩ := List.pairwise_cons.1 hap
    rcases List.mem_cons.1 hf with rfl | hf
    -- this is the field itself, and none of the later ones has its name
    · have hrest (b : α) :
          ofParts? (fun name => if name = f.name then some t else p name) fields b =
            ofParts? p fields b :=
        ofParts?_congr (fun g' hg' => if_neg (hg g' hg').name_ne.symm) b
      simp only [ofParts?, if_true, Field.put?, hp, Option.bind_some]
      exact congrArg _ (funext hrest)
    · have hne : g.name ≠ f.name := (hg f hf).name_ne
      have hrest : ofParts? (fun name => if name = f.name then some t else p name) fields =
          fun b => (f.set? t b).bind (ofParts? p fields) := funext (ih hap hf)
      simp only [ofParts?, if_neg hne, hrest]
      -- setting the two fields in either order gives the same record
      cases hpg : p g.name with
      | none => simp [Field.put?]
      | some u =>
        simp only [Field.put?]
        rw [← Option.bind_assoc, (hg f hf).comm u t a, Option.bind_assoc]

/-- **An object with single keys is read field by field.** -/
theorem ofMembers?_eq {fields : List (Field α)} (hap : fields.Pairwise Field.Apart)
    {ms : List (String × Json)} (hk : (Json.keys ms).Nodup) {seen : List String}
    (hs : ∀ key ∈ seen, key ∉ Json.keys ms) (a : α) :
    ofMembers? fields seen a (Tree.ofMembers ms) =
      ofParts? (fun name => (ms.lookup name).map Tree.ofJson) fields a := by
  induction ms generalizing seen a with
  | nil => simp [Tree.ofMembers, ofMembers?, ofParts?_none]
  | cons m ms ih =>
    obtain ⟨key, v⟩ := m
    obtain ⟨hkey, hms⟩ : key ∉ Json.keys ms ∧ (Json.keys ms).Nodup := List.nodup_cons.1 hk
    have hseen : key ∉ seen := fun h => hs key h List.mem_cons_self
    have hs' : ∀ k ∈ seen, k ∉ Json.keys ms :=
      fun k hk' h => hs k hk' (List.mem_cons_of_mem _ h)
    have hparts : (fun name => (((key, v) :: ms).lookup name).map Tree.ofJson) =
        fun name => if name = key then some (Tree.ofJson v)
          else (ms.lookup name).map Tree.ofJson := by
      funext name
      by_cases hn : name = key <;> simp [List.lookup_cons, hn, beq_eq_false_iff_ne.2]
    rw [Tree.ofMembers, ofMembers?, Tree.string?_ofString, hparts]
    cases hf : fields.find? (·.name == key) with
    | none =>
      -- no field has this name
      have hne : ∀ f ∈ fields, f.name ≠ key := by simpa using hf
      simp only [hf]
      rw [ih hms hs']
      exact ofParts?_congr (fun f hf => by rw [if_neg (hne f hf)]) a
    | some f =>
      obtain rfl : f.name = key := by simpa using List.find?_some hf
      -- the field is set now, and its name does not come again
      have hnone : (ms.lookup f.name).map Tree.ofJson = none := by
        rw [Json.lookup_eq_none hkey, Option.map_none]
      rw [ofParts?_insert hap (List.mem_of_find?_eq_some hf) _ hnone]
      simp only [hf, List.contains_eq_mem, hseen, decide_false, Bool.false_eq_true, if_false]
      cases f.set? (Tree.ofJson v) a with
      | none => rfl
      | some b => exact ih hms (List.forall_mem_cons.2 ⟨hkey, hs'⟩) b

theorem ofTree?_object {fields : List (Field α)} (hap : fields.Pairwise Field.Apart)
    {ms : List (String × Json)} (hk : (Json.keys ms).Nodup) (a : α) :
    ofTree? fields a (Tree.ofJson (.object ms)) =
      ofParts? (fun name => (ms.lookup name).map Tree.ofJson) fields a :=
  ofMembers?_eq hap hk (by simp) a

/-- Parts that a record has by default may be given or left out. -/
theorem ofParts?_layered {fields : List (Field α)} (hap : fields.Pairwise Field.Apart)
    {p q : String → Option Tree} {a : α}
    (h : ∀ f ∈ fields, (∀ b, f.put? (p f.name) b = f.put? (q f.name) b) ∨
      q f.name = none ∧ ∃ t, p f.name = some t ∧ f.set? t a = some a) :
    ofParts? p fields a = ofParts? q fields a := by
  induction fields generalizing a with
  | nil => rfl
  | cons f fields ih =>
    obtain ⟨hf, hap⟩ := List.pairwise_cons.1 hap
    rw [List.forall_mem_cons] at h
    have hput : f.put? (p f.name) a = f.put? (q f.name) a := by
      rcases h.1 with h | ⟨hq, t, hp, ht⟩
      · exact h a
      · simp [hq, hp, Field.put?, ht]
    simp only [ofParts?, hput]
    cases hb : f.put? (q f.name) a with
    | none => rfl
    | some b =>
      -- the defaults of the fields still to come are as they were
      refine ih hap fun g hg => (h.2 g hg).imp_right fun ⟨hq, t, hp, ht⟩ => ⟨hq, t, hp, ?_⟩
      exact (hf g hg).put?_eq_self ht hb

/-! ### What is not given -/

theorem ofParts?_kept {get : α → β} {p : String → Option Tree} {fields : List (Field α)}
    (h : ∀ f ∈ fields, p f.name = none ∨ f.Keeps get) {a a' : α}
    (ha : ofParts? p fields a = some a') : get a' = get a := by
  induction fields generalizing a with
  | nil => rw [Option.some.inj ha]
  | cons f fields ih =>
    rw [List.forall_mem_cons] at h
    obtain ⟨b, hb, ha⟩ := Option.bind_eq_some_iff.1 ha
    refine (ih h.2 ha).trans ?_
    cases hp : p f.name with
    | none =>
      rw [hp] at hb
      rw [Option.some.inj hb]
    | some t =>
      rw [hp] at hb
      exact (h.1.resolve_left (by simp [hp])) t a b hb

theorem ofItems?_kept {get : α → β} {fields : List (Field α)} {ts : List Tree}
    (h : ∀ f ∈ fields.take ts.length, f.Keeps get) {a a' : α}
    (ha : ofItems? a fields ts = some a') : get a' = get a := by
  induction ts generalizing fields a with
  | nil =>
    rw [ofItems?] at ha
    rw [Option.some.inj ha]
  | cons t ts ih =>
    cases fields with
    | nil => simp [ofItems?] at ha
    | cons f fields =>
      rw [List.length_cons, List.take_succ_cons, List.forall_mem_cons] at h
      rw [ofItems?] at ha
      cases hb : f.set? t a with
      | none => simp [hb] at ha
      | some b => exact (ih h.2 (by simpa only [hb] using ha)).trans (h.1 t a b hb)

/-- **A field that is not given keeps what it was**, in an object as in an array. -/
theorem ofTree?_kept {fields : List (Field α)} (hap : fields.Pairwise Field.Apart) {get : α → β}
    {f : Field α} {place : Nat} (hf : fields[place]? = some f)
    (hget : ∀ g ∈ fields, g.name ≠ f.name → g.Keeps get) {v : Json} (hv : v.Single)
    (hpart : v.part? f.name place = none) {a a' : α}
    (ha : ofTree? fields a (Tree.ofJson v) = some a') : get a' = get a := by
  cases hv with
  | object once =>
    rw [ofTree?_object hap once] at ha
    refine ofParts?_kept (fun g hg => ?_) ha
    by_cases hn : g.name = f.name
    · exact .inl (by rw [hn]; simpa [Json.part?] using hpart)
    · exact .inr (hget g hg hn)
  | @array items _ =>
    refine ofItems?_kept (fun g hg => ?_) ha
    obtain ⟨i, hi, rfl⟩ := List.mem_take_iff_getElem.1 hg
    have hlen : items.length ≤ place := by simpa [Json.part?] using hpart
    have hplace : place < fields.length := (List.getElem?_eq_some_iff.1 hf).1
    rw [Tree.ofItems_eq, List.length_map] at hi
    refine hget _ (List.getElem_mem _) ?_
    rw [← (List.getElem?_eq_some_iff.1 hf).2]
    exact (List.pairwise_iff_getElem.1 hap i place (by omega) hplace (by omega)).name_ne
  | _ => simp [Tree.ofJson, ofTree?] at ha

/-! ### What is given -/

theorem ofParts?_given {get : α → β} {p : String → Option Tree} {fields : List (Field α)}
    (hap : fields.Pairwise Field.Apart) {f : Field α} (hf : f ∈ fields)
    (hget : ∀ g ∈ fields, g.name ≠ f.name → g.Keeps get) {t : Tree} (hp : p f.name = some t)
    {a a' : α} (ha : ofParts? p fields a = some a') :
    ∃ b b', f.set? t b = some b' ∧ get a' = get b' := by
  induction fields generalizing a with
  | nil => simp at hf
  | cons g fields ih =>
    obtain ⟨hg, hap⟩ := List.pairwise_cons.1 hap
    rw [List.forall_mem_cons] at hget
    obtain ⟨b, hb, hrest⟩ := Option.bind_eq_some_iff.1 ha
    rcases List.mem_cons.1 hf with rfl | hf
    · rw [hp] at hb
      exact ⟨a, b, hb, ofParts?_kept
        (fun g hg' => .inr (hget.2 g hg' (hg g hg').name_ne.symm)) hrest⟩
    · exact ih hap hf hget.2 hrest

theorem ofItems?_given {get : α → β} {fields : List (Field α)}
    (hap : fields.Pairwise Field.Apart) {place : Nat} {f : Field α} (hf : fields[place]? = some f)
    (hget : ∀ g ∈ fields, g.name ≠ f.name → g.Keeps get) {ts : List Tree} {t : Tree}
    (ht : ts[place]? = some t) {a a' : α} (ha : ofItems? a fields ts = some a') :
    ∃ b b', f.set? t b = some b' ∧ get a' = get b' := by
  induction fields generalizing place ts a with
  | nil => simp at hf
  | cons g fields ih =>
    obtain ⟨hg, hap⟩ := List.pairwise_cons.1 hap
    rw [List.forall_mem_cons] at hget
    cases ts with
    | nil => simp at ht
    | cons u ts =>
      rw [ofItems?] at ha
      cases hb : g.set? u a with
      | none => simp [hb] at ha
      | some b =>
        have ha : ofItems? b fields ts = some a' := by simpa only [hb] using ha
        cases place with
        | zero =>
          -- the item is for this field, and the later ones leave what is asked for alone
          obtain rfl : g = f := Option.some.inj hf
          obtain rfl : u = t := Option.some.inj ht
          refine ⟨a, b, hb, ofItems?_kept (fun g' hg' => ?_) ha⟩
          have hmem := List.mem_of_mem_take hg'
          exact hget.2 g' hmem (hg g' hmem).name_ne.symm
        | succ place => exact ih hap hf hget.2 ht ha

/-- **A field that is given is read from what is given for it.** -/
theorem ofTree?_given {fields : List (Field α)} (hap : fields.Pairwise Field.Apart) {get : α → β}
    {f : Field α} {place : Nat} (hf : fields[place]? = some f)
    (hget : ∀ g ∈ fields, g.name ≠ f.name → g.Keeps get) {v u : Json} (hv : v.Single)
    (hpart : v.part? f.name place = some u) {a a' : α}
    (ha : ofTree? fields a (Tree.ofJson v) = some a') :
    ∃ b b', f.set? (Tree.ofJson u) b = some b' ∧ get a' = get b' := by
  cases hv with
  | @object members once =>
    rw [ofTree?_object hap once] at ha
    have hlook : members.lookup f.name = some u := hpart
    exact ofParts?_given hap (List.mem_of_getElem? hf) hget (by rw [hlook]; rfl) ha
  | @array items _ =>
    have hitem : items[place]? = some u := hpart
    refine ofItems?_given hap hf hget ?_ ha
    rw [Tree.ofItems_eq, List.getElem?_map, hitem, Option.map_some]
  | _ => simp [Tree.ofJson, ofTree?] at ha

end Record

end Duplex
