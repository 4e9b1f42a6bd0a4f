/-
Duplex/Proofs/Json/Forms.lean

The forms in which a record may be written.

A record is written as the array of its parts in order, or as an object: with
the parts in any order, with members of other names among them, and without
parts that have their defaults (`Record.IsForm`).  A part may be a record itself
and have forms of its own.

In an object a part is called for by its name, and there is one member of that
name or, if the part has its default, none (`Members.given`).  Reading a part in
any of its forms gives the part, and the default is what reading starts from
(`Record.Fits`); so every form of a record is read as that record
(`Record.Fits.ofTree?_form`), and so is its text (`Record.Fits.read?_write`).
-/
import Duplex.Proofs.Json.Trees
import Mathlib.Data.List.Forall2
import Mathlib.Data.List.Perm.Basic

namespace Duplex

/-! ### Members of one name -/

namespace Json

variable {ms : List (String × Json)} {name : String}

/-- The members of that name. -/
def called (name : String) (ms : List (String × Json)) : List (String × Json) :=
  ms.filter (·.1 == name)

theorem called_cons_self (v : Json) (ms : List (String × Json)) :
    called name ((name, v) :: ms) = (name, v) :: called name ms :=
  List.filter_cons_of_pos (by simp)

theorem called_cons_of_ne {key : String} (h : key ≠ name) (v : Json)
    (ms : List (String × Json)) : called name ((key, v) :: ms) = called name ms :=
  List.filter_cons_of_neg (by simpa using h)

theorem called_eq_nil_iff : called name ms = [] ↔ name ∉ keys ms := by
  rw [called, List.filter_eq_nil_iff]
  constructor
  · intro h hmem
    obtain ⟨m, hm, hname⟩ := List.mem_map.mp hmem
    exact h m hm (by simpa using hname)
  · intro h m hm he
    rw [beq_iff_eq] at he
    exact h (he ▸ List.mem_map_of_mem hm)

theorem called_append (name : String) (ms ms' : List (String × Json)) :
    called name (ms ++ ms') = called name ms ++ called name ms' :=
  List.filter_append ..

theorem lookup_eq_called (name : String) (ms : List (String × Json)) :
    ms.lookup name = (called name ms).head?.map (·.2) := by
  induction ms with
  | nil => rfl
  | cons m ms ih =>
    obtain ⟨key, v⟩ := m
    by_cases h : key = name
    · subst h
      rw [called_cons_self, List.lookup_cons_self]
      rfl
    · have hne : (name == key) = false := by simpa using Ne.symm h
      rw [called_cons_of_ne h, List.lookup_cons, hne]
      exact ih

end Json

namespace Record

open Json

/-! ### Forms -/

/-- A part of a record as it is written. -/
structure Slot where
  name : String
  /-- The part may be written as this value. -/
  IsForm : Json → Prop
  /-- The part has its default. -/
  IsDefault : Prop

/-- A part that is written in one way. -/
def Slot.plain (name : String) (v : Json) (default : Prop) : Slot := ⟨name, (· = v), default⟩

/-- The members of an object that a record with these parts may be written as. -/
inductive Members (parts : List Slot) : List (String × Json) → Prop
  | written {ms : List (String × Json)}
      (each : List.Forall₂ (fun p m => m.1 = p.name ∧ p.IsForm m.2) parts ms) : Members parts ms
  | permuted {ms ms' : List (String × Json)} (members : Members parts ms) (perm : ms.Perm ms') :
      Members parts ms'
  | unknown {ms : List (String × Json)} {key : String} (members : Members parts ms)
      (other : ∀ p ∈ parts, p.name ≠ key) (v : Json) : Members parts ((key, v) :: ms)
  | leftOut {ms : List (String × Json)} {p : Slot} {v : Json}
      (members : Members parts ((p.name, v) :: ms)) (part : p ∈ parts) (default : p.IsDefault) :
      Members parts ms

/-- A record with these parts may be written as this value. -/
inductive IsForm (parts : List Slot) : Json → Prop
  | array {items : List Json} (each : List.Forall₂ (fun p v => p.IsForm v) parts items) :
      IsForm parts (.array items)
  | object {ms : List (String × Json)} (members : Members parts ms) : IsForm parts (.object ms)

/-- A part that is a record itself. -/
def Slot.record (name : String) (parts : List Slot) (default : Prop) : Slot :=
  ⟨name, Record.IsForm parts, default⟩

variable {parts : List Slot} {ms : List (String × Json)}

/-- One member of the name is given for the part, or none and the part has its default. -/
def Given (ms : List (String × Json)) (p : Slot) : Prop :=
  (∃ v, called p.name ms = [(p.name, v)] ∧ p.IsForm v) ∨ called p.name ms = [] ∧ p.IsDefault

theorem Given.length_le {p : Slot} (h : Given ms p) : (called p.name ms).length ≤ 1 := by
  rcases h with ⟨v, hv, -⟩ | ⟨hnone, -⟩
  · rw [hv]
    exact Nat.le_refl 1
  · rw [hnone]
    exact Nat.zero_le 1

/-- What is left out may be written behind the members. -/
theorem Given.exists_form {ms' : List (String × Json)} {p : Slot} (h : Given ms p)
    (h' : ∃ v, called p.name ms' = [(p.name, v)] ∧ p.IsForm v) :
    ∃ v, (ms ++ ms').lookup p.name = some v ∧ p.IsForm v := by
  rw [lookup_eq_called, called_append]
  rcases h with ⟨v, hv, hform⟩ | ⟨hnone, -⟩
  · exact ⟨v, by rw [hv]; rfl, hform⟩
  · obtain ⟨v, hv, hform⟩ := h'
    exact ⟨v, by rw [hnone, hv]; rfl, hform⟩

theorem keys_of_written
    (each : List.Forall₂ (fun p m => m.1 = p.name ∧ p.IsForm m.2) parts ms) :
    keys ms = parts.map (·.name) := by
  induction each with
  | nil => rfl
  | cons h _ ih => rw [keys_cons, List.map_cons, h.1, ih]

theorem given_of_written (hnames : (parts.map (·.name)).Nodup)
    (each : List.Forall₂ (fun p m => m.1 = p.name ∧ p.IsForm m.2) parts ms) :
    ∀ p ∈ parts, ∃ v, called p.name ms = [(p.name, v)] ∧ p.IsForm v := by
  induction each with
  | nil => simp
  | @cons q m parts ms hm each ih =>
    obtain ⟨key, v⟩ := m
    obtain ⟨rfl, hv⟩ : key = q.name ∧ q.IsForm v := hm
    obtain ⟨hq, hnames⟩ : q.name ∉ parts.map (·.name) ∧ (parts.map (·.name)).Nodup :=
      List.nodup_cons.mp hnames
    rw [List.forall_mem_cons]
    refine ⟨⟨v, ?_, hv⟩, fun p hp => ?_⟩
    · rw [called_cons_self, called_eq_nil_iff.mpr]
      rwa [keys_of_written each]
    · have hne : q.name ≠ p.name := by
        intro h
        rw [h] at hq
        exact hq (List.mem_map_of_mem hp)
      rw [called_cons_of_ne hne]
      exact ih hnames p hp

/-- **In every form each part is given once**, or it is left out and has its default. -/
theorem Members.given (hnames : (parts.map (·.name)).Nodup) (h : Members parts ms) :
    ∀ p ∈ parts, Given ms p := by
  induction h with
  | written each => exact fun p hp => .inl (given_of_written hnames each p hp)
  -- the members of one name keep their number under a permutation, and here there is at most one
  | @permuted ms ms' _ perm ih =>
    intro p hp
    have hcalled : (called p.name ms).Perm (called p.name ms') := perm.filter _
    rcases ih p hp with ⟨v, hv, hform⟩ | ⟨hnone, hdefault⟩
    · rw [hv] at hcalled
      exact .inl ⟨v, (List.singleton_perm.mp hcalled).symm, hform⟩
    · rw [hnone] at hcalled
      exact .inr ⟨List.nil_perm.mp hcalled, hdefault⟩
  -- an unknown member is of no part's name
  | unknown _ other v ih =>
    intro p hp
    rw [Given, called_cons_of_ne (other p hp).symm]
    exact ih p hp
  | @leftOut ms q v _ part default ih =>
    intro p hp
    have hgiven := ih p hp
    -- the member left out was the only one of its name, and others are not called for by it
    by_cases hname : q.name = p.name
    · obtain rfl : q = p := List.inj_on_of_nodup_map hnames part hp hname
      rw [Given, called_cons_self] at hgiven
      refine .inr ⟨?_, default⟩
      rcases hgiven with ⟨w, hw, -⟩ | ⟨hnone, -⟩
      · exact (List.cons.inj hw).2
      · cases hnone
    · rwa [Given, called_cons_of_ne hname] at hgiven

/-! ### Members of other names -/

variable {α : Type} {fields : List (Field α)}

/-- The members that have the name of a field. -/
def known (fields : List (Field α)) (ms : List (String × Json)) : List (String × Json) :=
  ms.filter fun m => fields.any (·.name == m.1)

theorem known_cons {key : String} (h : fields.any (·.name == key) = true) (v : Json)
    (ms : List (String × Json)) : known fields ((key, v) :: ms) = (key, v) :: known fields ms :=
  List.filter_cons_of_pos h

theorem known_cons_of_not {key : String} (h : ¬fields.any (·.name == key) = true) (v : Json)
    (ms : List (String × Json)) : known fields ((key, v) :: ms) = known fields ms :=
  List.filter_cons_of_neg h

/-- Members of other names are passed over. -/
theorem ofMembers?_known (seen : List String) (a : α) (ms : List (String × Json)) :
    ofMembers? fields seen a (Tree.ofMembers (known fields ms)) =
      ofMembers? fields seen a (Tree.ofMembers ms) := by
  induction ms generalizing seen a with
  | nil => rfl
  | cons m ms ih =>
    obtain ⟨key, v⟩ := m
    cases hf : fields.find? (·.name == key) with
    | none =>
      -- no field has this name: the member is passed over either way
      have hother : ¬fields.any (·.name == key) = true := by
        rw [List.any_eq_true]
        rintro ⟨f, hmem, hname⟩
        exact List.find?_eq_none.mp hf f hmem hname
      rw [known_cons_of_not hother, ih, Tree.ofMembers, ofMembers?, Tree.string?_ofString]
      simp only [hf]
    | some f =>
      have hname : f.name = key := by simpa using List.find?_some hf
      -- the field is found, and both readings go on alike
      have hfield : fields.any (·.name == key) = true := by
        rw [List.any_eq_true]
        exact ⟨f, List.mem_of_find?_eq_some hf, by simp [hname]⟩
      simp only [known_cons hfield, Tree.ofMembers, ofMembers?, Tree.string?_ofString, hf]
      split
      · rfl
      · split
        · rfl
        · exact ih _ _

/-- What is called for by the name of a field is known. -/
theorem called_known {f : Field α} (hf : f ∈ fields) (ms : List (String × Json)) :
    called f.name (known fields ms) = called f.name ms := by
  rw [called, known, List.filter_filter]
  apply List.filter_congr
  intro m _
  rcases hm : m.1 == f.name with - | -
  · rfl
  · rw [beq_iff_eq] at hm
    rw [hm, Bool.true_and, List.any_eq_true]
    exact ⟨f, hf, by simp⟩

theorem nodup_keys_known (honce : ∀ f ∈ fields, (called f.name ms).length ≤ 1) :
    (keys (known fields ms)).Nodup := by
  induction ms with
  | nil => exact List.nodup_nil
  | cons m ms ih =>
    obtain ⟨key, v⟩ := m
    have hrest : ∀ f ∈ fields, (called f.name ms).length ≤ 1 := by
      intro f hf
      have hsub : (called f.name ms).Sublist (called f.name ((key, v) :: ms)) :=
        (List.sublist_cons_self (key, v) ms).filter _
      exact Nat.le_trans hsub.length_le (honce f hf)
    by_cases hfield : fields.any (·.name == key) = true
    · obtain ⟨f, hf, hname⟩ := List.any_eq_true.mp hfield
      obtain rfl : f.name = key := by simpa using hname
      have hnone : called f.name ms = [] := by
        have hlength := honce f hf
        rw [called_cons_self, List.length_cons] at hlength
        exact List.eq_nil_of_length_eq_zero (by omega)
      rw [known_cons hfield, keys_cons, List.nodup_cons]
      refine ⟨?_, ih hrest⟩
      rwa [← called_eq_nil_iff, called_known hf]
    · rw [known_cons_of_not hfield]
      exact ih hrest

/-- **An object is read field by field** if nothing is given twice for a field. -/
theorem ofTree?_known (hap : fields.Pairwise Field.Apart)
    (honce : ∀ f ∈ fields, (called f.name ms).length ≤ 1) (a : α) :
    ofTree? fields a (Tree.ofJson (.object ms)) =
      ofParts? (fun name => (ms.lookup name).map Tree.ofJson) fields a := by
  have hsame : ofTree? fields a (Tree.ofJson (.object ms)) =
      ofTree? fields a (Tree.ofJson (.object (known fields ms))) :=
    (ofMembers?_known [] a ms).symm
  rw [hsame, ofTree?_object hap (nodup_keys_known honce)]
  apply ofParts?_congr
  intro f hf
  rw [lookup_eq_called, lookup_eq_called, called_known hf]

/-! ### Reading forms -/

/-- Reading the fields one after another in the forms of the parts leads from `x` to `y`, and a
part that has its default is a part of `start`. -/
inductive Fits (start : α) : List (Field α) → List Slot → α → α → Prop
  | nil (x : α) : Fits start [] [] x x
  | cons {β : Type} {name : String} {read? : Tree → Option β} {put : β → α → α}
      {form : Json → Prop} {default : Prop} {fields : List (Field α)} {parts : List Slot}
      {x y : α} {b : β} (reads : ∀ v, form v → read? (Tree.ofJson v) = some b)
      (given : ∃ v, form v) (keeps : default → put b start = start)
      (rest : Fits start fields parts (put b x) y) :
      Fits start (.of name read? put :: fields) (⟨name, form, default⟩ :: parts) x y

namespace Fits

variable {start x y : α}

/-- A part that is written in one way is read from what it is written as. -/
theorem plain {β : Type} {name : String} {read? : Tree → Option β} {put : β → α → α} {v : Json}
    {default : Prop} {b : β} (reads : read? (Tree.ofJson v) = some b)
    (keeps : default → put b start = start) (rest : Fits start fields parts (put b x) y) :
    Fits start (.of name read? put :: fields) (.plain name v default :: parts) x y := by
  refine .cons ?_ ⟨v, rfl⟩ keeps rest
  rintro _ rfl
  exact reads

theorem names (h : Fits start fields parts x y) :
    fields.map (·.name) = parts.map (·.name) := by
  induction h with
  | nil => rfl
  | cons _ _ _ _ ih =>
    rw [List.map_cons, List.map_cons, ih]
    rfl

/-- The parts can be written. -/
theorem exists_written (h : Fits start fields parts x y) :
    ∃ ms : List (String × Json),
      List.Forall₂ (fun p m => m.1 = p.name ∧ p.IsForm m.2) parts ms := by
  induction h with
  | nil => exact ⟨[], .nil⟩
  | @cons _ name _ _ _ _ _ _ _ _ _ _ given _ _ ih =>
    obtain ⟨ms, hms⟩ := ih
    obtain ⟨v, hv⟩ := given
    exact ⟨(name, v) :: ms, .cons ⟨rfl, hv⟩ hms⟩

/-- **The array of the parts is read as the record.** -/
theorem ofItems?_eq (h : Fits start fields parts x y) {vs : List Json}
    (each : List.Forall₂ (fun p v => p.IsForm v) parts vs) :
    ofItems? x fields (Tree.ofItems vs) = some y := by
  induction h generalizing vs with
  | nil =>
    cases each
    rfl
  | cons reads _ _ _ ih =>
    obtain - | ⟨hv, each⟩ := each
    simp only [Tree.ofItems, ofItems?, Field.of, reads _ hv, Option.map_some]
    exact ih each

/-- When a form is given for every part, the record is read. -/
theorem ofParts?_eq (h : Fits start fields parts x y) {part? : String → Option Tree}
    (hpart : ∀ p ∈ parts, ∃ v, part? p.name = some (Tree.ofJson v) ∧ p.IsForm v) :
    ofParts? part? fields x = some y := by
  induction h with
  | nil => rfl
  | cons reads _ _ _ ih =>
    obtain ⟨⟨v, hv, hform⟩, hpart⟩ := List.forall_mem_cons.mp hpart
    simp only [ofParts?, Field.of, Field.put?, hv, reads v hform, Option.map_some,
      Option.bind_some]
    exact ih hpart

/-- What a part with its default is read as changes nothing to begin with. -/
theorem keeps_of_mem (h : Fits start fields parts x y) {f : Field α} (hf : f ∈ fields) :
    ∃ p ∈ parts, p.name = f.name ∧
      (p.IsDefault → ∀ v, p.IsForm v → f.set? (Tree.ofJson v) start = some start) := by
  induction h with
  | nil => cases hf
  | cons reads _ keeps _ ih =>
    rcases List.mem_cons.mp hf with rfl | hf
    · refine ⟨_, List.mem_cons_self, rfl, fun hdefault v hv => ?_⟩
      simp only [Field.of, reads v hv, Option.map_some, keeps hdefault]
    · obtain ⟨p, hp, hkeeps⟩ := ih hf
      exact ⟨p, List.mem_cons_of_mem _ hp, hkeeps⟩

/-- **Every form of a record is read as the record.** -/
theorem ofTree?_form (h : Fits start fields parts start y) (hap : fields.Pairwise Field.Apart)
    {v : Json} (hv : IsForm parts v) : ofTree? fields start (Tree.ofJson v) = some y := by
  cases hv with
  | array each => exact h.ofItems?_eq each
  | @object ms members =>
    have hnames : (parts.map (·.name)).Nodup := by
      rw [← h.names]
      exact List.pairwise_map.mpr (hap.imp Field.Apart.name_ne)
    have hgiven := members.given hnames
    obtain ⟨ms', hms'⟩ := h.exists_written
    -- with the written members put under those that are given, every part is there
    have hwritten := given_of_written hnames hms'
    have hfull : ofParts? (fun name => ((ms ++ ms').lookup name).map Tree.ofJson) fields start =
        some y := by
      apply h.ofParts?_eq
      intro p hp
      obtain ⟨v, hv, hform⟩ := (hgiven p hp).exists_form (hwritten p hp)
      exact ⟨v, by rw [hv, Option.map_some], hform⟩
    have honce : ∀ f ∈ fields, (called f.name ms).length ≤ 1 := by
      intro f hf
      obtain ⟨p, hp, hname, -⟩ := h.keeps_of_mem hf
      rw [← hname]
      exact (hgiven p hp).length_le
    rw [ofTree?_known hap honce, ← hfull]
    symm
    apply ofParts?_layered hap
    intro f hf
    obtain ⟨p, hp, hname, hkeeps⟩ := h.keeps_of_mem hf
    rw [← hname]
    rcases hgiven p hp with ⟨v, hv, -⟩ | ⟨hnone, hdefault⟩
    -- a part that is given hides the written one
    · left
      intro b
      rw [lookup_eq_called, lookup_eq_called, called_append, hv]
      rfl
    -- the part that is left out is what it is read as in any case
    · right
      obtain ⟨v, hv, hform⟩ := (hgiven p hp).exists_form (hwritten p hp)
      rw [lookup_eq_called p.name ms, hnone, hv]
      exact ⟨rfl, Tree.ofJson v, rfl, hkeeps hdefault v hform⟩

/-- **Every form of a record is read back from its text**, as the record. -/
theorem read?_write (h : Fits start fields parts start y) (hap : fields.Pairwise Field.Apart)
    (halike : ∀ f ∈ fields, f.ReadsAlike) {v : Json} (hv : IsForm parts v) :
    read? fields start v.write = some y := by
  rw [Record.read?_write halike, h.ofTree?_form hap hv]

/-- A part that is a record itself is read in each of its forms. -/
theorem record {β : Type} {inner : List (Field β)} {innerParts : List Slot} {b₀ b : β}
    (h : Fits b₀ inner innerParts b₀ b) (hap : inner.Pairwise Field.Apart) {v : Json}
    (hv : IsForm innerParts v) {name : String} {put : β → α → α} {default : Prop}
    (keeps : default → put b start = start) (rest : Fits start fields parts (put b x) y) :
    Fits start (.of name (ofTree? inner b₀) put :: fields)
      (.record name innerParts default :: parts) x y := by
  apply Fits.cons _ ⟨v, hv⟩ keeps rest
  intro w hw
  exact h.ofTree?_form hap hw

end Fits

end Record

end Duplex
