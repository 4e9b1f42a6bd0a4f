/-
Duplex/Proofs/Server/Mounts.lean

The table of mounts that installations leave behind.

A path has one form, whatever the slashes at its ends: `normalize` gives the
same path for two spellings exactly when they are the same text between those
slashes (`normalize_eq_iff`), and leaves a path in that form alone.  So the
table has one entry for each text, in the order in which the texts came first,
and the entry holds what was installed last:

    (ofInstallations is).paths = (is.map (normalize ·.spelling)).eraseDups.

`put` is the step, which changes the entry of its own path or adds one, and
`table_of_installations` says what it comes to over a row of installations.
-/
import Duplex.Server.Mount
import Mathlib.Data.List.Induction
import Mathlib.Data.List.Nodup
import Mathlib.Data.List.TakeWhile

namespace Duplex

/-! ### The form of a path -/

namespace Mount

/-- `core` is what is left of a path when the slashes at both its ends are taken away. -/
structure Trims (cs core : List Char) : Prop where
  split : ∃ m n, cs = List.replicate m '/' ++ core ++ List.replicate n '/'
  head : core.head? ≠ some '/'
  last : core.getLast? ≠ some '/'

/-- The path without the slashes at its ends. -/
def core (cs : List Char) : List Char :=
  Text.dropEndWhile (· == '/') (cs.dropWhile (· == '/'))

theorem normalizeChars_eq (cs : List Char) :
    normalizeChars cs = if core cs = [] then [] else '/' :: core cs := by
  rw [normalizeChars, ← core]
  cases core cs <;> rfl

theorem dropWhile_slash {cs : List Char} (h : cs.head? ≠ some '/') :
    cs.dropWhile (· == '/') = cs := by
  cases cs with
  | nil => rfl
  | cons c cs => exact List.dropWhile_cons_of_neg (by simpa using h)

theorem head?_dropWhile_slash (cs : List Char) : (cs.dropWhile (· == '/')).head? ≠ some '/' := by
  intro h
  have hnot := List.head?_dropWhile_not (· == '/') cs
  rw [h] at hnot
  simp at hnot

/-- Slashes in front, and then a text that does not begin with one. -/
theorem exists_replicate_append (cs : List Char) :
    ∃ m, cs = List.replicate m '/' ++ cs.dropWhile (· == '/') := by
  refine ⟨(cs.takeWhile (· == '/')).length, ?_⟩
  have hall : cs.takeWhile (· == '/') =
      List.replicate (cs.takeWhile (· == '/')).length '/' :=
    List.eq_replicate_of_mem fun c hc => by simpa using List.mem_takeWhile_imp hc
  rw [← hall, List.takeWhile_append_dropWhile]

theorem trims_core (cs : List Char) : Trims cs (core cs) := by
  obtain ⟨m, hm⟩ := exists_replicate_append cs
  obtain ⟨n, hn⟩ := exists_replicate_append (cs.dropWhile (· == '/')).reverse
  have hback : cs.dropWhile (· == '/') = core cs ++ List.replicate n '/' := by
    rw [← List.reverse_inj, hn, List.reverse_append, List.reverse_replicate, core,
      Text.dropEndWhile, List.reverse_reverse]
  refine ⟨⟨m, n, by rw [List.append_assoc, ← hback, ← hm]⟩, ?_, ?_⟩
  · -- what the core begins with the rest of the path begins with
    intro h
    refine head?_dropWhile_slash cs ?_
    rw [hback, List.head?_append, h]
    rfl
  · rw [core, Text.dropEndWhile, List.getLast?_reverse]
    exact head?_dropWhile_slash _

theorem Trims.core_eq {cs c : List Char} (h : Trims cs c) : core cs = c := by
  obtain ⟨m, n, rfl⟩ := h.split
  have hfront : (List.replicate m '/' ++ c ++ List.replicate n '/').dropWhile (· == '/') =
      (c ++ List.replicate n '/').dropWhile (· == '/') := by
    rw [List.append_assoc]
    exact List.dropWhile_append_of_pos fun a ha => by simp [List.eq_of_mem_replicate ha]
  rw [core, hfront]
  -- behind an empty core there are only more slashes, and they are dropped as well
  cases c with
  | nil => simp [Text.dropEndWhile]
  | cons a c =>
    have ha : (a :: c ++ List.replicate n '/').head? ≠ some '/' := h.head
    rw [dropWhile_slash ha, Text.dropEndWhile, List.reverse_append, List.reverse_replicate,
      List.dropWhile_append_of_pos fun b hb => by simp [List.eq_of_mem_replicate hb],
      dropWhile_slash (by rw [List.head?_reverse]; exact h.last), List.reverse_reverse]

theorem trims_iff {cs c : List Char} : Trims cs c ↔ core cs = c :=
  ⟨Trims.core_eq, fun h => h ▸ trims_core cs⟩

theorem core_normalizeChars (cs : List Char) : core (normalizeChars cs) = core cs := by
  have h := trims_core cs
  rw [normalizeChars_eq]
  split
  · next hnil => rw [hnil]
                 rfl
  · exact trims_iff.1 ⟨⟨1, 0, by simp⟩, h.head, h.last⟩

/-- **Two spellings have one form exactly if they are equal without the slashes at their ends.** -/
theorem normalize_eq_iff {a b : String} :
    normalize a = normalize b ↔ ∃ c, Trims a.toList c ∧ Trims b.toList c := by
  simp only [trims_iff, exists_eq_left']
  rw [normalize, normalize, String.ofList_inj]
  constructor
  · intro h
    rw [← core_normalizeChars a.toList, h, core_normalizeChars]
  · intro h
    rw [normalizeChars_eq, normalizeChars_eq, h]

/-- **The form of a path is left alone.** -/
theorem normalize_normalize (path : String) : normalize (normalize path) = normalize path :=
  normalize_eq_iff.2 ⟨core path.toList, by
    rw [trims_iff, normalize, String.toList_ofList, core_normalizeChars], trims_core _⟩

/-- The path is empty, or it has one slash in front and none at its end. -/
def IsNormal (path : String) : Prop :=
  path = "" ∨ ∃ c, path.toList = '/' :: c ∧ c.head? ≠ some '/' ∧ path.toList.getLast? ≠ some '/'

theorem IsNormal.getLast?_ne {path : String} (h : IsNormal path) :
    path.toList.getLast? ≠ some '/' := by
  rcases h with rfl | ⟨c, -, -, h⟩
  · simp
  · exact h

theorem isNormal_normalize (path : String) : IsNormal (normalize path) := by
  have h := trims_core path.toList
  by_cases hnil : core path.toList = []
  · exact .inl (by rw [normalize, normalizeChars_eq, if_pos hnil])
  · have hlist : (normalize path).toList = '/' :: core path.toList := by
      rw [normalize, String.toList_ofList, normalizeChars_eq, if_neg hnil]
    refine .inr ⟨core path.toList, hlist, h.head, ?_⟩
    rw [hlist, List.getLast?_cons_of_ne_nil hnil]
    exact h.last

end Mount

/-! ### One installation -/

/-- An application with the spelling of the path at which it is installed. -/
structure Installation where
  spelling : String
  options : Options
  onOpen : Application

/-- The mount that an installation makes. -/
def Installation.mount (i : Installation) : Mount :=
  ⟨Mount.normalize i.spelling, i.options, i.onOpen⟩

namespace Mounts

/-- The place of a spelling in the table; one that has none yet comes at the end. -/
def place (ms : Mounts) (spelling : String) : Nat := ms.paths.idxOf (Mount.normalize spelling)

theorem paths_put (m : Mount) (ms : Mounts) :
    (put m ms).paths = if m.path ∈ ms.paths then ms.paths else ms.paths ++ [m.path] := by
  induction ms with
  | nil => simp [put, paths]
  | cons m' ms ih =>
    by_cases h : m'.path = m.path
    · simp [put, paths, h]
    · simp only [paths] at ih
      by_cases hm : m.path ∈ ms.map (·.path) <;> simp [put, paths, h, Ne.symm h, ih, hm]

theorem nodup_paths_put {ms : Mounts} (h : ms.paths.Nodup) (m : Mount) :
    (put m ms).paths.Nodup := by
  rw [paths_put]
  split
  · exact h
  · next hm =>
    refine List.nodup_append.2 ⟨h, List.nodup_singleton _, fun p hp q hq => ?_⟩
    exact ne_of_mem_of_not_mem hp (List.mem_singleton.1 hq ▸ hm)

/-- The mount stands in the place of its path. -/
theorem getElem?_put_self (m : Mount) (ms : Mounts) :
    (put m ms)[ms.paths.idxOf m.path]? = some m := by
  induction ms with
  | nil => simp [put, paths]
  | cons m' ms ih =>
    by_cases h : m'.path = m.path
    · simp [put, paths, h]
    · simpa [put, paths, h, List.idxOf_cons, cond_eq_ite] using ih

/-- Mounts at other paths stay where they are. -/
theorem getElem?_put_of_ne {m m' : Mount} {ms : Mounts} {i : Nat} (hi : ms[i]? = some m')
    (hne : m'.path ≠ m.path) : (put m ms)[i]? = some m' := by
  induction ms generalizing i with
  | nil => simp at hi
  | cons m₀ ms ih =>
    by_cases h : m₀.path = m.path
    · cases i with
      | zero =>
        obtain rfl : m₀ = m' := by simpa using hi
        exact absurd h hne
      | succ i => simpa [put, h] using hi
    · cases i with
      | zero => simpa [put, h] using hi
      | succ i => simpa [put, h] using ih (by simpa using hi)

theorem mem_put {m m' : Mount} {ms : Mounts} (h : ms.paths.Nodup) (hm : m' ∈ put m ms) :
    m' = m ∨ m' ∈ ms ∧ m'.path ≠ m.path := by
  induction ms with
  | nil => exact .inl (by simpa [put] using hm)
  | cons m₀ ms ih =>
    obtain ⟨h₀, hms⟩ : m₀.path ∉ paths ms ∧ (paths ms).Nodup := List.nodup_cons.1 h
    by_cases hp : m₀.path = m.path
    · rcases List.mem_cons.1 (by simpa [put, hp] using hm) with hm | hm
      · exact .inl hm
      · refine .inr ⟨List.mem_cons_of_mem _ hm, fun e => h₀ ?_⟩
        rw [hp, ← e]
        exact List.mem_map_of_mem hm
    · rcases List.mem_cons.1 (by simpa [put, hp] using hm) with rfl | hm
      · exact .inr ⟨List.mem_cons_self, hp⟩
      · exact (ih hms hm).imp_right fun ⟨hm, hne⟩ => ⟨List.mem_cons_of_mem _ hm, hne⟩

/-! ### A row of installations -/

/-- The mounts after the installations. -/
def ofInstallations (is : List Installation) : Mounts :=
  is.foldl (fun ms i => ms.install i.spelling i.options i.onOpen) []

theorem ofInstallations_append (is : List Installation) (i : Installation) :
    ofInstallations (is ++ [i]) = put i.mount (ofInstallations is) := by
  rw [ofInstallations, List.foldl_append]
  rfl

theorem paths_ofInstallations (is : List Installation) :
    (ofInstallations is).paths = (is.map fun i => Mount.normalize i.spelling).eraseDups := by
  induction is using List.reverseRecOn with
  | nil => rfl
  | append_singleton is i ih =>
    have hpath : i.mount.path = Mount.normalize i.spelling := rfl
    rw [ofInstallations_append, paths_put, List.map_append, List.eraseDups_append, ih, hpath]
    simp only [List.mem_eraseDups, List.map_cons, List.map_nil]
    split <;> simp_all [List.removeAll, List.eraseDups_cons]

theorem nodup_paths_ofInstallations (is : List Installation) :
    (ofInstallations is).paths.Nodup := by
  induction is using List.reverseRecOn with
  | nil => exact List.nodup_nil
  | append_singleton is i ih =>
    rw [ofInstallations_append]
    exact nodup_paths_put ih i.mount

/-- **An entry holds what was installed last.** -/
theorem exists_last_of_mem {is : List Installation} {m : Mount} (hm : m ∈ ofInstallations is) :
    ∃ before i after, is = before ++ i :: after ∧ i.mount = m ∧
      ∀ j ∈ after, Mount.normalize j.spelling ≠ m.path := by
  induction is using List.reverseRecOn with
  | nil => simp [ofInstallations] at hm
  | append_singleton is i ih =>
    rw [ofInstallations_append] at hm
    -- the entry is the one just made, or an older one at another path
    rcases mem_put (nodup_paths_ofInstallations is) hm with rfl | ⟨hm, hne⟩
    · exact ⟨is, i, [], rfl, rfl, by simp⟩
    · obtain ⟨before, j, after, rfl, hj, hafter⟩ := ih hm
      refine ⟨before, j, after ++ [i], by simp, hj, fun k hk => ?_⟩
      rcases List.mem_append.1 hk with hk | hk
      · exact hafter k hk
      · obtain rfl := List.mem_singleton.1 hk
        exact hne.symm

/-- What the table of mounts is after a row of installations. -/
structure Table (is : List Installation) (ms : Mounts) : Prop where
  order : ms.paths = (is.map fun i => Mount.normalize i.spelling).eraseDups
  once : ms.paths.Nodup
  normal : ∀ path ∈ ms.paths, Mount.IsNormal path
  /-- Two spellings have one place if they are equal without the slashes at their ends. -/
  shared : ∀ i ∈ is, ∀ j ∈ is, ms.place i.spelling = ms.place j.spelling ↔
    ∃ core, Mount.Trims i.spelling.toList core ∧ Mount.Trims j.spelling.toList core
  last : ∀ m ∈ ms, ∃ before i after, is = before ++ i :: after ∧
    Mount.normalize i.spelling = m.path ∧ m.options = i.options ∧ m.onOpen = i.onOpen ∧
    ∀ j ∈ after, Mount.normalize j.spelling ≠ m.path
  /-- One more installation is put in the place of its spelling. -/
  placed : ∀ i : Installation,
    (ms.install i.spelling i.options i.onOpen)[ms.place i.spelling]? = some i.mount
  others : ∀ (i : Installation) (n : Nat) (m : Mount), ms[n]? = some m →
    m.path ≠ Mount.normalize i.spelling → (ms.install i.spelling i.options i.onOpen)[n]? = some m
  settled : ∀ path, Mount.normalize (Mount.normalize path) = Mount.normalize path

/-- **The table of mounts, whatever is installed.** -/
theorem table_of_installations (is : List Installation) : Table is (ofInstallations is) where
  order := paths_ofInstallations is
  once := nodup_paths_ofInstallations is
  normal path hpath := by
    rw [paths_ofInstallations, List.mem_eraseDups] at hpath
    obtain ⟨i, -, rfl⟩ := List.mem_map.1 hpath
    exact Mount.isNormal_normalize i.spelling
  shared i hi j _ := by
    have hmem : Mount.normalize i.spelling ∈ (ofInstallations is).paths := by
      rw [paths_ofInstallations, List.mem_eraseDups]
      exact List.mem_map_of_mem hi
    rw [place, place, List.idxOf_inj hmem]
    exact Mount.normalize_eq_iff
  last m hm := by
    obtain ⟨before, i, after, his, rfl, hafter⟩ := exists_last_of_mem hm
    exact ⟨before, i, after, his, rfl, rfl, rfl, hafter⟩
  placed i := getElem?_put_self i.mount _
  others _ _ _ hn hne := getElem?_put_of_ne hn hne
  settled := Mount.normalize_normalize

end Mounts

end Duplex
