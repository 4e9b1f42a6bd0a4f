/-
Duplex/Proofs/Server/Routes.lean

Which mounts can be served together.

The paths of mounts are in one form and all different, and the routes of a
mount are its path with something behind it.  Without braces in these paths,
what stands behind is told from what stands in front, with one exception: a
mount at `p/info` greets where a mount at `p` gives its information.  So two
routes have a path and a method in common exactly where a mount stands at the
path of another one with `/info` behind it,

    p ++ "/info" = p',

and mounts can be served exactly if there is no such pair, and no segment
begins with a reserved sign (`routed_of_installations`).

The steps are: a path without braces is a template of given segments
(`base_of_plain`), the shape of a route's template gives back its path
(`path_eq_of_shape`), and two routes at one path are those of such a pair
(`tell_apart`).  `Mounts.firstFault?` looks at all pairs of routes in order.
-/
import Duplex.Proofs.Server.Mounts
import Duplex.Proofs.Text.Forms
import Duplex.Server.Route
import Mathlib.Data.List.Pairwise

namespace Duplex

/-! ### Pieces -/

namespace Text

/-- A path is its segments, each with a slash in front. -/
theorem flatMap_pieces (cs : List Char) :
    (pieces (· == '/') cs).flatMap ('/' :: ·) = '/' :: cs := by
  induction cs with
  | nil => rfl
  | cons c cs ih =>
    cases hc : c == '/' with
    | true =>
      obtain rfl : c = '/' := by simpa using hc
      rw [pieces_cons_of_sep (by simp), List.flatMap_cons, ih]
      rfl
    | false =>
      rcases hp : pieces (· == '/') cs with - | ⟨part, rest⟩
      · exact absurd hp (pieces_ne_nil _ cs)
      · rw [hp] at ih
        rw [pieces_cons_of_not_sep (by exact hc) hp]
        simpa using ih

end Text

/-! ### Templates without braces -/

namespace Template

theorem signs_of_plain {cs : List Char} (ho : '\x7b' ∉ cs) (hc : '\x7d' ∉ cs) :
    signs cs = cs.map .plain := by
  fun_induction signs cs with
  | case1 cs ih => simp at ho
  | case2 cs ih => simp at hc
  | case3 cs h ih => simp at ho
  | case4 cs h ih => simp at hc
  | case5 c cs _ _ _ _ ih =>
    rw [List.map_cons, ih (fun h => ho (List.mem_cons_of_mem _ h))
      (fun h => hc (List.mem_cons_of_mem _ h))]
  | case6 => rfl

/-- Signs that are all plain are read as given segments. -/
theorem partsFrom_plain (room : Nat) {lead : List Char} (hlead : '/' ∉ lead) (cs : List Char) :
    partsFrom room lead none (cs.map .plain) =
      .ok ((Text.pieces (· == '/') (lead.reverse ++ cs)).map .given) := by
  have hno {lead : List Char} (h : '/' ∉ lead) : ∀ a ∈ lead.reverse, (a == '/') = false := by
    intro a ha
    simpa using ne_of_mem_of_not_mem (List.mem_reverse.1 ha) h
  induction cs generalizing lead with
  | nil =>
    rw [List.append_nil, Text.pieces_of_no_sep (hno hlead)]
    rfl
  | cons c cs ih =>
    by_cases hc : c = '/'
    · subst hc
      have hrest := @ih [] (by simp)
      rw [Text.pieces_append_sep (hno hlead) (by simp), List.map_cons, partsFrom, hrest]
      rfl
    · have hrest := @ih (c :: lead) (by simp [hlead, Ne.symm hc])
      rw [List.reverse_cons, List.append_assoc] at hrest
      rw [List.map_cons, partsFrom]
      · exact hrest
      · simpa using hc

theorem read?_of_plain {cs : List Char} (ho : '\x7b' ∉ cs) (hc : '\x7d' ∉ cs) :
    read? cs = .ok ((Text.pieces (· == '/') cs).map .given) := by
  rw [read?, signs_of_plain ho hc, partsFrom_plain maxParameters (by simp) cs]
  have hany : ((Text.pieces (· == '/') cs).map Part.given).dropLast.any Part.isGreedy = false := by
    refine List.any_eq_false.2 fun p hp => ?_
    obtain ⟨s, -, rfl⟩ := List.mem_map.1 ((List.dropLast_sublist _).mem hp)
    simp [Part.isGreedy, Part.name?]
  simp [hany]

theorem text_given (segments : List (List Char)) :
    text (segments.map .given) = segments.flatMap ('/' :: ·) := by
  simp [text, List.flatMap_map, Part.text]

end Template

/-! ### What stands in front of the routes of a mount -/

/-- The text has no braces. -/
def IsPlain (cs : List Char) : Prop := '\x7b' ∉ cs ∧ '\x7d' ∉ cs

namespace Mount

/-- No segment of the mount's path begins with a reserved sign. -/
def IsFree (m : Mount) : Prop :=
  ∀ s ∈ Text.pieces (· == '/') m.path.toList, ∀ sign ∈ reserved, s.head? ≠ some sign

/-- The segments of the mount's path, all of them given. -/
def front (m : Mount) : List Part :=
  if m.path.toList.isEmpty then []
  else (Text.pieces (· == '/') (m.path.toList.drop 1)).map .given

theorem findSome?_reserved_eq_none_iff {m : Mount} :
    ((Text.pieces (· == '/') m.path.toList).findSome? fun s =>
      reserved.find? (s.head? = some ·)) = none ↔ m.IsFree := by
  simp [IsFree, List.findSome?_eq_none_iff, List.find?_eq_none]

theorem base_of_plain {m : Mount} (hm : IsPlain m.path.toList) (hfree : m.IsFree) :
    m.base = .ok m.front := by
  have hdrop : IsPlain (m.path.toList.drop 1) :=
    ⟨fun h => hm.1 (List.mem_of_mem_drop h), fun h => hm.2 (List.mem_of_mem_drop h)⟩
  rw [base, findSome?_reserved_eq_none_iff.2 hfree, front]
  cases m.path.toList.isEmpty with
  | true => rfl
  | false =>
    have hany : ((Text.pieces (· == '/') (m.path.toList.drop 1)).map Part.given).any
        Part.isGreedy = false := by
      simp [List.any_map, Part.isGreedy, Part.name?]
    simp only [Template.read?_of_plain hdrop.1 hdrop.2, hany, Bool.false_eq_true, if_false]

/-- A mount with a reserved sign is refused for that. -/
theorem base_of_not_free {m : Mount} (h : ¬ m.IsFree) :
    ∃ sign, m.base = .error (.reserved sign) := by
  cases hs : (Text.pieces (· == '/') m.path.toList).findSome? fun s =>
      reserved.find? (s.head? = some ·) with
  | none => exact absurd (findSome?_reserved_eq_none_iff.1 hs) h
  | some sign => exact ⟨sign, by rw [base, hs]⟩

theorem text_front {m : Mount} (hm : IsNormal m.path) :
    Template.text m.front = m.path.toList := by
  rcases hm with hm | ⟨c, hc, -, -⟩
  · rw [front, hm]
    rfl
  · have hdrop : m.path.toList.drop 1 = c := by rw [hc, List.drop_one, List.tail_cons]
    rw [front, hdrop, if_neg (by simp [hc]), Template.text_given, Text.flatMap_pieces, hc]

theorem front_eq_nil_iff {m : Mount} : m.front = [] ↔ m.path = "" := by
  have hne := Text.pieces_ne_nil (· == '/') (m.path.toList.drop 1)
  rw [front]
  split <;> simp_all

/-! ### What stands behind it -/

/-- What there is under a mount: the resource with the rest of its path and its template. -/
structure Way where
  resource : Resource
  rest : List Char
  parts : List Part
  deriving DecidableEq

/-- The ways under a mount, which may be the root and may offer message sockets. -/
def ways (isRoot sockets : Bool) : List Way :=
  (if isRoot then [] else [⟨.greeting, [], []⟩]) ++
    ⟨.greeting, ['/'], [.given []]⟩ :: ⟨.info, "/info".toList, [.given "info".toList]⟩ ::
      (Resource.ofSession { websocketEnabled := sockets }).map fun (name, resource) =>
        ⟨resource, ("/\x7bserver\x7d/\x7bsession\x7d/" ++ name).toList,
          names ++ [.given name.toList]⟩

/-- The route along a way. -/
def Way.route (m : Mount) (way : Way) : Route :=
  ⟨m.path.toList ++ way.rest, m.front ++ way.parts, m, way.resource⟩

theorem routes_eq {m : Mount} (hbase : m.base = .ok m.front) :
    m.routes = (ways m.front.isEmpty m.options.websocketEnabled).map (Way.route m) := by
  rw [routes, hbase]
  have hsession : Resource.ofSession m.options =
      Resource.ofSession { websocketEnabled := m.options.websocketEnabled } := rfl
  by_cases hfront : m.front = [] <;>
    simp [ways, Way.route, hsession, hfront, Function.comp_def]

/-- Parameters without names, given these names in order. -/
def named : List (List Char) → List Part → List Part
  | _, [] => []
  | name :: names, .named lead _ :: parts => .named lead name :: named names parts
  | names, part :: parts => part :: named names parts

theorem named_given (names : List (List Char)) (segments : List (List Char)) (parts : List Part) :
    named names (segments.map .given ++ parts) = segments.map .given ++ named names parts := by
  induction segments with
  | nil => rfl
  | cons s segments ih => simp [named, ih]

/-- What stands behind a mount: nothing, a slash, `/info`, or a slash and a parameter. -/
theorem Way.cases {isRoot sockets : Bool} {way : Way} (h : way ∈ ways isRoot sockets) :
    (way.rest = [] ∧ way.resource = .greeting) ∨ (way.rest = ['/'] ∧ way.resource = .greeting) ∨
      (way.rest = "/info".toList ∧ way.resource = .info) ∨ way.rest.take 2 = ['/', '\x7b'] := by
  revert way
  cases isRoot <;> cases sockets <;> decide

theorem Way.rest_eq_text {isRoot sockets : Bool} {way : Way} (h : way ∈ ways isRoot sockets) :
    way.rest = Template.text way.parts := by
  revert way
  cases isRoot <;> cases sockets <;> decide

theorem Way.parts_eq_named {isRoot sockets : Bool} {way : Way} (h : way ∈ ways isRoot sockets) :
    way.parts = named ["server".toList, "session".toList] (way.parts.map Part.shape) := by
  revert way
  cases isRoot <;> cases sockets <;> decide

theorem Way.count_named {isRoot sockets : Bool} {way : Way} (h : way ∈ ways isRoot sockets) :
    (way.parts.filter (·.name?.isSome)).length ≤ 2 := by
  revert way
  cases isRoot <;> cases sockets <;> decide

theorem nodup_rests (isRoot sockets : Bool) : ((ways isRoot sockets).map (·.rest)).Nodup := by
  cases isRoot <;> cases sockets <;> decide

end Mount

namespace Route

/-! ### Two routes -/

/-- The routes have a path and a method in common. -/
def Collides (r r' : Route) : Prop :=
  r.path = r'.path ∧ ∃ method ∈ r.resource.methods, method ∈ r'.resource.methods

/-- One mount gives its information where another one greets. -/
structure Overlaps (r r' : Route) : Prop where
  info : r.resource = .info
  greeting : r'.resource = .greeting
  mounts : r'.mount.path = r.mount.path ++ "/info"
  path : r.path = r'.mount.path.toList
  path' : r'.path = r'.mount.path.toList

/-- The routes differ in their paths, and in what their templates fit. -/
structure Apart (r r' : Route) : Prop where
  path_ne : r.path ≠ r'.path
  shape_ne : r.parts.map Part.shape ≠ r'.parts.map Part.shape

variable {r r' : Route}

theorem Collides.symm (h : r.Collides r') : r'.Collides r :=
  ⟨h.1.symm, h.2.imp fun _ => And.symm⟩

theorem Overlaps.collides (h : r.Overlaps r') : r.Collides r' :=
  ⟨h.path.trans h.path'.symm, "GET", by rw [h.info]; decide, by rw [h.greeting]; decide⟩

theorem Overlaps.fault? (h : r.Overlaps r') :
    r.fault? r' = some (.twice "GET" r'.mount.path.toList) := by
  rw [Route.fault?, if_pos (h.path.trans h.path'.symm), h.info, h.greeting, h.path']
  rfl

theorem Overlaps.fault?_swap (h : r.Overlaps r') :
    r'.fault? r = some (.twice "GET" r'.mount.path.toList) := by
  rw [Route.fault?, if_pos (h.path'.trans h.path.symm), h.info, h.greeting, h.path]
  rfl

theorem Apart.fault? (h : r.Apart r') : r.fault? r' = none := by
  rw [Route.fault?, if_neg h.path_ne, if_neg h.shape_ne]

end Route

namespace Mount

variable {m m' : Mount} {way way' : Way} {isRoot isRoot' sockets sockets' : Bool}

/-- A mount that may stand in a table, at a path without braces. -/
structure IsTidy (m : Mount) : Prop where
  normal : IsNormal m.path
  plain : IsPlain m.path.toList

theorem exists_front (m : Mount) : ∃ segments, m.front = List.map .given segments := by
  rw [front]
  split
  · exact ⟨[], rfl⟩
  · exact ⟨_, rfl⟩

/-- **What a route's template fits tells its path.** -/
theorem path_eq_of_shape (hm : m.IsTidy) (hm' : m'.IsTidy) (hw : way ∈ ways isRoot sockets)
    (hw' : way' ∈ ways isRoot' sockets')
    (h : (way.route m).parts.map Part.shape = (way'.route m').parts.map Part.shape) :
    (way.route m).path = (way'.route m').path := by
  have htext {m : Mount} {way : Way} {isRoot sockets : Bool} (hm : m.IsTidy)
      (hw : way ∈ ways isRoot sockets) :
      (way.route m).path = Template.text (way.route m).parts := by
    simp only [Way.route, Template.text, List.flatMap_append]
    rw [← Template.text, ← Template.text, text_front hm.normal, way.rest_eq_text hw]
  have hparts {m : Mount} {way : Way} {isRoot sockets : Bool}
      (hw : way ∈ ways isRoot sockets) : (way.route m).parts =
        named ["server".toList, "session".toList] ((way.route m).parts.map Part.shape) := by
    obtain ⟨segments, hsegments⟩ := exists_front m
    have hshape : (segments.map Part.given).map Part.shape = segments.map .given := by
      simp [Part.shape, Function.comp_def]
    simp only [Way.route, hsegments, List.map_append, hshape, named_given]
    rw [← way.parts_eq_named hw]
  rw [htext hm hw, htext hm' hw', hparts hw, h, ← hparts hw']

theorem apart_of_path_ne (hm : m.IsTidy) (hm' : m'.IsTidy) (hw : way ∈ ways isRoot sockets)
    (hw' : way' ∈ ways isRoot' sockets') (h : (way.route m).path ≠ (way'.route m').path) :
    (way.route m).Apart (way'.route m') :=
  ⟨h, fun e => h (path_eq_of_shape hm hm' hw hw' e)⟩

/-- In front of the first brace stands the path of the mount, with a slash behind it. -/
theorem append_cancel_of_brace {p p' t t' : List Char} (hp : '\x7b' ∉ p) (hp' : '\x7b' ∉ p')
    (ht : t.take 2 = ['/', '\x7b']) (ht' : t'.take 2 = ['/', '\x7b']) (h : p ++ t = p' ++ t') :
    p = p' := by
  have key {p t : List Char} (hp : '\x7b' ∉ p) (ht : t.take 2 = ['/', '\x7b']) :
      (p ++ t).takeWhile (· != '\x7b') = p ++ ['/'] := by
    rw [← List.take_append_drop 2 t, ht, ← List.append_assoc,
      show p ++ ['/', '\x7b'] = (p ++ ['/']) ++ ['\x7b'] by simp, List.append_assoc,
      List.takeWhile_append_of_pos]
    · simp
    · intro c hc
      have hne : c ≠ '\x7b' := ne_of_mem_of_not_mem hc (by simpa using hp)
      simpa using hne
  have heq := key hp ht
  rw [h, key hp' ht'] at heq
  exact (List.append_cancel_right heq).symm

/-- A slash at the end of a path is none of its mount, and it is not the end of `/info`. -/
theorem rests_of_append_eq {p p' t t' : List Char} (hp : p.getLast? ≠ some '/')
    (hp' : p'.getLast? ≠ some '/') (ht : t = [] ∨ t = ['/'] ∨ t = "/info".toList)
    (ht' : t' = [] ∨ t' = ['/'] ∨ t' = "/info".toList) (h : p ++ t = p' ++ t') :
    t = t' ∨ (t = [] ∧ t' = "/info".toList) ∨ (t = "/info".toList ∧ t' = []) := by
  have hends {p t : List Char} (hp : p.getLast? ≠ some '/')
      (ht : t = [] ∨ t = ['/'] ∨ t = "/info".toList) :
      (p ++ t).getLast? = some '/' ↔ t = ['/'] := by
    rcases ht with rfl | rfl | rfl <;> simp [hp]
  have hslash : t = ['/'] ↔ t' = ['/'] := by rw [← hends hp ht, h, hends hp' ht']
  rcases ht with rfl | rfl | rfl <;> rcases ht' with rfl | rfl | rfl <;> simp at hslash ⊢

/-- What has `/info` behind it gives information, and what has nothing behind it greets. -/
theorem overlaps_of_rests (hw : way ∈ ways isRoot sockets) (hw' : way' ∈ ways isRoot' sockets')
    (ht : way.rest = "/info".toList) (ht' : way'.rest = [])
    (h : m.path.toList ++ way.rest = m'.path.toList ++ way'.rest) :
    (way.route m).Overlaps (way'.route m') := by
  have hr : way.resource = .info := by
    rcases way.cases hw with h | h | h | h <;> simp [ht] at h
    exact h
  have hr' : way'.resource = .greeting := by
    rcases way'.cases hw' with h | h | h | h <;> simp [ht'] at h
    exact h
  have hpath : m'.path.toList = m.path.toList ++ "/info".toList := by
    rw [← ht, h, ht', List.append_nil]
  refine ⟨hr, hr', ?_, ?_, ?_⟩
  · exact String.toList_inj.1 (by rw [String.toList_append]; exact hpath)
  · exact h.trans (by rw [ht', List.append_nil]; rfl)
  · exact (congrArg (m'.path.toList ++ ·) ht').trans (List.append_nil _)

/-- **Routes of two mounts at one path are the information of one and the greeting of the
other.** -/
theorem tell_apart (hm : m.IsTidy) (hm' : m'.IsTidy) (hne : m.path ≠ m'.path)
    (hw : way ∈ ways isRoot sockets) (hw' : way' ∈ ways isRoot' sockets')
    (h : (way.route m).path = (way'.route m').path) :
    (way.route m).Overlaps (way'.route m') ∨ (way'.route m').Overlaps (way.route m) := by
  have hpath : m.path.toList ++ way.rest = m'.path.toList ++ way'.rest := h
  have hrest (e : way.rest = way'.rest) : False := by
    rw [e] at hpath
    exact hne (String.toList_inj.1 (List.append_cancel_right hpath))
  have hbrace {p p' t t' : List Char} (hp' : IsPlain p') (ht : t.take 2 = ['/', '\x7b'])
      (ht' : t' = [] ∨ t' = ['/'] ∨ t' = "/info".toList) : p ++ t ≠ p' ++ t' := by
    intro e
    have hmem : '\x7b' ∈ p ++ t := by
      rw [← List.take_append_drop 2 t, ht]
      simp
    rw [e] at hmem
    rcases ht' with rfl | rfl | rfl <;> simp [hp'.1] at hmem
  have hplain {way : Way} {isRoot sockets : Bool} (hw : way ∈ ways isRoot sockets) :
      (way.rest = [] ∨ way.rest = ['/'] ∨ way.rest = "/info".toList) ∨
        way.rest.take 2 = ['/', '\x7b'] := by
    rcases way.cases hw with h | h | h | h <;> simp [h]
  -- with a brace behind one mount only the paths differ; with none or two, what is in front decides
  rcases hplain hw with ht | ht <;> rcases hplain hw' with ht' | ht'
  · rcases rests_of_append_eq hm.normal.getLast?_ne hm'.normal.getLast?_ne ht ht' hpath with
      e | ⟨e, e'⟩ | ⟨e, e'⟩
    · exact (hrest e).elim
    · exact .inr (overlaps_of_rests hw' hw e' e hpath.symm)
    · exact .inl (overlaps_of_rests hw hw' e e' hpath)
  · exact absurd hpath.symm (hbrace hm.plain ht' ht)
  · exact absurd hpath (hbrace hm'.plain ht ht')
  · exact absurd (append_cancel_of_brace hm.plain.1 hm'.plain.1 ht ht' hpath)
      fun e => hne (String.toList_inj.1 e)

/-- The routes of a mount at a path without braces are those along its ways. -/
theorem mem_routes (hm : m.IsTidy) {r : Route} : r ∈ m.routes ↔ m.IsFree ∧
    ∃ way ∈ ways m.front.isEmpty m.options.websocketEnabled, way.route m = r := by
  by_cases hfree : m.IsFree
  · rw [routes_eq (base_of_plain hm.plain hfree), List.mem_map]
    simp [hfree]
  · obtain ⟨sign, hbase⟩ := base_of_not_free hfree
    rw [routes, hbase]
    simp [hfree]

theorem not_isAbundant (hm : m.IsTidy) {r : Route} (hr : r ∈ m.routes) : ¬ r.isAbundant := by
  obtain ⟨-, way, hw, rfl⟩ := (mem_routes hm).1 hr
  obtain ⟨segments, hsegments⟩ := exists_front m
  have hfront : (segments.map Part.given).filter (·.name?.isSome) = [] := by
    simp [List.filter_eq_nil_iff, Part.name?]
  have hcount := way.count_named hw
  simp only [Route.isAbundant, Way.route, hsegments, List.filter_append, hfront, List.nil_append,
    Template.maxParameters, decide_eq_true_eq]
  omega

/-- Routes of one mount have different paths. -/
theorem pairwise_routes (hm : m.IsTidy) : m.routes.Pairwise Route.Apart := by
  by_cases hfree : m.IsFree
  · rw [routes_eq (base_of_plain hm.plain hfree), List.pairwise_map]
    have hnodup := nodup_rests m.front.isEmpty m.options.websocketEnabled
    refine (List.pairwise_map.1 hnodup).imp_of_mem fun {way way'} hw hw' hne => ?_
    exact apart_of_path_ne hm hm hw hw' fun e => hne (List.append_cancel_left e)
  · obtain ⟨sign, hbase⟩ := base_of_not_free hfree
    simp [routes, hbase]

end Mount

/-! ### All routes -/

/-- Two routes that overlap are different, so they stand in a list one behind the other. -/
theorem Route.Overlaps.rel_or_rel {P : Route → Route → Prop} {rs : List Route} {r r' : Route}
    (h : r.Overlaps r') (hp : rs.Pairwise P) (hr : r ∈ rs) (hr' : r' ∈ rs) :
    P r r' ∨ P r' r := by
  have hboth : rs.Pairwise fun a b => P a b ∨ P b a := hp.imp .inl
  have : Std.Symm fun a b => P a b ∨ P b a := ⟨fun _ _ => Or.symm⟩
  refine hboth.forall hr hr' fun e => ?_
  have hinfo := h.info
  rw [e, h.greeting] at hinfo
  cases hinfo

namespace Mounts

variable {ms : Mounts}

/-- **Two routes of a table are apart, or they are the information and the greeting of two
mounts.** -/
theorem pairwise_routes (hms : ∀ m ∈ ms, m.IsTidy) (once : ms.paths.Nodup) :
    ms.routes.Pairwise fun r r' => r.Apart r' ∨ r.Overlaps r' ∨ r'.Overlaps r := by
  rw [routes, List.pairwise_flatMap]
  refine ⟨fun m hm => (Mount.pairwise_routes (hms m hm)).imp .inl, ?_⟩
  refine (List.pairwise_map.1 once).imp_of_mem fun {m m'} hm hm' hne r hr r' hr' => ?_
  obtain ⟨-, way, hw, rfl⟩ := (Mount.mem_routes (hms m hm)).1 hr
  obtain ⟨-, way', hw', rfl⟩ := (Mount.mem_routes (hms m' hm')).1 hr'
  by_cases hpath : (way.route m).path = (way'.route m').path
  · exact .inr (Mount.tell_apart (hms m hm) (hms m' hm') hne hw hw' hpath)
  · exact .inl (Mount.apart_of_path_ne (hms m hm) (hms m' hm') hw hw' hpath)

/-- A mount at the path of another one with `/info` behind it greets where that one gives its
information. -/
theorem exists_overlaps (hms : ∀ m ∈ ms, m.IsTidy) {m m' : Mount} (hm : m ∈ ms) (hm' : m' ∈ ms)
    (hfree : m.IsFree) (hfree' : m'.IsFree) (h : m'.path = m.path ++ "/info") :
    ∃ r ∈ ms.routes, ∃ r' ∈ ms.routes, r.Overlaps r' := by
  have hne : m'.front ≠ [] := by
    rw [Ne, Mount.front_eq_nil_iff, h]
    simp
  have hpath : m'.path.toList = m.path.toList ++ "/info".toList := by
    rw [h, String.toList_append]
  let info : Mount.Way := ⟨.info, "/info".toList, [.given "info".toList]⟩
  let greeting : Mount.Way := ⟨.greeting, [], []⟩
  have hover : (info.route m).Overlaps (greeting.route m') :=
    ⟨rfl, rfl, h, hpath.symm, List.append_nil _⟩
  refine ⟨info.route m, ?_, greeting.route m', ?_, hover⟩
  · refine List.mem_flatMap.2 ⟨m, hm, (Mount.mem_routes (hms m hm)).2 ⟨hfree, info, ?_, rfl⟩⟩
    simp [Mount.ways, info]
  · refine List.mem_flatMap.2
      ⟨m', hm', (Mount.mem_routes (hms m' hm')).2 ⟨hfree', greeting, ?_, rfl⟩⟩
    simp [Mount.ways, greeting, hne]

end Mounts

/-! ### The first fault -/

namespace Route

/-- Routes among which no fault is found do not keep each other from being served. -/
theorem pairwise_of_firstFault? {before rs : List Route}
    (hb : before.Pairwise fun r r' => r.fault? r' = none) (h : firstFault? before rs = none) :
    (before ++ rs).Pairwise fun r r' => r.fault? r' = none := by
  induction rs generalizing before with
  | nil => simpa using hb
  | cons r rs ih =>
    rw [firstFault?] at h
    split at h
    · cases h
    · obtain ⟨hr, hrest⟩ := Option.or_eq_none_iff.1 h
      rw [List.findSome?_eq_none_iff] at hr
      -- the routes that were looked at stay without a fault among them
      have hb' : (before ++ [r]).Pairwise fun r r' => r.fault? r' = none :=
        List.pairwise_append.2 ⟨hb, List.pairwise_singleton _ r, by simpa using hr⟩
      simpa using ih hb' hrest

/-- A fault is one of two routes in order, if none has too many parameters. -/
theorem exists_of_firstFault? {P : Route → Route → Prop} {before rs : List Route} {fault : Fault}
    (hp : (before ++ rs).Pairwise P) (hfew : ∀ r ∈ rs, ¬ r.isAbundant)
    (h : firstFault? before rs = some fault) :
    ∃ r ∈ before ++ rs, ∃ r' ∈ before ++ rs, P r r' ∧ r.fault? r' = some fault := by
  induction rs generalizing before with
  | nil => cases h
  | cons r rs ih =>
    rw [List.forall_mem_cons] at hfew
    rw [firstFault?, if_neg hfew.1] at h
    rcases Option.or_eq_some_iff.1 h with h | ⟨-, h⟩
    · obtain ⟨r₀, hr₀, hfault⟩ := List.exists_of_findSome?_eq_some h
      have hP := (List.pairwise_append.1 hp).2.2 r₀ hr₀ r List.mem_cons_self
      exact ⟨r₀, List.mem_append_left _ hr₀, r, by simp, hP, hfault⟩
    · rw [List.append_cons] at hp ⊢
      exact ih hp hfew.2 h

end Route

namespace Mounts

variable {ms : Mounts}

theorem routes_append (ms ms' : Mounts) : routes (ms ++ ms') = routes ms ++ routes ms' :=
  List.flatMap_append

/-- Mounts among which no fault is found are templates, and so are their routes. -/
theorem pairwise_of_firstFault? {before : Mounts}
    (hb : before.routes.Pairwise fun r r' => r.fault? r' = none)
    (h : firstFault? before ms = none) :
    (∀ m ∈ ms, ∃ base, m.base = .ok base) ∧
      (routes (before ++ ms)).Pairwise fun r r' => r.fault? r' = none := by
  induction ms generalizing before with
  | nil => exact ⟨by simp, by simpa using hb⟩
  | cons m ms ih =>
    rw [firstFault?] at h
    cases hbase : m.base with
    | error fault => simp [hbase] at h
    | ok base =>
      obtain ⟨hm, hrest⟩ := Option.or_eq_none_iff.1 (by simpa [hbase] using h)
      have hb' : (routes (before ++ [m])).Pairwise fun r r' => r.fault? r' = none := by
        rw [routes_append]
        simpa [routes] using Route.pairwise_of_firstFault? hb hm
      rw [List.append_cons]
      exact ⟨List.forall_mem_cons.2 ⟨⟨base, hbase⟩, (ih hb' hrest).1⟩, (ih hb' hrest).2⟩

/-- A fault is that of a mount, or one of two routes in order. -/
theorem exists_of_firstFault? {P : Route → Route → Prop} {before : Mounts} {fault : Fault}
    (hp : (routes (before ++ ms)).Pairwise P) (hfew : ∀ m ∈ ms, ∀ r ∈ m.routes, ¬ r.isAbundant)
    (h : firstFault? before ms = some fault) :
    (∃ m ∈ ms, m.base = .error fault) ∨ ∃ r ∈ routes (before ++ ms),
      ∃ r' ∈ routes (before ++ ms), P r r' ∧ r.fault? r' = some fault := by
  induction ms generalizing before with
  | nil => cases h
  | cons m ms ih =>
    rw [List.forall_mem_cons] at hfew
    rw [List.append_cons] at hp ⊢
    rw [firstFault?] at h
    cases hbase : m.base with
    | error fault' =>
      -- the mount itself is at fault
      obtain rfl : fault' = fault := by simpa [hbase] using h
      exact .inl ⟨m, List.mem_cons_self, hbase⟩
    | ok base =>
      -- else two of its routes are, or a later mount
      have hroutes : routes (before ++ [m]) = routes before ++ m.routes := by
        rw [routes_append]
        simp [routes]
      rcases Option.or_eq_some_iff.1 (by simpa [hbase] using h) with h | ⟨-, h⟩
      · have hpm := (List.pairwise_append.1 (routes_append .. ▸ hp)).1
        rw [hroutes] at hpm
        obtain ⟨r, hr, r', hr', hfault⟩ := Route.exists_of_firstFault? hpm hfew.1 h
        rw [routes_append, hroutes]
        exact .inr ⟨r, List.mem_append_left _ hr, r', List.mem_append_left _ hr', hfault⟩
      · exact (ih hp hfew.2 h).imp_left fun ⟨m', hm', he⟩ =>
          ⟨m', List.mem_cons_of_mem _ hm', he⟩

/-! ### What can be served -/

/-- A mount stands at the path of another one with `/info` behind it. -/
def HasInfoPair (ms : Mounts) : Prop := ∃ m ∈ ms, ∃ m' ∈ ms, m'.path = m.path ++ "/info"

theorem mount_of_mem_routes (hms : ∀ m ∈ ms, m.IsTidy) {r : Route} (hr : r ∈ ms.routes) :
    r.mount ∈ ms ∧ r.mount.IsFree := by
  obtain ⟨m, hm, hr⟩ := List.mem_flatMap.1 hr
  obtain ⟨hfree, way, -, rfl⟩ := (Mount.mem_routes (hms m hm)).1 hr
  exact ⟨hm, hfree⟩

/-- Routes that collide overlap. -/
theorem overlaps_of_collides (hms : ∀ m ∈ ms, m.IsTidy) (once : ms.paths.Nodup) :
    ms.routes.Pairwise fun r r' => r.Collides r' → r.Overlaps r' ∨ r'.Overlaps r :=
  (pairwise_routes hms once).imp fun h hc => h.resolve_left fun ha => ha.path_ne hc.1

/-- **A fault is that of a mount by itself, or that of such a pair.** -/
theorem cases_of_fault? (hms : ∀ m ∈ ms, m.IsTidy) (once : ms.paths.Nodup) {fault : Fault}
    (h : ms.fault? = some fault) : (∃ m ∈ ms, m.base = .error fault) ∨
      ∃ m ∈ ms, ∃ m' ∈ ms, m'.path = m.path ++ "/info" ∧
        fault = .twice "GET" m'.path.toList := by
  have hpair : (routes ([] ++ ms)).Pairwise _ := pairwise_routes hms once
  refine (exists_of_firstFault? hpair
    (fun m hm r hr => Mount.not_isAbundant (hms m hm) hr) h).imp_right ?_
  rintro ⟨r, hr, r', hr', ha | ho | ho, hfault⟩
  · rw [ha.fault?] at hfault
    cases hfault
  · rw [ho.fault?] at hfault
    exact ⟨r.mount, (mount_of_mem_routes hms hr).1, r'.mount, (mount_of_mem_routes hms hr').1,
      ho.mounts, (Option.some.inj hfault).symm⟩
  · rw [ho.fault?_swap] at hfault
    exact ⟨r'.mount, (mount_of_mem_routes hms hr').1, r.mount, (mount_of_mem_routes hms hr).1,
      ho.mounts, (Option.some.inj hfault).symm⟩

/-- Such a pair makes routes collide. -/
theorem not_parted (hms : ∀ m ∈ ms, m.IsTidy) {m m' : Mount} (hm : m ∈ ms) (hm' : m' ∈ ms)
    (hfree : m.IsFree) (hfree' : m'.IsFree) (h : m'.path = m.path ++ "/info") :
    ¬ ms.routes.Pairwise fun r r' => ¬ r.Collides r' := by
  intro hparted
  obtain ⟨r, hr, r', hr', ho⟩ := exists_overlaps hms hm hm' hfree hfree' h
  rcases ho.rel_or_rel hparted hr hr' with hnot | hnot
  · exact hnot ho.collides
  · exact hnot ho.collides.symm

/-- **Mounts without a fault have no reserved signs and no such pair.** -/
theorem free_of_fault?_eq_none (hms : ∀ m ∈ ms, m.IsTidy) (h : ms.fault? = none) :
    (∀ m ∈ ms, m.IsFree) ∧ ¬ ms.HasInfoPair := by
  have hnil : (routes []).Pairwise fun r r' => r.fault? r' = none := .nil
  obtain ⟨hbase, hpair⟩ := pairwise_of_firstFault? hnil h
  have hfree (m : Mount) (hm : m ∈ ms) : m.IsFree := by
    by_contra hnot
    obtain ⟨base, hok⟩ := hbase m hm
    obtain ⟨sign, herror⟩ := Mount.base_of_not_free hnot
    rw [hok] at herror
    cases herror
  refine ⟨hfree, ?_⟩
  rintro ⟨m, hm, m', hm', hpath⟩
  obtain ⟨r, hr, r', hr', ho⟩ := exists_overlaps hms hm hm' (hfree m hm) (hfree m' hm') hpath
  rcases ho.rel_or_rel hpair hr hr' with hnone | hnone
  · rw [ho.fault?] at hnone
    cases hnone
  · rw [ho.fault?_swap] at hnone
    cases hnone

/-- A mount of a table at whose spelling there are no braces. -/
theorem isTidy_of_mem {is : List Installation} (h : ∀ i ∈ is, IsPlain i.spelling.toList)
    {m : Mount} (hm : m ∈ ofInstallations is) : m.IsTidy := by
  obtain ⟨before, i, after, rfl, rfl, -⟩ := exists_last_of_mem hm
  refine ⟨Mount.isNormal_normalize _, ?_⟩
  obtain ⟨ho, hc⟩ := h i (by simp)
  have hmem {c : Char} (hslash : c ≠ '/') (hnot : c ∉ i.spelling.toList) :
      c ∉ i.mount.path.toList := by
    obtain ⟨front, back, hsplit⟩ := (Mount.trims_core i.spelling.toList).split
    have hcore : c ∉ Mount.core i.spelling.toList := fun hc => hnot (by rw [hsplit]; simp [hc])
    rw [Installation.mount, Mount.normalize, String.toList_ofList, Mount.normalizeChars_eq]
    split <;> simp [hslash, hcore]
  exact ⟨hmem (by decide) ho, hmem (by decide) hc⟩

/-- What mounts are when their routes are put together. -/
structure Routed (ms : Mounts) : Prop where
  /-- Two routes with a path and a method in common are those of a mount at `p` and of one at
  `p/info`. -/
  overlaps : ms.routes.Pairwise fun r r' => r.Collides r' → r.Overlaps r' ∨ r'.Overlaps r
  parted_iff : ms.routes.Pairwise (fun r r' => ¬ r.Collides r') ↔
    ∀ m ∈ ms, ∀ m' ∈ ms, m.IsFree → m'.IsFree → m'.path ≠ m.path ++ "/info"
  served_iff : ms.fault? = none ↔ (∀ m ∈ ms, m.IsFree) ∧ ¬ ms.HasInfoPair
  fault : ∀ fault, ms.fault? = some fault →
    (∃ m ∈ ms, ¬ m.IsFree ∧ ∃ sign, fault = .reserved sign) ∨
      ∃ m ∈ ms, ∃ m' ∈ ms, m'.path = m.path ++ "/info" ∧ fault = .twice "GET" m'.path.toList

/-- **Mounts at paths without braces get into each other's way in one way only**: one of them stands
at the path of another one with `/info` behind it. -/
theorem routed_of_installations {is : List Installation}
    (h : ∀ i ∈ is, IsPlain i.spelling.toList) : Routed (ofInstallations is) := by
  have hms (m : Mount) (hm : m ∈ ofInstallations is) : m.IsTidy := isTidy_of_mem h hm
  have once := nodup_paths_ofInstallations is
  have overlaps := overlaps_of_collides hms once
  refine ⟨?overlaps, ?parted, ?served, ?fault⟩
  case overlaps =>
    exact overlaps
  case parted =>
    constructor
    · exact fun hparted m hm m' hm' hfree hfree' hpath =>
        not_parted hms hm hm' hfree hfree' hpath hparted
    · intro hnone
      refine overlaps.imp_of_mem fun {r r'} hr hr' hover hc => ?_
      obtain ⟨hm, hfree⟩ := mount_of_mem_routes hms hr
      obtain ⟨hm', hfree'⟩ := mount_of_mem_routes hms hr'
      rcases hover hc with ho | ho
      · exact hnone _ hm _ hm' hfree hfree' ho.mounts
      · exact hnone _ hm' _ hm hfree' hfree ho.mounts
  -- it is built exactly when there is no fault
  case served =>
    refine ⟨free_of_fault?_eq_none hms, fun ⟨hfree, hnone⟩ => ?_⟩
    cases hfault : (ofInstallations is).fault? with
    | none => rfl
    | some fault =>
      rcases cases_of_fault? hms once hfault with ⟨m, hm, he⟩ | ⟨m, hm, m', hm', hpath, -⟩
      · rw [Mount.base_of_plain (hms m hm).plain (hfree m hm)] at he
        cases he
      · exact absurd ⟨m, hm, m', hm', hpath⟩ hnone
  -- and a fault is one of the two
  case fault =>
    intro fault hfault
    refine (cases_of_fault? hms once hfault).imp_left fun ⟨m, hm, he⟩ => ?_
    by_cases hfree : m.IsFree
    · rw [Mount.base_of_plain (hms m hm).plain hfree] at he
      cases he
    · obtain ⟨sign, hsign⟩ := Mount.base_of_not_free hfree
      rw [hsign] at he
      exact ⟨m, hm, hfree, sign, (Except.error.inj he).symm⟩

/-- Two applications, side by side. -/
def sideBySide : List Installation := [⟨"echo/", {}, .echo⟩, ⟨"/close", {}, .goodbye⟩]

/-- They can be served. -/
theorem routed_of_sideBySide : (∀ i ∈ sideBySide, IsPlain i.spelling.toList) ∧
    Routed (ofInstallations sideBySide) ∧ (ofInstallations sideBySide).fault? = none := by
  have hplain : ∀ i ∈ sideBySide, IsPlain i.spelling.toList := by
    simp [sideBySide, IsPlain]
  exact ⟨hplain, routed_of_installations hplain, by decide +kernel⟩

/-- Two applications, one where the other one gives its information. -/
def inTheWay : List Installation := [⟨"/a", {}, .echo⟩, ⟨"/a/info", {}, .echo⟩]

/-- **Mounts without braces in their paths may have routes that collide.** -/
theorem exists_routes_collide : (∀ i ∈ inTheWay, IsPlain i.spelling.toList) ∧
    ¬ (ofInstallations inTheWay).routes.Pairwise (fun r r' => ¬ r.Collides r') ∧
    (ofInstallations inTheWay).fault? = some (.twice "GET" "/a/info".toList) := by
  have hplain : ∀ i ∈ inTheWay, IsPlain i.spelling.toList := by
    simp [inTheWay, IsPlain]
  have hm : ⟨"/a", {}, .echo⟩ ∈ ofInstallations inTheWay :=
    List.mem_of_getElem? (i := 0) (by rfl)
  have hm' : ⟨"/a/info", {}, .echo⟩ ∈ ofInstallations inTheWay :=
    List.mem_of_getElem? (i := 1) (by rfl)
  have hparted := not_parted (fun m hm => isTidy_of_mem hplain hm) hm hm'
    (Mount.findSome?_reserved_eq_none_iff.1 (by rfl))
    (Mount.findSome?_reserved_eq_none_iff.1 (by rfl)) (by decide)
  exact ⟨hplain, hparted, by decide +kernel⟩

end Mounts

end Duplex
