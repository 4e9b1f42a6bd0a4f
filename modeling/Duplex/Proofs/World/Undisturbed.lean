/-
Duplex/Proofs/World/Undisturbed.lean

Sessions do not disturb each other.

Sessions of one registry share a clock and the tasks of one world.  Still, each
of them fares as if it were alone, when applications use their own sockets only:
take away from a script all that is for other sessions, and what is left comes
to the same for the session that it is for (`undisturbed_of_play`).

The two worlds are compared through their shadows (`Duplex.World.Shadow`).  The
shadow of the first one plays the script without the steps for others
(`Shadow.plays`); so does that of the second one, which has no others; and as a
script is played in one way, the shadows are the same.
-/
import Duplex.Carrier.ResponseStream
import Duplex.Proofs.World.Script
import Duplex.Proofs.World.Shadow
import Mathlib.Data.List.Nodup

namespace Duplex

variable {C : Type}

/-! ### Scripts seen from one session -/

/-- The same errand with a program for the first socket in place of one for socket `k`. -/
def Errand.plain (k : Nat) : Errand C → Errand C
  | .call a => .call fun _ => (a k).plain
  | e => e

/-- The same step with programs for the first socket in place of those for socket `k`. -/
def Cue.plain (k : Nat) : Cue C → Cue C
  | .enter o => .enter { o with onOpen := fun _ => (o.onOpen k).plain }
  | .errand id e => .errand id (e.plain k)
  | .advance ms => .advance ms

/-- The names of the sessions that a script enters. -/
def entered (script : List (Cue C)) : List String := script.filterMap Cue.entered?

theorem entered_cons (c : Cue C) (script : List (Cue C)) :
    entered (c :: script) = c.entered?.toList ++ entered script := by
  rcases h : c.entered? with - | n
  · rw [entered, List.filterMap_cons_none h]
    rfl
  · rw [entered, List.filterMap_cons_some h]
    rfl

/-- It makes no difference from which number a local application is taken. -/
theorem Cue.plain_of_isLocal {c : Cue C} (h : c.IsLocal) (k : Nat) : c.plain k = c.plain 0 := by
  cases c with
  | enter o => simp [Cue.plain, (h k).2]
  | errand id e =>
    cases e with
    | call a => simp [Cue.plain, Errand.plain, (h k).2]
    | _ => rfl
  | advance ms => rfl

theorem Cue.duration_plain (c : Cue C) (k : Nat) : (c.plain k).duration = c.duration := by
  cases c <;> rfl

/-- A script without the steps for other sessions enters the one that it is for. -/
theorem entered_filter {script : List (Cue C)} {name : String} (hnodup : (entered script).Nodup)
    (hname : name ∈ entered script) : entered (script.filter (·.concerns name)) = [name] := by
  have hfilter : entered (script.filter (·.concerns name)) =
      (entered script).filter (· == name) := by
    rw [entered, entered, List.filterMap_filter, List.filter_filterMap]
    congr 1
    funext c
    cases c with
    | enter o => simp [Cue.concerns, Cue.entered?, Option.filter]
    | errand n e => simp [Cue.entered?]
    | advance ms => rfl
  rw [hfilter, List.filter_beq, List.count_eq_one_of_mem hnodup hname]
  rfl

namespace World

/-! ### Names and numbers -/

/-- The sessions have these names, in this order, and are entered under their own. -/
structure Named (names : List String) (w : World C) : Prop where
  sessions : w.sessions.map (·.id) = names
  registry : ∀ e ∈ w.registry, names[e.2]? = some e.1

variable {names rest : List String} {w w' w₁ u : World C} {name : String} {j k limit : Nat}
  {c : Cue C} {script : List (Cue C)}

theorem Named.getElem? (h : Named names w) {s : Session C} (hs : w.sessions[k]? = some s) :
    names[k]? = some s.id := by
  rw [← h.sessions, List.getElem?_map, hs]
  rfl

/-- A session is found under its name. -/
theorem Named.number?_eq_some (h : Named names w) (hk : w.number? name = some k) :
    names[k]? = some name := by
  obtain ⟨hlt, hid, -⟩ := List.findIdx?_eq_some_iff_getElem.mp hk
  rw [h.getElem? (List.getElem?_eq_getElem hlt), beq_iff_eq.mp hid]

/-- Under a name that is not taken nothing is registered. -/
theorem Named.find?_eq_none (h : Named names w) (hname : name ∉ names) : w.find? name = none := by
  refine List.lookup_eq_none_iff.mpr fun e he => ?_
  have hmem := List.mem_of_getElem? (h.registry e he)
  rw [bne_iff_ne]
  rintro rfl
  exact hname hmem

/-- Numbers are given out in order. -/
theorem Named.lt (h : Named names w) {e : String × Nat} (he : e ∈ w.registry) :
    e.2 < w.sessions.length := by
  have hlt := (List.getElem?_eq_some_iff.mp (h.registry e he)).1
  rwa [← h.sessions, List.length_map] at hlt

variable [Carrier C]

theorem Named.move (h : Named names w) {m : Move C} (hm : w.IsFor j m) :
    Named names (w.move m) := by
  constructor
  · rcases sessions_of_for hm with he | ⟨d, -, he⟩
    · rw [he, h.sessions]
    · rw [he, ← h.sessions]
      apply List.ext_getElem?
      intro i
      simp only [List.getElem?_map, List.getElem?_modify, Option.map_eq_map, Option.map_map]
      congr 1
      funext s
      simp only [Function.comp_apply]
      split
      · exact (Session.made_does w.now s d).1
      · rfl
  · rcases registry_move w m with he | ⟨_, _, _, _, _, rfl, -⟩ | ⟨_, _, rfl, -, he⟩
    · rw [he]
      exact h.registry
    · exact hm.elim
    · rw [he]
      exact fun e hmem => h.registry e (List.mem_filter.mp hmem).1

/-- The names that are taken after a step. -/
theorem Named.cue (h : Named names w) (hc : c.IsLocal) (hnew : ∀ n ∈ c.entered?, n ∉ names) :
    Named (names ++ c.entered?.toList) (w.cue c) := by
  cases c with
  | enter o =>
    have ho := hnew o.id rfl
    simp only [World.cue, move_enter (h.find?_eq_none ho)]
    constructor
    · simp [h.sessions, Cue.entered?, Opening.session]
    -- the entries made before find what they found
    · intro e he
      rcases List.mem_append.mp he with he | he
      · exact List.getElem?_append_left
          (List.getElem?_eq_some_iff.mp (h.registry e he)).1 ▸ h.registry e he
      · rw [List.mem_singleton.mp he, ← h.sessions]
        simp [Cue.entered?]
  -- nothing else makes a session
  | errand n e =>
    have hnone : (Cue.errand n e).entered?.toList = [] := rfl
    rw [hnone, List.append_nil, World.cue]
    split
    · exact h
    · exact h.move (isFor_errand hc w _)
  | advance ms =>
    have hnone : (Cue.advance ms : Cue C).entered?.toList = [] := rfl
    rw [hnone, List.append_nil]
    exact h

theorem Named.rests {pace : Moment → Moment} (hpace : ∀ m, (pace m).time = m.time)
    (h : Named names w) (hw : w.Apart) (hr : Rests pace limit w w₁) : Named names w₁ :=
  hw.rests_of_kept hpace (fun _ _ h => ⟨h.sessions, h.registry⟩) (fun _ _ _ hm h => h.move hm) hr h

/-! ### From step to step -/

/-- A world between two steps of a script: it is apart and at rest, and these names are taken. -/
structure Staged (names : List String) (w : World C) : Prop where
  apart : w.Apart
  still : w.go? w.now.time = none
  named : Named names w

/-- The session of that name is the one in place `k`, when it is there already and when it comes
with this step. -/
structure Places (names : List String) (c : Cue C) (name : String) (k : Nat) : Prop where
  fresh : ∀ n ∈ c.entered?, n ∉ names
  place : ∀ i, names[i]? = some name → i = k
  named : ∀ n, names[k]? = some n → n = name
  next : ∀ n ∈ c.entered?, names.length = k ↔ n = name

omit [Carrier C] in
/-- Names that are entered once tell which session is which. -/
theorem places_of_nodup (hnodup : (names ++ entered (c :: script)).Nodup)
    (hk : (names ++ entered (c :: script))[k]? = some name) : Places names c name k := by
  have hleft {i : Nat} {n : String} (hi : names[i]? = some n) :
      (names ++ entered (c :: script))[i]? = some n := by
    rw [List.getElem?_append_left (List.getElem?_eq_some_iff.mp hi).1, hi]
  have hnext {n : String} (hn : n ∈ c.entered?) :
      (names ++ entered (c :: script))[names.length]? = some n := by
    simp [entered_cons, Option.mem_def.mp hn]
  have hplace {i : Nat} (hi : (names ++ entered (c :: script))[i]? = some name) : i = k :=
    (List.getElem?_inj (List.getElem?_eq_some_iff.mp hi).1 hnodup).mp (hi.trans hk.symm)
  refine ⟨?_, fun i hi => hplace (hleft hi), ?_, ?_⟩
  · intro n hn hmem
    refine (List.nodup_append.mp hnodup).2.2 n hmem n ?_ rfl
    rw [entered_cons, Option.mem_def.mp hn]
    exact List.mem_cons_self
  · exact fun n hn => Option.some.inj ((hleft hn).symm.trans hk)
  · intro n hn
    constructor
    · rintro rfl
      exact Option.some.inj ((hnext hn).symm.trans hk)
    · rintro rfl
      exact hplace (hnext hn)

variable {pace : Moment → Moment}

/-- After a step the world is between two steps again. -/
theorem Staged.cue (h : Staged names w) (hpace : ∀ m, (pace m).time = m.time) (hc : c.IsLocal)
    (hnew : ∀ n ∈ c.entered?, n ∉ names)
    (hr : Rests pace (w.now.time + c.duration) ((w.paced pace).cue c) w₁) :
    Staged (names ++ c.entered?.toList) w₁ := by
  have hcue : ((w.paced pace).cue c).Apart := (h.apart.paced (hpace w.now)).cue hc
  have hnamed : Named names (w.paced pace) := ⟨h.named.sessions, h.named.registry⟩
  have hnow : ((w.paced pace).cue c).now.time = w.now.time := by
    rw [now_cue]
    exact hpace w.now
  obtain ⟨hend, hstill⟩ := hcue.at_rest hpace hr (by omega)
  exact ⟨hcue.rests hpace hr, by rw [hend, hstill], (hnamed.cue hc hnew).rests hpace hcue hr⟩

/-! ### Steps seen from one session -/

namespace Shadow

/-- What is done to the session from outside is done to its shadow. -/
theorem errand (h : Shadow k w u) (hw : w.Apart) {e : Errand C} (he : e.IsLocal) :
    Shadow k (w.move (e.move k)) (u.move ((e.plain k).move 0)) := by
  cases e with
  | hold held => exact h.modify fun _ _ => rfl
  | introduce peer => exact h.modify fun _ _ => rfl
  | stir n carrier => exact h.modify fun _ _ => rfl
  | register carrier => exact h.register (hw.minds k) carrier
  | close => exact h.push (t := .close k) rfl
  | call a => exact h.act (he k).1
  -- the others ask for the session, which is kept in both worlds or in neither
  | again n =>
    rcases h.live?_cases with ⟨hlive, hl⟩ | ⟨s, hlive, hl⟩
    · simpa [World.move, Errand.move, Errand.plain, hlive, hl] using h
    · have hc : (s.plain k).carriers = s.carriers := rfl
      simp only [World.move, Errand.move, Errand.plain, hlive, hl, hc]
      split
      · exact h.attach (hw.minds k) n
      · exact h
  | lose n =>
    rcases h.live?_cases with ⟨hlive, hl⟩ | ⟨s, hlive, hl⟩
    · simpa [World.move, Errand.move, Errand.plain, hlive, hl] using h
    · have ha : (s.plain k).attached = s.attached := rfl
      simp only [World.move, Errand.move, Errand.plain, hlive, hl, ha]
      split
      · exact h.modify fun s _ => by rw [h.now, Session.plain_detach]
      · exact h
  | feed payload =>
    rcases h.live?_cases with ⟨hlive, hl⟩ | ⟨s, hlive, hl⟩
    · simpa [World.move, Errand.move, Errand.plain, hlive, hl] using h
    · simp only [World.move, Errand.move, Errand.plain, hlive, hl]
      exact h.receive _

/-- A session that is made shows in its shadow. -/
theorem enter (h : Shadow k w u) (hn : Named names w) {o : Opening} (ho : o.id ∉ names)
    (hk : names.length = k) :
    Shadow k (w.cue (.enter o)) (u.cue (Cue.plain k (.enter o))) := by
  have hlen : w.sessions.length = k := by rw [← hk, ← hn.sessions, List.length_map]
  have husessions : u.sessions = [] := by
    rw [h.sessions, List.getElem?_eq_none (Nat.le_of_eq hlen)]
    rfl
  have hnone : w.registry.filter (·.2 == k) = [] := by
    refine List.filter_eq_nil_iff.mpr fun e he => ?_
    simpa using Nat.ne_of_lt (hlen ▸ hn.lt he)
  have huregistry : u.registry = [] := by rw [h.registry, hnone, List.map_nil]
  have hufind : u.find? o.id = none := by simp [World.find?, huregistry]
  simp only [World.cue, Cue.plain, move_enter (hn.find?_eq_none ho)]
  rw [move_enter (o := { o with onOpen := fun _ => (o.onOpen k).plain }) hufind]
  refine ⟨h.now, ?_, ?_, h.tasks⟩
  · rw [husessions, ← hlen, List.getElem?_concat_length]
    rfl
  · rw [List.filter_append, hnone, huregistry, husessions, hlen]
    simp

omit [Carrier C] in
/-- A session is found in its shadow if it is found in the world. -/
theorem number? (h : Shadow k w u) (hn : Named names w)
    (hname : ∀ i, names[i]? = some name → i = k) :
    (w.number? name = none ∨ w.number? name = some k) ∧
      u.number? name = (w.number? name).map fun _ => 0 := by
  rcases hnum : w.number? name with - | i
  · refine ⟨.inl rfl, ?_⟩
    refine List.findIdx?_eq_none_iff.mpr fun s' hs' => ?_
    rw [h.sessions] at hs'
    obtain ⟨s, hs, rfl⟩ := List.mem_map.mp hs'
    exact List.findIdx?_eq_none_iff.mp hnum s (List.mem_of_getElem? (Option.mem_toList.mp hs))
  · obtain rfl := hname i (hn.number?_eq_some hnum)
    refine ⟨.inr rfl, ?_⟩
    obtain ⟨hlt, hid, -⟩ := List.findIdx?_eq_some_iff_getElem.mp hnum
    rw [World.number?, h.sessions_eq (List.getElem?_eq_getElem hlt)]
    have hid' : ((w.sessions[i].plain i).id == name) = true := hid
    simp [List.findIdx?_cons, hid']

/-- A step for the session is a step of its shadow. -/
theorem cue_own (h : Shadow k w u) (hw : w.Apart) (hn : Named names w) (hc : c.IsLocal)
    (hplaces : Places names c name k) (hown : c.concerns name = true) :
    Shadow k (w.cue c) (u.cue (c.plain k)) := by
  cases c with
  | enter o =>
    refine h.enter hn (hplaces.fresh o.id rfl) ((hplaces.next o.id rfl).mpr ?_)
    simpa [Cue.concerns] using hown
  | errand n e =>
    obtain rfl : n = name := by simpa [Cue.concerns] using hown
    obtain ⟨hnum, hunum⟩ := h.number? hn hplaces.place
    rcases hnum with hnum | hnum
    · simpa [World.cue, Cue.plain, hnum, hunum] using h
    · simp only [World.cue, Cue.plain, hnum, hunum, Option.map_some]
      exact h.errand hw hc
  | advance ms => exact h

/-- A step for another session does not show. -/
theorem cue_other (h : Shadow k w u) (hw : w.Apart) (hn : Named names w) (hc : c.IsLocal)
    (hplaces : Places names c name k) (hother : c.concerns name = false) :
    Shadow k (w.cue c) u := by
  cases c with
  -- a session that is entered under another name comes to another place
  | enter o =>
    have hne : w.sessions.length ≠ k := by
      intro hlen
      have hid := (hplaces.next o.id rfl).mp (by rw [← hlen, ← hn.sessions, List.length_map])
      simp [Cue.concerns, hid] at hother
    simp only [World.cue, move_enter (hn.find?_eq_none (hplaces.fresh o.id rfl))]
    have hget : (w.sessions ++ [o.session])[k]? = w.sessions[k]? := by
      rcases Nat.lt_or_ge k w.sessions.length with hlt | hge
      · exact List.getElem?_append_left hlt
      · rw [List.getElem?_eq_none hge, List.getElem?_eq_none]
        simp only [List.length_append, List.length_singleton]
        omega
    refine ⟨h.now, ?_, ?_, h.tasks⟩
    · rw [h.sessions, hget]
    · rw [h.registry, List.filter_append]
      simp [hne]
  -- an errand goes to the session of that name, and does not show here
  | errand n e =>
    have hne : n ≠ name := by simpa [Cue.concerns] using hother
    simp only [World.cue]
    split
    · exact h
    · rename_i j hj
      have hjk : j ≠ k := by
        rintro rfl
        exact hne (hplaces.named n (hn.number?_eq_some hj))
      refine h.other hw (isFor_errand hc w j) hjk ?_
      cases e <;> exact h.tasks
  | advance ms => cases hother

/-- Nothing happens to the shadow of a world at rest. -/
theorem rests_unmoved (h : Shadow k w u) (hrest : w.go? w.now.time = none)
    (hr : Rests id w.now.time u w₁) : w₁ = u := by
  have htime : u.now.time = w.now.time := by rw [h.now, Moment.plain]
  have hend : Rests id w.now.time u (u.reach w.now.time) := .rest (h.go?_eq_none hrest)
  rw [hr.unique hend, ← htime]
  simp [World.reach, Moment.reach]

/-- **The shadow plays what is left of a script without the steps for other sessions.** -/
theorem plays (hpace : ∀ m, (pace m).plain = m.plain) (hp : Plays pace w script w')
    (hw : Staged names w) (hlocal : ∀ c ∈ script, c.IsLocal)
    (hnodup : (names ++ entered script).Nodup)
    (hk : (names ++ entered script)[k]? = some name) (h : Shadow k w u) :
    Staged (names ++ entered script) w' ∧ ∃ u',
      Plays id u ((script.filter (·.concerns name)).map (·.plain k)) u' ∧ Shadow k w' u' := by
  have htime (m : Moment) : (pace m).time = m.time := Moment.time_eq_of_plain (hpace m)
  induction hp generalizing names u with
  | nil w => exact ⟨by simpa [entered] using hw, u, .nil u, h⟩
  | @cons w w₁ w' c script rests plays ih =>
    obtain ⟨hc, hscript⟩ := List.forall_mem_cons.mp hlocal
    have hplaces := places_of_nodup hnodup hk
    have hpaced : (w.paced pace).Apart := hw.apart.paced (htime w.now)
    have hnamed : Named names (w.paced pace) := ⟨hw.named.sessions, hw.named.registry⟩
    have hw₁ := hw.cue htime hc hplaces.fresh rests
    rw [entered_cons, ← List.append_assoc] at hnodup hk ⊢
    have htimes : u.now.time = w.now.time := by rw [h.now, Moment.plain]
    rcases hown : c.concerns name with - | -
    -- the step is for another session, and takes no time
    · have hcue := (h.paced hpace).cue_other hpaced hnamed hc hplaces hown
      obtain ⟨u₁, hr, h₁⟩ := hcue.rests hpace rests (hpaced.cue hc)
      have hduration : c.duration = 0 := by
        cases c with
        | advance ms => cases hown
        | _ => rfl
      rw [hduration] at hr
      obtain rfl := h.rests_unmoved hw.still hr
      rw [List.filter_cons_of_neg (by simp [hown])]
      exact ih hw₁ hscript hnodup hk h₁
    -- the step is for the session, and is done in the shadow too
    · have hcue := (h.paced hpace).cue_own hpaced hnamed hc hplaces hown
      obtain ⟨u₁, hr, h₁⟩ := hcue.rests hpace rests (hpaced.cue hc)
      obtain ⟨hend, u', hplays, h'⟩ := ih hw₁ hscript hnodup hk h₁
      refine ⟨hend, u', ?_, h'⟩
      rw [List.filter_cons_of_pos hown, List.map_cons]
      refine .cons ?_ hplays
      rw [htimes, Cue.duration_plain]
      exact hr

end Shadow

/-! ### Sessions together and alone -/

/-- The script has come to the same for the session of that name in both worlds.  The first one has
all sessions of the script, the second one that session alone. -/
structure Undisturbed (script : List (Cue C)) (name : String) (w v : World C) : Prop where
  ids : w.sessions.map (·.id) = entered script
  session : ∃ s t, s ∈ w.sessions ∧ s.id = name ∧ v.sessions = [t] ∧ s.Alike t
  registered : name ∈ w.registry.map (·.1) ↔ name ∈ v.registry.map (·.1)
  time : w.now.time = v.now.time
  rest : w.tick? w.now.time = none ∧ v.tick? v.now.time = none

theorem Staged.tick? (h : Staged names w) : w.tick? w.now.time = none := by
  obtain ⟨hstir, hlater⟩ := go?_eq_none.mp h.still
  obtain ⟨ht, hunkept, hstranded⟩ := stir?_eq_none.mp hstir
  have hnext : w.next.go? w.now.time = none :=
    go?_eq_none.mpr ⟨stir?_eq_none.mpr ⟨ht, hunkept, hstranded⟩, hlater⟩
  exact hnext

omit [Carrier C] in
/-- The session of that name is registered if its shadow is. -/
theorem Shadow.registered (h : Shadow k w u) (hn : Named names w)
    (hname : ∀ i, names[i]? = some name → i = k) :
    name ∈ w.registry.map (·.1) ↔ (name, 0) ∈ u.registry := by
  rw [h.registry, List.mem_map, List.mem_map]
  constructor
  · rintro ⟨e, he, rfl⟩
    refine ⟨e, List.mem_filter.mpr ⟨he, ?_⟩, rfl⟩
    simpa using hname e.2 (hn.registry e he)
  · rintro ⟨e, he, heq⟩
    exact ⟨e, (List.mem_filter.mp he).1, congrArg Prod.fst heq⟩

/-- Worlds with the same shadow have come to the same for the session that it is of. -/
theorem undisturbed_of_shadow {v : World C} (hnames : (entered script).Nodup)
    (hk : (entered script)[k]? = some name) (hw : Staged (entered script) w) (hv : Staged [name] v)
    (hwu : Shadow k w u) (hvu : Shadow 0 v u) : Undisturbed script name w v := by
  -- a name stands for one session, here and there
  have hplace (i : Nat) (hi : (entered script)[i]? = some name) : i = k :=
    (List.getElem?_inj (List.getElem?_eq_some_iff.mp hi).1 hnames).mp (hi.trans hk.symm)
  have hfirst (i : Nat) (hi : [name][i]? = some name) : i = 0 := by
    have hlt := (List.getElem?_eq_some_iff.mp hi).1
    simpa using hlt
  obtain ⟨s, hs, hid⟩ : ∃ s, w.sessions[k]? = some s ∧ s.id = name := by
    rw [← hw.named.sessions, List.getElem?_map] at hk
    exact Option.map_eq_some_iff.mp hk
  obtain ⟨t, ht⟩ : ∃ t, v.sessions = [t] := by
    have hlen := congrArg List.length hv.named.sessions
    exact List.length_eq_one_iff.mp (by simpa using hlen)
  -- both show the same of it
  have halike : s.plain k = t.plain 0 := by
    have hsessions := hwu.sessions_eq hs
    rw [hvu.sessions_eq (s := t) (by rw [ht]; rfl)] at hsessions
    exact (List.singleton_inj.mp hsessions).symm
  exact
    { ids := hw.named.sessions
      session := ⟨s, t, List.mem_of_getElem? hs, hid, ht, Session.alike_of_plain halike⟩
      registered := (hwu.registered hw.named hplace).trans (hvu.registered hv.named hfirst).symm
      time := Moment.time_eq_of_plain (hwu.now.symm.trans hvu.now)
      rest := ⟨hw.tick?, hv.tick?⟩ }

theorem staged_empty : Staged [] ({} : World C) := by
  refine ⟨⟨by simp, by simp, by simp⟩, ?_, ⟨rfl, by simp⟩⟩
  exact go?_eq_none.mpr ⟨stir?_eq_none.mpr ⟨rfl, rfl, rfl⟩, by simp⟩

/-- A script of local applications can be played, and the shadow plays it along. -/
theorem exists_plays_shadow (hnames : (entered script).Nodup) (hlocal : ∀ c ∈ script, c.IsLocal)
    (hk : (entered script)[k]? = some name) :
    ∃ w u, Plays Moment.next {} script w ∧ Staged (entered script) w ∧
      Plays id {} ((script.filter (·.concerns name)).map (·.plain k)) u ∧
      Shadow k (w : World C) u := by
  have hshadow : Shadow k ({} : World C) {} := ⟨rfl, rfl, rfl, .nil⟩
  obtain ⟨w, hw⟩ : ∃ w : World C, Plays Moment.next {} script w :=
    exists_plays (fun _ => rfl) staged_empty.apart hlocal
  have hplain (m : Moment) : m.next.plain = m.plain := rfl
  obtain ⟨hend, u, hu, h⟩ := hshadow.plays hplain hw staged_empty hlocal hnames hk
  exact ⟨w, u, hw, hend, hu, h⟩

/-- **Sessions do not disturb each other.**  When applications use their own sockets, whatever
is done to the sessions of one registry comes to the same for each of them as what is done to it
alone in the same time. -/
theorem undisturbed_of_play (hnames : (entered script).Nodup)
    (hlocal : ∀ c ∈ script, c.IsLocal) {o : Opening} (ho : .enter o ∈ script) :
    ∃ n, ∀ fuel, n ≤ fuel → Undisturbed script o.id (({} : World C).play fuel script)
      (({} : World C).play fuel (script.filter (·.concerns o.id))) := by
  have hmem : o.id ∈ entered script := List.mem_filterMap.mpr ⟨_, ho, rfl⟩
  obtain ⟨k, hk⟩ := List.mem_iff_getElem?.mp hmem
  have hone : entered (script.filter (·.concerns o.id)) = [o.id] := entered_filter hnames hmem
  have hlocal' : ∀ c ∈ script.filter (·.concerns o.id), c.IsLocal :=
    fun c hc => hlocal c (List.mem_filter.mp hc).1
  obtain ⟨w, u, hw, hwend, hwu, hwshadow⟩ := exists_plays_shadow hnames hlocal hk
  have hfirst : (entered (script.filter (·.concerns o.id)))[0]? = some o.id := by
    rw [hone]
    rfl
  obtain ⟨v, u', hv, hvend, hvu, hvshadow⟩ :=
    exists_plays_shadow (by simp [hone]) hlocal' hfirst
  -- the session alone has no steps for others, and its shadow plays the same script
  have hscripts : ((script.filter (·.concerns o.id)).filter (·.concerns o.id)).map (·.plain 0) =
      (script.filter (·.concerns o.id)).map (·.plain k) := by
    rw [List.filter_filter]
    simp only [Bool.and_self]
    exact List.map_congr_left fun c hc => (Cue.plain_of_isLocal (hlocal' c hc) k).symm
  rw [hscripts] at hvu
  obtain rfl := hwu.unique hvu
  rw [hone] at hvend
  obtain ⟨n, hn⟩ := hw.play
  obtain ⟨n', hn'⟩ := hv.play
  refine ⟨max n n', fun fuel hf => ?_⟩
  rw [hn fuel (by omega), hn' fuel (by omega)]
  exact undisturbed_of_shadow hnames hk hwend hvend hwshadow hvshadow

/-- A session that echoes what it is told. -/
def echoing : Opening where
  id := "a"
  timing := { heartbeat := 10000, patience := some 5000 }
  onOpen := Application.echo

/-- A session that has a farewell, with a heartbeat of its own. -/
def parting : Opening where
  id := "b"
  timing := { heartbeat := 4000, patience := some 3000 }
  onOpen := fun k => .onClose k (.note k (.parting "b") .done) .done

/-- What both of their applications write in the end. -/
def lateness : Application := fun k => .write k "late" fun _ => .done

/-- Both sessions get a carrier, lose it, and wait: the first one until another carrier comes, the
second one until it closes. -/
def mingled : List (Cue Conduit) :=
  [.enter echoing, .enter parting, .errand "b" (.register (.queue {})),
    .errand "a" (.register (.stream { framing := .poll })), .advance 4000,
    .errand "a" (.feed "[\"x\"]"), .errand "b" (.lose 0), .errand "a" (.register (.queue {})),
    .advance 12000, .errand "b" (.call lateness), .errand "a" (.call lateness)]

theorem isLocal_mingled : ∀ c ∈ mingled, c.IsLocal := by
  have hecho : Application.echo.IsLocal :=
    fun k => ⟨⟨rfl, fun _ => ⟨rfl, fun _ => trivial⟩, trivial⟩, rfl⟩
  have hparting : parting.onOpen.IsLocal := fun k => ⟨⟨rfl, ⟨rfl, trivial⟩, trivial⟩, rfl⟩
  have hlate : lateness.IsLocal := fun k => ⟨⟨rfl, fun _ => trivial⟩, rfl⟩
  simp only [mingled, List.forall_mem_cons]
  exact ⟨hecho, hparting, trivial, trivial, trivial, trivial, trivial, trivial, trivial, hlate,
    hlate, fun _ h => by cases h⟩

theorem undisturbed_of_mingled :
    (entered mingled).Nodup ∧ (∀ c ∈ mingled, c.IsLocal) ∧ .enter echoing ∈ mingled ∧
      ((({} : World Conduit).play 40 mingled).sessions.map (·.frames)) =
        [[.opening, .batch ["x"], .heartbeat, .batch ["late"]], [.opening, .heartbeat]] ∧
      ∃ n, ∀ fuel, n ≤ fuel → Undisturbed mingled "a" (({} : World Conduit).play fuel mingled)
        (({} : World Conduit).play fuel (mingled.filter (·.concerns "a"))) :=
  ⟨by decide, isLocal_mingled, List.mem_cons_self, by decide +kernel,
    undisturbed_of_play (by decide) isLocal_mingled (o := echoing) List.mem_cons_self⟩

end World

end Duplex
