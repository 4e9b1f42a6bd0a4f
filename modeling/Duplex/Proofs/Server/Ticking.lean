/-
Duplex/Proofs/Server/Ticking.lean

What a server does by itself.

The acts around a message socket are not another machine beside the server's own
clock.  A server whose links stand, each with a session of its own, is in *order*
(`InOrder`), and remains so as it goes on by itself; and what it does is, for each
of its links, a number of proper acts around it (`exists_settle_eq_acts`).
-/
import Duplex.Proofs.Server.Conversation
import Duplex.Server.Clock

namespace Duplex

namespace Server

/-! ### One link after the other -/

/-- The first link that has something to do is looked after. -/
theorem pumpFirst?_eq_some {w w' : World Conduit} {ls ls' : List Link}
    (h : pumpFirst? w ls = some (w', ls')) :
    ∃ j l l', ls[j]? = some l ∧ l.pump? w = some (w', l') ∧ ls' = ls.set j l' := by
  induction ls generalizing ls' with
  | nil => cases h
  | cons l ls ih =>
    rw [pumpFirst?] at h
    split at h
    · rename_i w₁ l₁ hpump
      obtain ⟨rfl, rfl⟩ := Prod.mk.inj (Option.some.inj h)
      exact ⟨0, l, l₁, rfl, hpump, rfl⟩
    · obtain ⟨⟨w₁, ls₁⟩, hfirst, he⟩ := Option.map_eq_some_iff.mp h
      obtain ⟨rfl, rfl⟩ := Prod.mk.inj he
      obtain ⟨j, l₂, l', hl, hpump, rfl⟩ := ih hfirst
      exact ⟨j + 1, l₂, l', hl, hpump, rfl⟩

end Server

/-! ### Moves as acts -/

namespace Talk

variable {w : World Conduit} {l : Link} {ms : List (Move Conduit)}

theorem after_world (w : World Conduit) (l : Link) (ms : List (Move Conduit)) :
    Talk.after (w, l) (ms.map .world) = (w.after ms, l) := by
  induction ms generalizing w with
  | nil => rfl
  | cons m ms ih => exact ih (w.move m)

/-- Moves that are in time and leave the session alone are proper acts. -/
theorem proper_world (htimely : World.Timely w ms) (hmindful : World.Mindful w ms)
    (hspares : ∀ m ∈ ms, m.spares l.session = true) : Talk.Proper (w, l) (ms.map .world) := by
  induction ms generalizing w with
  | nil => trivial
  | cons m ms ih =>
    exact ⟨⟨htimely.1, hmindful.1, hspares m List.mem_cons_self⟩,
      ih htimely.2 hmindful.2 fun m' hm => hspares m' (List.mem_cons_of_mem _ hm)⟩

/-- A link is looked after in time. -/
theorem timely_pumping (ht : w.tasks = []) (l : Link) : World.Timely w (l.pumping w) := by
  have hleaving : World.Timely w (l.leaving w) := by
    rw [Link.leaving]
    rcases l.queue? w with - | q
    · exact ⟨ht, ht, trivial⟩
    · exact ⟨ht, ht, ht, trivial⟩
  rw [Link.pumping]
  split
  · trivial
  split
  · split
    · exact ⟨ht, trivial⟩
    split
    · exact ⟨ht, trivial⟩
    split
    · exact hleaving
    · trivial
  · trivial

/-- To look after a link is to do something to its own session only. -/
theorem spares_of_isOwn {k : Nat} (hk : l.session ≠ k) {m : Move Conduit} (h : l.IsOwn m) :
    m.spares k = true := by
  rcases h with ⟨_, rfl⟩ | rfl | rfl
  all_goals simpa [Move.spares] using hk

theorem mindful_of_isOwn (h : ∀ m ∈ ms, l.IsOwn m) : World.Mindful w ms := by
  induction ms generalizing w with
  | nil => trivial
  | cons m ms ih =>
    refine ⟨?_, ih fun m' hm => h m' (List.mem_cons_of_mem _ hm)⟩
    rcases h m List.mem_cons_self with ⟨_, rfl⟩ | rfl | rfl
    all_goals trivial

end Talk

/-! ### Servers in order -/

namespace Server

open Talk (Stands)

/-- The server came about in time, each of its links stands, and each has a session of its own. -/
structure InOrder (s : Server) : Prop where
  run : ∃ ms, s.world = ({} : World Conduit).after ms ∧ World.Timely {} ms
  stands : ∀ l ∈ s.links, Stands s.world l
  apart : ∀ (i j : Nat) (l l' : Link), s.links[i]? = some l → s.links[j]? = some l' →
    l.session = l'.session → i = j

/-- What happens to the server is a number of proper acts around each of its links. -/
structure Acts (s s' : Server) : Prop where
  run : ∃ ms, s'.world = s.world.after ms ∧ World.Timely s.world ms
  links : s'.links.length = s.links.length
  around : ∀ (i : Nat) (l : Link), s.links[i]? = some l → ∃ acts l', s'.links[i]? = some l' ∧
    Talk.Proper (s.world, l) acts ∧ Talk.after (s.world, l) acts = (s'.world, l')

variable {s s' s'' : Server} {w : World Conduit} {ms : List (Move Conduit)}

theorem Acts.refl (s : Server) : Acts s s :=
  ⟨⟨[], rfl, trivial⟩, rfl, fun _ l hl => ⟨[], l, hl, trivial, rfl⟩⟩

theorem Acts.trans (h : Acts s s') (h' : Acts s' s'') : Acts s s'' := by
  obtain ⟨⟨ms, hrun, htimely⟩, hlinks, haround⟩ := h
  obtain ⟨⟨ms', hrun', htimely'⟩, hlinks', haround'⟩ := h'
  refine ⟨⟨ms ++ ms', ?_, ?_⟩, hlinks'.trans hlinks, fun i l hl => ?_⟩
  · rw [hrun', hrun, World.after_append]
  · rw [World.timely_append, ← hrun]
    exact ⟨htimely, htimely'⟩
  · obtain ⟨acts, l₁, hl₁, hproper, hafter⟩ := haround i l hl
    obtain ⟨acts', l₂, hl₂, hproper', hafter'⟩ := haround' i l₁ hl₁
    refine ⟨acts ++ acts', l₂, hl₂, ?_, ?_⟩
    · rw [Talk.Proper, Talk.always_append, hafter]
      exact ⟨hproper, hproper'⟩
    · rw [Talk.after, List.foldl_append]
      exact (congrArg (Talk.after · acts') hafter).trans hafter'

/-- A server that is in order remains so. -/
theorem Acts.inOrder (h : Acts s s') (hs : s.InOrder) : s'.InOrder := by
  obtain ⟨ms, hrun, htimely⟩ := hs.run
  obtain ⟨ms', hrun', htimely'⟩ := h.run
  -- each link of the server after comes from the one in its place before
  have before {i : Nat} {l' : Link} (hl' : s'.links[i]? = some l') : ∃ l, s.links[i]? = some l ∧
      l'.session = l.session ∧ Stands s'.world l' := by
    have hlt : i < s.links.length := h.links ▸ (List.getElem?_eq_some_iff.mp hl').1
    obtain ⟨acts, l₁, hl₁, hproper, hafter⟩ := h.around i _ (List.getElem?_eq_getElem hlt)
    obtain rfl := Option.some.inj (hl'.symm.trans hl₁)
    have hstands := (hs.stands _ (List.getElem_mem hlt)).after (c := (s.world, s.links[i])) hrun
      hproper
    have hsession := Talk.session_after (s.world, s.links[i]) acts
    rw [hafter] at hstands hsession
    exact ⟨_, List.getElem?_eq_getElem hlt, hsession, hstands⟩
  refine ⟨⟨ms ++ ms', ?_, ?_⟩, fun l' hl' => ?_, fun i j l₁ l₂ hl₁ hl₂ he => ?_⟩
  -- the two runs make one
  · rw [hrun', hrun, World.after_append]
  · rw [World.timely_append, ← hrun]
    exact ⟨htimely, htimely'⟩
  · obtain ⟨i, hi⟩ := List.mem_iff_getElem?.mp hl'
    obtain ⟨_, -, -, hstands⟩ := before hi
    exact hstands
  -- two links of one session were two links of one session before
  · obtain ⟨_, hl, hsession, -⟩ := before hl₁
    obtain ⟨_, hl', hsession', -⟩ := before hl₂
    exact hs.apart i j _ _ hl hl' (by rw [← hsession, he, hsession'])

theorem inOrder_empty : ({} : Server).InOrder :=
  ⟨⟨[], rfl, trivial⟩, nofun, nofun⟩

theorem InOrder.session_lt (hs : s.InOrder) {l : Link} (hl : l ∈ s.links) :
    l.session < s.world.sessions.length := by
  obtain ⟨c, hc⟩ := (hs.stands l hl).session
  exact (List.getElem?_eq_some_iff.mp hc).1

/-- The link of a connection that is upgraded is the last. -/
theorem getElem?_links_upgrade {m : Mount} {id : String} {r : Request} {i : Nat} {l : Link}
    (hl : (s.upgrade m id r).2.links[i]? = some l) :
    s.links[i]? = some l ∨ i = s.links.length ∧ l = (s.talk m id r).2 := by
  rw [links_upgrade] at hl
  by_cases hi : i < s.links.length
  · rw [List.getElem?_append_left hi] at hl
    exact .inl hl
  · rw [List.getElem?_append_right (Nat.le_of_not_lt hi)] at hl
    rcases hn : i - s.links.length with - | n
    · rw [hn] at hl
      exact .inr ⟨by omega, (Option.some.inj hl).symm⟩
    · rw [hn] at hl
      cases hl

/-- The links that there are stand as before when a connection is upgraded. -/
theorem InOrder.stands_upgrade (hs : s.InOrder) (ht : s.world.tasks = []) {l : Link}
    (hl : l ∈ s.links) (m : Mount) (id : String) (r : Request) :
    Stands (s.upgrade m id r).2.world l := by
  obtain ⟨ms, hrun, -⟩ := hs.run
  have htimely : World.Timely s.world (s.upgrading m id r) := ⟨ht, ht, trivial⟩
  have hmindful : World.Mindful s.world (s.upgrading m id r) := ⟨trivial, trivial, trivial⟩
  have hspares : ∀ m' ∈ s.upgrading m id r, m'.spares l.session = true := by
    intro m' hm
    rcases List.mem_cons.mp hm with rfl | hm
    · rfl
    · rw [List.mem_singleton.mp hm]
      simpa [Move.spares] using (Nat.ne_of_lt (hs.session_lt hl)).symm
  have hproper := Talk.proper_world htimely hmindful hspares
  have hstands := (hs.stands l hl).after (c := (s.world, l)) hrun hproper
  rw [Talk.after_world] at hstands
  exact hstands

/-- A connection that is upgraded between tasks has a session of its own. -/
theorem inOrder_upgrade (hs : s.InOrder) (ht : s.world.tasks = []) (m : Mount) (id : String)
    (r : Request) : (s.upgrade m id r).2.InOrder := by
  obtain ⟨ms, hrun, htimely⟩ := hs.run
  have hnew {i : Nat} {l l' : Link} (hl : s.links[i]? = some l)
      (hl' : l' = (s.talk m id r).2) : l.session ≠ l'.session := by
    rw [hl']
    exact Nat.ne_of_lt (hs.session_lt (List.mem_of_getElem? hl))
  refine ⟨⟨ms ++ s.upgrading m id r, ?_, ?_⟩, fun l hl => ?_, fun i j l l' hl hl' he => ?_⟩
  · show (s.talk m id r).1 = _
    rw [world_talk, World.after_append, hrun]
  · rw [World.timely_append, ← hrun]
    exact ⟨htimely, ht, ht, trivial⟩
  · rcases List.mem_append.mp (links_upgrade s m id r ▸ hl) with hl | hl
    · exact hs.stands_upgrade ht hl m id r
    · rw [List.mem_singleton.mp hl]
      exact stands_talk s m id r
  · rcases getElem?_links_upgrade hl with hl | ⟨hi, hl⟩
    · rcases getElem?_links_upgrade hl' with hl' | ⟨-, hl'⟩
      · exact hs.apart i j l l' hl hl' he
      · exact absurd he (hnew hl hl')
    · rcases getElem?_links_upgrade hl' with hl' | ⟨hj, -⟩
      · exact absurd he.symm (hnew hl' hl)
      · rw [hi, hj]

/-- Moves that leave the sessions of all links alone. -/
theorem acts_world (ms : List (Move Conduit)) (htimely : World.Timely s.world ms)
    (hmindful : World.Mindful s.world ms)
    (hspares : ∀ l ∈ s.links, ∀ m ∈ ms, m.spares l.session = true) :
    Acts s { s with world := s.world.after ms } :=
  ⟨⟨ms, rfl, htimely⟩, rfl, fun _ l hl => ⟨ms.map .world, l, hl,
    Talk.proper_world htimely hmindful (hspares l (List.mem_of_getElem? hl)),
    Talk.after_world s.world l ms⟩⟩

/-- One link is looked after, between tasks. -/
theorem acts_pump (hs : s.InOrder) (ht : s.world.tasks = []) (h : s.pump? = some s') :
    Acts s s' := by
  obtain ⟨⟨w', ls'⟩, hfirst, rfl⟩ := Option.map_eq_some_iff.mp h
  obtain ⟨j, l, l', hl, hpump, rfl⟩ := pumpFirst?_eq_some hfirst
  have hw : w' = s.world.after (l.pumping s.world) := by
    rw [← Link.fst_pump, hpump]
    rfl
  refine ⟨⟨_, hw, Talk.timely_pumping ht l⟩, List.length_set, fun i l₁ hl₁ => ?_⟩
  by_cases hij : j = i
  · subst hij
    obtain rfl := Option.some.inj (hl.symm.trans hl₁)
    refine ⟨[.pump], l', ?_, ⟨trivial, trivial⟩, ?_⟩
    · exact List.getElem?_set_self (List.getElem?_eq_some_iff.mp hl).1
    · show (l.pump? s.world).getD (s.world, l) = (w', l')
      rw [hpump]
      rfl
  · have hne : l.session ≠ l₁.session := fun he => hij (hs.apart j i l l₁ hl hl₁ he)
    have hown := l.isOwn_pumping s.world
    refine ⟨(l.pumping s.world).map .world, l₁, ?_, ?_, ?_⟩
    · exact (List.getElem?_set_ne hij).trans hl₁
    · exact Talk.proper_world (Talk.timely_pumping ht l) (Talk.mindful_of_isOwn hown)
        fun m hm => Talk.spares_of_isOwn hne (hown m hm)
    · rw [Talk.after_world, ← hw]

/-- Between tasks, no carrier of a link that stands is found to have lost its connection. -/
theorem not_stranded {l : Link} (h : Stands w l) (hrun : ∃ ms, w = ({} : World Conduit).after ms)
    (ht : w.tasks = []) {c : Session Conduit} (hc : w.sessions[l.session]? = some c) :
    c.isStranded = false := by
  obtain ⟨ms, hrun⟩ := hrun
  have hwound : c.Wound := World.wound_of_run ms (hrun ▸ hc)
  have finished (hp : c.phase = .closed) : c.isStranded = false := by
    simp [Session.isStranded, hwound.closed hp]
  cases h with
  | joined c' q here _ _ joined =>
    obtain rfl := Option.some.inj (hc.symm.trans here)
    by_cases hp : c.phase = .closed
    · exact finished hp
    · rw [Session.isStranded, joined.attached hp, Option.bind_some, joined.carrier]
      exact joined.connected
  | left c' here _ _ closing =>
    obtain rfl := Option.some.inj (hc.symm.trans here)
    rcases closing with hp | ⟨hmem, -⟩
    · exact finished hp
    · rw [ht] at hmem
      cases hmem

/-- What the world does by itself leaves the sessions of all links alone. -/
theorem acts_of_go? (hs : s.InOrder) (limit : Nat) (h : s.world.go? limit = some w) :
    Acts s { s with world := w } := by
  obtain ⟨ms, hrun, htimely⟩ := hs.run
  have hin : s.world.InTime := hrun ▸ World.InTime.empty.after htimely
  rcases World.moves_of_go? hin h with rfl | ⟨k, ht, hmindful, rfl⟩ | ⟨k, n, c, ht, hc, hst, rfl⟩ |
    ⟨t, k, hfire, rfl⟩
  · exact acts_world [.step] ⟨trivial, trivial⟩ ⟨trivial, trivial⟩ (by simp [Move.spares])
  · exact acts_world [.forget k] ⟨ht, trivial⟩ ⟨hmindful, trivial⟩ (by simp [Move.spares])
  · refine acts_world [.lose k n] ⟨ht, trivial⟩ ⟨trivial, trivial⟩ fun l hl m hm => ?_
    rw [List.mem_singleton.mp hm]
    have hk : k ≠ l.session := by
      rintro rfl
      cases (not_stranded (hs.stands l hl) ⟨ms, hrun⟩ ht hc).symm.trans hst
    simpa [Move.spares] using hk
  · exact acts_world _ hfire ⟨trivial, trivial, trivial⟩ (by simp [Move.spares])

/-- One step of the server's clock. -/
theorem acts_of_tick? (hs : s.InOrder) {limit : Nat} (h : s.tick? limit = some s') : Acts s s' := by
  have hnext : Acts s { s with world := s.world.next } :=
    acts_world [.next] ⟨trivial, trivial⟩ ⟨trivial, trivial⟩ (by simp [Move.spares])
  refine hnext.trans ?_
  have hs := hnext.inOrder hs
  unfold tick? at h
  generalize ({ s with world := s.world.next } : Server) = s at hs h ⊢
  simp only at h
  split at h
  · rename_i w hstir
    obtain rfl := Option.some.inj h
    exact acts_of_go? hs limit (by simp [World.go?, hstir])
  · rename_i hstir
    split at h
    · rename_i s₁ hpump
      obtain rfl := Option.some.inj h
      exact acts_pump hs (World.stir?_eq_none.mp hstir).1 hpump
    · obtain ⟨w, hfire, rfl⟩ := Option.map_eq_some_iff.mp h
      exact acts_of_go? hs limit (by simp [World.go?, hstir, hfire])

/-- **What a server does by itself are proper acts around each of its links.** -/
theorem exists_settle_eq_acts (hs : s.InOrder) (limit fuel : Nat) :
    Acts s (s.settle limit fuel) := by
  induction fuel generalizing s with
  | zero => exact .refl s
  | succ fuel ih =>
    rw [settle]
    split
    · rename_i s₁ htick
      -- there is something to do, and it is done
      have hacts := acts_of_tick? hs htick
      exact hacts.trans (ih (hacts.inOrder hs))
    · rename_i htick
      -- nothing is left to do before the limit, so time passes
      have hgo : s.world.next.go? limit = none := by
        unfold tick? at htick
        simp only at htick
        split at htick
        · cases htick
        rename_i hstir
        split at htick
        · cases htick
        simpa [World.go?, hstir] using htick
      obtain ⟨hstir, hdue⟩ := World.go?_eq_none.mp hgo
      refine acts_world [.pass limit] ⟨⟨(World.stir?_eq_none.mp hstir).1, ?_⟩, trivial⟩
        ⟨trivial, trivial⟩ (by simp [Move.spares])
      exact fun c hc t ht => Nat.le_of_lt (hdue c hc t ht)

end Server

end Duplex
