/-
Duplex/Proofs/Session/Plain.lean

Sessions apart from numbers.

What happens to a session is remembered with the turn at which it happened, and
its programs name sockets by number.  Both depend on what other sessions there
are.  `Session.plain` leaves a session with times instead of moments, and with
programs for which every socket is the first.

No operation of a session looks at turns or at the numbers in programs, so each
of them comes to the same before and after:

    (s.attach now n).plain k = (s.plain k).attach now.plain n

and likewise for the others.
-/
import Duplex.Proofs.Session.Handing

namespace Duplex

variable {C : Type}

/-- The same time, at turn zero. -/
def Moment.plain (m : Moment) : Moment := { m with turn := 0 }

theorem Moment.time_eq_of_plain {m m' : Moment} (h : m.plain = m'.plain) : m.time = m'.time := by
  simpa only [plain, mk.injEq, and_true] using h

/-- The same program with the first socket in place of every socket. -/
def Program.plain : Program → Program
  | .done => .done
  | .note _ entry rest => .note 0 entry rest.plain
  | .write _ message next => .write 0 message fun r => (next r).plain
  | .onMessage _ handler rest => .onMessage 0 (fun m => (handler m).plain) rest.plain
  | .onClose _ handler rest => .onClose 0 handler.plain rest.plain
  | .pause _ rest => .pause 0 rest.plain
  | .resume _ rest => .resume 0 rest.plain
  | .close _ rest => .close 0 rest.plain
  | .look _ next => .look 0 fun v => (next v).plain
  | .feed _ payload next => .feed 0 payload fun r => (next r).plain

namespace Session

/-- Session `k` apart from its number and from turns. -/
def plain (k : Nat) (s : Session C) : Session C :=
  { s with
    onOpen := fun _ => (s.onOpen k).plain
    handler := s.handler.map fun h => (h.1, fun m => (h.2 m).plain)
    farewell := s.farewell.map fun f => (f.1, f.2.plain)
    past := s.past.map fun e => (e.1.plain, e.2) }

variable {k : Nat}

theorem plain_record (now : Moment) (e : Event) (s : Session C) :
    (s.record now e).plain k = (s.plain k).record now.plain e := rfl

/-! ### Messages in -/

theorem plain_receive (now : Moment) (messages : List String) (s : Session C) :
    (s.receive now messages).plain k = (s.plain k).receive now.plain messages := by
  by_cases hp : s.phase = .closed
  · simp [receive, plain, hp]
  · simp [receive, plain, hp, record]

theorem plain_setHandler (now : Moment) (handler : String → Program) (s : Session C) :
    (s.setHandler now handler).plain k =
      (s.plain k).setHandler now.plain fun m => (handler m).plain := by
  have hphase : (s.plain k).phase = s.phase := rfl
  by_cases hp : s.phase = .closed
  · simp only [setHandler, hphase, if_pos hp]
    rfl
  · simp only [setHandler, hphase, if_neg hp]
    rfl

/-- What is given out is the same, and what is done with it but for the numbers. -/
theorem deliver?_plain (now : Moment) (s : Session C) :
    (s.plain k).deliver? now.plain =
      (s.deliver? now).map fun g => (g.1, g.2.1.plain, g.2.2.plain k) := by
  by_cases h : (s.paused || s.phase == .closed) = true
  · have h' : ((s.plain k).paused || (s.plain k).phase == .closed) = true := h
    rw [deliver?, deliver?, if_pos h, if_pos h']
    rfl
  · have h' : ¬((s.plain k).paused || (s.plain k).phase == .closed) = true := h
    rw [deliver?, deliver?, if_neg h, if_neg h']
    rcases hh : s.handler with - | ⟨n, handler⟩
    · simp [plain, hh]
    · rcases hi : s.inbound with - | ⟨message, rest⟩
      · simp [plain, hh, hi]
      · simp [plain, hh, hi, record]

theorem plain_passFarewell (now : Moment) (s : Session C) :
    (s.passFarewell now).plain k = (s.plain k).passFarewell now.plain := rfl

theorem setFarewell_plain (now : Moment) (p : Program) (s : Session C) :
    (s.plain k).setFarewell now.plain p.plain =
      ((s.setFarewell now p).1.plain k, (s.setFarewell now p).2.map Program.plain) := by
  have hphase : (s.plain k).phase = s.phase := rfl
  by_cases hp : s.phase = .closed
  · simp only [setFarewell, hphase, if_pos hp]
    rfl
  · simp only [setFarewell, hphase, if_neg hp]
    rfl

section Carriers

variable [Carrier C]

/-! ### Frames out -/

theorem hand_plain (now : Moment) (n : Nat) (frame : Frame) (s : Session C) :
    (s.plain k).hand now.plain n frame =
      ((s.hand now n frame).1.plain k, (s.hand now n frame).2) := by
  have hc' : (s.plain k).carriers = s.carriers := rfl
  rcases hc : s.carriers[n]? with - | c
  · simp [hand, hc', hc]
  · rcases ht : Carrier.take c frame with ⟨c', delivery⟩
    simp only [hand, hc', hc, ht]
    rfl

theorem plain_finish (now : Moment) (n : Nat) (s : Session C) :
    (s.finish now n).plain k = (s.plain k).finish now.plain n := rfl

theorem plain_detach (now : Moment) (s : Session C) :
    (s.detach now).plain k = (s.plain k).detach now.plain := by
  have ha' : (s.plain k).attached = s.attached := rfl
  rcases ha : s.attached with - | n
  · simp only [detach, ha', ha]
  · simp only [detach, ha', ha]
    rfl

theorem plain_push (now : Moment) (frame : Frame) (s : Session C) :
    (s.push now frame).plain k = (s.plain k).push now.plain frame := by
  have ha' : (s.plain k).attached = s.attached := rfl
  rcases ha : s.attached with - | n
  · simp only [push, ha', ha]
  · rcases hh : s.hand now n frame with ⟨s', delivery⟩
    have hh' : (s.plain k).hand now.plain n frame = (s'.plain k, delivery) := by
      rw [hand_plain, hh]
    simp only [push, ha', ha, hh, hh']
    cases delivery with
    | more =>
      rcases hb : s'.nextBeat with - | b
      · have hb' : (s'.plain k).nextBeat = none := hb
        simp only [hb, hb']
        rfl
      · have hb' : (s'.plain k).nextBeat = some b := hb
        simp only [hb, hb']
        rfl
    | last => exact plain_detach now s'
    | refused => exact plain_detach now s'

theorem plain_flush (now : Moment) (s : Session C) :
    (s.flush now).plain k = (s.plain k).flush now.plain :=
  plain_push now (.batch s.outbound) { s with outbound := [] }

theorem write_plain (now : Moment) (message : String) (s : Session C) :
    (s.plain k).write now.plain message =
      ((s.write now message).1.plain k, (s.write now message).2) := by
  by_cases hp : s.phase = .closed
  · rw [write_of_closed hp, write_of_closed (s := s.plain k) hp]
  rcases ha : s.attached with - | n
  · rw [write_of_detached hp ha, write_of_detached (s := s.plain k) hp ha]
    rfl
  · rw [write_of_attached hp ha, write_of_attached (s := s.plain k) hp ha, plain_flush]
    rfl

/-! ### Carriers come and go -/

theorem plain_displace (now : Moment) (s : Session C) :
    (s.displace now).plain k = (s.plain k).displace now.plain := by
  have ha' : (s.plain k).attached = s.attached := rfl
  rcases ha : s.attached with - | n
  · simp only [displace, ha', ha]
    rfl
  · simp only [displace, ha', ha]
    rfl

theorem plain_seat (now : Moment) (n : Nat) (s : Session C) :
    (s.seat now n).plain k = (s.plain k).seat now.plain n := by
  rw [seat, seat, ← plain_displace]
  rfl

theorem plain_attach (now : Moment) (n : Nat) (s : Session C) :
    (s.attach now n).plain k = (s.plain k).attach now.plain n := by
  rcases hp : s.phase
  · rw [attach_of_fresh hp, attach_of_fresh (s := s.plain k) hp, ← plain_seat, plain_record,
      plain_push]
  · have ho : (s.plain k).outbound = s.outbound := rfl
    rw [attach_of_live hp, attach_of_live (s := s.plain k) hp, ho, ← plain_seat]
    split
    · rfl
    · exact plain_flush now _
  · rw [attach_of_closed hp, attach_of_closed (s := s.plain k) hp, plain_finish, ← plain_record,
      hand_plain]

/-! ### The end -/

theorem plain_shut (now : Moment) (s : Session C) :
    (s.shut now).plain k = (s.plain k).shut now.plain := by
  by_cases hp : s.phase = .closed
  · rw [shut_of_closed hp, shut_of_closed (s := s.plain k) hp]
  rcases ha : s.attached with - | n
  · rw [shut_of_detached hp ha, shut_of_detached (s := s.plain k) hp ha]
    rfl
  · have hended : (s.plain k).ended now.plain = (s.ended now).plain k := rfl
    rw [shut_of_attached hp ha, shut_of_attached (s := s.plain k) hp ha, hended, hand_plain]
    rfl

theorem depart_plain (now : Moment) (s : Session C) :
    (s.plain k).depart now.plain =
      ((s.depart now).1.plain k, (s.depart now).2.map Program.plain) := by
  have hf : (s.plain k).farewell = s.farewell.map fun f => (f.1, f.2.plain) := rfl
  by_cases hp : s.phase = .closed
  · have hp' : (s.plain k).phase = .closed := hp
    simp [depart, hp, hp', plain_shut]
  have hp' : (s.plain k).phase ≠ .closed := hp
  rcases h : s.farewell with - | ⟨n, p⟩
  · simp [depart, hp, hp', hf, h, plain_shut]
  · simp [depart, hp, hp', hf, h, plain_shut, plain_record]

/-! ### Clocks -/

theorem plain_beat (now : Moment) (s : Session C) :
    (s.beat now).plain k = (s.plain k).beat now.plain := by
  have ha : ((s.plain k).push now.plain .heartbeat).attached =
      (s.push now .heartbeat).attached := by
    rw [← plain_push]
    rfl
  rw [beat, beat, ha]
  split
  · rw [← plain_push]
    rfl
  · rw [← plain_push]

theorem isStranded_plain (s : Session C) : (s.plain k).isStranded = s.isStranded := rfl

end Carriers

/-! ### Sessions that are alike -/

/-- The two sessions differ in nothing but turns and the numbers by which their programs name
sockets. -/
structure Alike (s t : Session C) : Prop where
  id : s.id = t.id
  timing : s.timing = t.timing
  phase : s.phase = t.phase
  carriers : s.carriers = t.carriers
  attached : s.attached = t.attached
  outbound : s.outbound = t.outbound
  inbound : s.inbound = t.inbound
  paused : s.paused = t.paused
  handler : (s.handler.map fun h => (h.1, fun m => (h.2 m).plain)) =
    t.handler.map fun h => (h.1, fun m => (h.2 m).plain)
  handlers : s.handlers = t.handlers
  farewell : (s.farewell.map fun f => (f.1, f.2.plain)) = t.farewell.map fun f => (f.1, f.2.plain)
  farewells : s.farewells = t.farewells
  nextBeat : s.nextBeat = t.nextBeat
  deadline : s.deadline = t.deadline
  peer : s.peer = t.peer
  held : s.held = t.held
  gone : s.gone = t.gone
  /-- The same happened at the same times: frames were handed to the same carriers, and the
  application was told and noted the same. -/
  past : s.past.map (fun e => (e.1.time, e.2)) = t.past.map fun e => (e.1.time, e.2)

theorem alike_of_plain {s t : Session C} {l : Nat} (h : s.plain k = t.plain l) : s.Alike t := by
  simp only [plain, mk.injEq] at h
  obtain ⟨id, timing, -, phase, carriers, attached, outbound, inbound, paused, handler, handlers,
    farewell, farewells, nextBeat, deadline, peer, held, gone, past⟩ := h
  refine ⟨id, timing, phase, carriers, attached, outbound, inbound, paused, handler, handlers,
    farewell, farewells, nextBeat, deadline, peer, held, gone, ?_⟩
  have htimes := congrArg (List.map fun e : Moment × Event => (e.1.time, e.2)) past
  simpa only [List.map_map, Function.comp_def, Moment.plain] using htimes

end Session

end Duplex
