/-
Duplex/Session/Basic.lean

Sessions: one logical connection over many carriers.

A session is fresh until its first carrier opens it, then live until it is
closed. While live it has at most one attached carrier. With one attached, a
message goes out as soon as it is written and a heartbeat goes out once a
period, whatever else goes out; with none, messages queue up and a deadline
runs, at which the session closes. A new carrier takes the place of the old one and is handed the
whole queue in one batch.

Times are passed in, so every operation is a function of the session. Nothing
here runs application code: an operation that gives the application something
to do says so by its answer, and `Duplex.World` sees to it.

A session remembers what happened to it, newest event first. Nothing reads
that history; it is there to be spoken about.

Main definitions: `Session`, `Session.attach`, `Session.write`,
`Session.detach`, `Session.shut`, `Session.beat`, `Session.receive`,
`Session.deliver?`, `Session.depart`.
-/
import Duplex.Carrier.Basic
import Duplex.Moment
import Duplex.Options
import Duplex.Program

namespace Duplex

/-! ### Parts -/

/-- The times that a session keeps, fixed when it is made. -/
structure Timing where
  /-- Milliseconds between two heartbeats. -/
  heartbeat : Nat
  /-- How long it waits for its next carrier; without one it does not wait. -/
  patience : Option Nat
  /-- The longest wait that the clock of the session keeps. -/
  farthest : Nat := Moment.thirtyYears
  deriving DecidableEq, Repr

namespace Timing

/-- For a session carried by one request after another. -/
def polling (o : Options) : Timing :=
  { heartbeat := o.heartbeatPeriod.toNat, patience := some o.sessionTimeout.toNat }

/-- For a session that lives and dies with one connection. -/
def fullDuplex (o : Options) : Timing := { heartbeat := o.heartbeatPeriod.toNat, patience := none }

/-- The time between two heartbeats; it is never zero. -/
def period (t : Timing) : Nat := Moment.waited t.farthest (max t.heartbeat 1)

/-- The time from losing a carrier to closing. -/
def grace (t : Timing) : Nat := Moment.waited t.farthest (t.patience.getD 0)

end Timing

/-- How far a session has come. -/
inductive Phase where
  /-- No carrier was ever attached. -/
  | fresh
  | live
  | closed
  deriving DecidableEq, Repr

/-- What happens to a session. Carriers are named by their place. -/
inductive Event where
  | attached (n : Nat)
  | handed (n : Nat) (frame : Frame) (delivery : Delivery)
  | finished (n : Nat)
  | detached (n : Nat)
  | opened
  | closed
  | sent (message : String)
  | received (messages : List String)
  /-- The application set a handler; handlers are numbered as they are set. -/
  | handlerSet (n : Nat)
  | delivered (n : Nat) (message : String)
  /-- A handler is through with a message. -/
  | returned (message : String)
  /-- The application said what to do at the end; farewells are numbered as they are set. -/
  | farewellSet (n : Nat)
  | farewellRun (n : Nat)
  | noted (entry : Note)
  deriving DecidableEq, Repr

/-- One logical connection. -/
structure Session (C : Type) where
  id : String
  timing : Timing
  /-- What the application does with the socket when it opens. -/
  onOpen : Nat → Program
  phase : Phase := .fresh
  /-- Every carrier it ever had, in order. -/
  carriers : List C := []
  /-- The place of the attached carrier. -/
  attached : Option Nat := none
  /-- Messages that wait for a carrier. -/
  outbound : List String := []
  /-- Messages that wait for the application. -/
  inbound : List String := []
  paused : Bool := false
  /-- What the application does with a message, and the number of that handler. -/
  handler : Option (Nat × (String → Program)) := none
  handlers : Nat := 0
  /-- What the application does when the session closes, and the number of that farewell. -/
  farewell : Option (Nat × Program) := none
  farewells : Nat := 0
  /-- When the next heartbeat is due. -/
  nextBeat : Option Nat := none
  /-- When the session closes if no carrier comes. -/
  deadline : Option Nat := none
  peer : Option Peer := none
  /-- Something outside the registry keeps it. -/
  held : Bool := true
  /-- Nothing keeps it any more. -/
  gone : Bool := false
  /-- What happened to it and when, newest first. -/
  past : List (Moment × Event) := []

namespace Session

variable {C : Type}

/-- Remembers an event. -/
def record (now : Moment) (e : Event) (s : Session C) : Session C :=
  { s with past := (now, e) :: s.past }

/-- The session is closed or gone. -/
def isClosed (s : Session C) : Bool := s.phase == .closed || s.gone

/-- What its socket shows. -/
def view (s : Session C) : View :=
  ⟨s.id, s.isClosed, if s.gone then none else s.peer⟩

/-- Remembers who opened it; only the first to be named counts. -/
def introduce (p : Peer) (s : Session C) : Session C :=
  { s with peer := some (s.peer.getD p) }

/-- Adds a carrier without attaching it. -/
def addCarrier (c : C) (s : Session C) : Session C := { s with carriers := s.carriers ++ [c] }

/-- The next heartbeat is due a whole period from now. -/
def armBeat (now : Moment) (s : Session C) : Session C :=
  { s with nextBeat := some (now.time + s.timing.period) }

section Carriers

variable [Carrier C]

/-! ### Frames out -/

/-- Hands a frame to the carrier in place `n`. -/
def hand (now : Moment) (n : Nat) (frame : Frame) (s : Session C) : Session C × Delivery :=
  match s.carriers[n]? with
  | none => (s, .refused)
  | some c =>
    let (c, delivery) := Carrier.take c frame
    ({ s with carriers := s.carriers.set n c }.record now (.handed n frame delivery), delivery)

/-- Ends the carrier in place `n`. -/
def finish (now : Moment) (n : Nat) (s : Session C) : Session C :=
  { s with carriers := s.carriers.modify n Carrier.finish }.record now (.finished n)

/-- Lets the attached carrier go and starts the deadline. -/
def detach (now : Moment) (s : Session C) : Session C :=
  match s.attached with
  | none => s
  | some n =>
    { s.finish now n with
      attached := none
      nextBeat := none
      deadline := some (now.time + s.timing.grace) }.record now (.detached n)

/-- Hands a frame to the attached carrier, and lets it go when it takes no more. -/
def push (now : Moment) (frame : Frame) (s : Session C) : Session C :=
  match s.attached with
  | none => s
  | some n =>
    match s.hand now n frame with
    | (s, .more) => if s.nextBeat.isNone then s.armBeat now else s
    | (s, .last) | (s, .refused) => s.detach now

/-- Hands over the whole queue as one batch. -/
def flush (now : Moment) (s : Session C) : Session C :=
  { s with outbound := [] }.push now (.batch s.outbound)

/-- Queues a message, and sends it at once if a carrier is attached. -/
def write (now : Moment) (message : String) (s : Session C) : Session C × Option WriteError :=
  if s.phase = .closed then (s, some .closed)
  else
    let s := { s with outbound := s.outbound ++ [message] }.record now (.sent message)
    (if s.attached.isSome then s.flush now else s, none)

/-! ### Carriers come and go -/

/-- Ends the attached carrier without a frame and stops both clocks. -/
def displace (now : Moment) (s : Session C) : Session C :=
  let s := match s.attached with
    | none => s
    | some n => s.finish now n
  { s with attached := none, nextBeat := none, deadline := none }

/-- Attaches the carrier in place `n`. A fresh session opens; a live one sends what waits; a closed
one says so and ends the carrier. -/
def attach (now : Moment) (n : Nat) (s : Session C) : Session C :=
  if s.phase = .closed then ((s.record now (.attached n)).hand now n .goAway).1.finish now n
  else
    let s' := { s.displace now with attached := some n, phase := .live }.record now (.attached n)
    if s.phase = .fresh then (s'.push now .opening).record now .opened
    else if s'.outbound.isEmpty then s'.armBeat now
    else s'.flush now

/-- Closes the session: the attached carrier is told and ended, and all that waits is dropped. -/
def shut (now : Moment) (s : Session C) : Session C :=
  if s.phase = .closed then s
  else
    let s := { s with phase := .closed }.record now .closed
    let s := match s.attached with
      | none => s
      | some n => (s.hand now n .goAway).1.finish now n
    { s with
      attached := none
      outbound := []
      inbound := []
      handler := none
      farewell := none
      nextBeat := none
      deadline := none }

/-- The attached carrier's connection went away. -/
def isStranded (s : Session C) : Bool :=
  match s.attached.bind (s.carriers[·]?) with
  | none => false
  | some c => Carrier.lost c

/-- Sends a heartbeat; the next one is due a period later if the carrier stays. -/
def beat (now : Moment) (s : Session C) : Session C :=
  let s := s.push now .heartbeat
  if s.attached.isSome then s.armBeat now else s

end Carriers

/-! ### Messages in -/

/-- Takes in the client's messages, unless the session is closed. -/
def receive (now : Moment) (messages : List String) (s : Session C) : Session C :=
  if s.phase = .closed then s
  else { s with inbound := s.inbound ++ messages }.record now (.received messages)

/-- Sets what is done with every message from now on. A closed session keeps it as well; no message
will come to it, and it is not remembered as an event. -/
def setHandler (now : Moment) (handler : String → Program) (s : Session C) : Session C :=
  let n := s.handlers
  let s := { s with handler := some (n, handler), handlers := n + 1 }
  if s.phase = .closed then s else s.record now (.handlerSet n)

/-- The next message and what the application does with it, when there is one that may be given to
it. -/
def deliver? (now : Moment) (s : Session C) : Option (String × Program × Session C) :=
  if s.paused || s.phase == .closed then none
  else
    match s.handler, s.inbound with
    | some (n, handler), message :: rest =>
      some (message, handler message,
        { s with inbound := rest }.record now (.delivered n message))
    | _, _ => none

/-! ### The end -/

/-- Remembers a farewell that came too late to be kept and is run at once. -/
def passFarewell (now : Moment) (s : Session C) : Session C :=
  let n := s.farewells
  ({ s with farewells := n + 1 }.record now (.farewellSet n)).record now (.farewellRun n)

/-- Sets what is done when the session closes. A session that is closed does it now, which is the
answer. -/
def setFarewell (now : Moment) (p : Program) (s : Session C) : Session C × Option Program :=
  if s.phase = .closed then (s.passFarewell now, some p)
  else
    let n := s.farewells
    ({ s with farewell := some (n, p), farewells := n + 1 }.record now (.farewellSet n), none)

/-- Closes the session and says what the application does about it. -/
def depart [Carrier C] (now : Moment) (s : Session C) : Session C × Option Program :=
  match if s.phase = .closed then none else s.farewell with
  | none => (s.shut now, none)
  | some (n, p) => ((s.shut now).record now (.farewellRun n), some p)

/-! ### Clocks -/

/-- When the session has something to do by itself. -/
def due? (s : Session C) : Option Nat := s.nextBeat.or s.deadline

end Session

end Duplex
