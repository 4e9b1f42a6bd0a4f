/-
Duplex/Rehearsal/Log.lean

Logs: what a rehearsal shows of the histories of its sessions.

A log shows the frames that carriers took, the end of a carrier the first
time it is finished, the opening of a session, and what the application noted.
Frames that a carrier refused do not show, nor does a carrier that has no
name. Sockets are numbered in the order in which sessions opened.

Main definitions: `Entry`, `World.logSince`, `inOrderOfSubjects`.
-/
import Duplex.Carrier.ResponseStream
import Duplex.Rehearsal.Probe
import Duplex.World.Basic

namespace Duplex

namespace Rehearsal

/-- A line of a log. -/
inductive Entry where
  | frame (carrier : String) (text : String)
  | ended (carrier : String)
  | opened (socket : Nat) (id : String)
  | noted (socket : Nat) (note : Note)
  deriving DecidableEq, Repr

/-- Carriers that may have a name in a log. -/
class Named (C : Type) where
  name? : C → Option String

instance : Named Probe where
  name? p := some p.name

instance : Named Conduit where
  name? _ := none

/-- The name or number that an entry is about, as a text. -/
def Entry.subject : Entry → String
  | .frame carrier _ | .ended carrier => String.ofList (Quoted.write carrier.toList)
  | .opened socket _ | .noted socket _ => Text.Decimal.text socket

/-- Entries in order of what they are about; those about the same stay in order. -/
def inOrderOfSubjects (entries : List Entry) : List Entry :=
  entries.mergeSort fun a b => a.subject ≤ b.subject

/-- Entries in order of sockets. -/
def inOrderOfSockets (entries : List Entry) : List Entry :=
  let key : Entry → Nat
    | .opened socket _ | .noted socket _ => socket
    | _ => 0
  entries.mergeSort fun a b => key a ≤ key b

end Rehearsal

namespace Session

open Rehearsal

variable {C : Type} [Named C]

/-- The name of the carrier in place `n`. -/
def carrierName? (s : Session C) (n : Nat) : Option String := (s.carriers[n]?).bind Named.name?

/-- What a log shows of an event; `finished` are the carriers finished before it. -/
def entry? (s : Session C) (socket : Nat) (finished : List Nat) : Event → Option Entry
  | .handed n frame delivery =>
    if delivery = .refused then none else (s.carrierName? n).map (.frame · frame.text)
  | .finished n => if finished.contains n then none else (s.carrierName? n).map .ended
  | .opened => some (.opened socket s.id)
  | .noted note => some (.noted socket note)
  | _ => none

/-- What a log shows of events in order, with their times; `finished` are the carriers finished
before them. -/
def entries (s : Session C) (socket : Nat) (finished : List Nat) (events : List (Moment × Event)) :
    List (Moment × Entry) :=
  let onto (acc : List (Moment × Entry)) (t : Moment) : Option Entry → List (Moment × Entry)
    | some entry => (t, entry) :: acc
    | none => acc
  (events.foldl
    (fun (finished, acc) (t, e) =>
      (match e with
        | .finished n => n :: finished
        | _ => finished,
       onto acc t (s.entry? socket finished e)))
    (finished, [])).2.reverse

/-- The carriers that were ever finished. -/
def finishedCarriers (past : List (Moment × Event)) : List Nat :=
  past.filterMap fun
    | (_, .finished n) => some n
    | _ => none

/-- What a log shows of what happened after the first `known` events. -/
def logSince (s : Session C) (socket : Nat) (known : Nat) : List (Moment × Entry) :=
  let fresh := s.past.length - known
  s.entries socket (finishedCarriers (s.past.drop fresh)) (s.past.take fresh).reverse

end Session

namespace World

open Rehearsal

variable {C : Type} [Named C]

/-- The number of a session's socket. -/
def socketOf (w : World C) (k : Nat) : Nat := w.sockets.idxOf k

/-- What a log shows of what happened in `w` since it was `before`, in order of time. -/
def logSince (w before : World C) : List Entry :=
  let ofSession (s : Session C) (k : Nat) : List (Moment × Entry) :=
    s.logSince (w.socketOf k) (((before.sessions[k]?).map (·.past.length)).getD 0)
  let all := w.sessions.zipIdx.flatMap fun (s, k) => ofSession s k
  (all.mergeSort fun a b => a.1.turn ≤ b.1.turn).map (·.2)

end World

end Duplex
