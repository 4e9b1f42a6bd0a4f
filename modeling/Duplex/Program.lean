/-
Duplex/Program.lean

What an application does with its sockets.

A program is a tree. Each node asks for one thing to be done with one socket
and says how to go on with the answer, so a program is finite along every
path and yet may react to everything it is told. Handlers are programs too:
one for every message, one for the end. A socket is named by the number of
its session.

A program may also note what it does; notes have no effect and are kept with
the history of the session they name.

Main definitions: `Peer`, `Program`, `View`, `Note`, `Reply`, and
`Application` with the two that come with the server, `Application.echo` and
`Application.goodbye`.
-/
import Duplex.Http.Header
import Duplex.Http.Target
import Duplex.Net.Endpoint
import Duplex.Refusal

namespace Duplex

/-! ### Peers -/

/-- Who is at the other end: what is kept of the request that opened a session. -/
structure Peer where
  target : Target
  headers : Headers := []
  remoteEnd : Option Endpoint := none
  localEnd : Option Endpoint := none
  deriving DecidableEq, Repr

/-! ### Notes -/

/-- What came of an action on a socket. -/
inductive Reply where
  | nothing
  | written (refused : Option WriteError)
  | flag (value : Bool)
  | text (value : String)
  | peer (value : Option Peer)
  deriving DecidableEq, Repr

/-- An entry that an application makes in its log. -/
inductive Note where
  | did (action : String) (reply : Reply)
  | data (message : String)
  | wrote (refused : Option WriteError)
  | fed (refused : Option Refusal)
  /-- A handler is through with a message. -/
  | handled (message : String)
  | parting (label : String)
  deriving DecidableEq, Repr

/-! ### Programs -/

/-- What a socket shows. -/
structure View where
  id : String
  closed : Bool
  peer : Option Peer
  deriving DecidableEq, Repr

/-- What an application does with its sockets. -/
inductive Program where
  | done
  | note (socket : Nat) (entry : Note) (rest : Program)
  | write (socket : Nat) (message : String) (next : Option WriteError → Program)
  /-- Sets what is done with every message from now on. -/
  | onMessage (socket : Nat) (handler : String → Program) (rest : Program)
  | onClose (socket : Nat) (handler : Program) (rest : Program)
  | pause (socket : Nat) (rest : Program)
  | resume (socket : Nat) (rest : Program)
  | close (socket : Nat) (rest : Program)
  | look (socket : Nat) (next : View → Program)
  /-- Feeds the session a payload, as a client would. -/
  | feed (socket : Nat) (payload : String) (next : Option Refusal → Program)

namespace Program

/-- One program after another. -/
def andThen : Program → Program → Program
  | .done, q => q
  | .note k entry rest, q => .note k entry (rest.andThen q)
  | .write k message next, q => .write k message fun r => (next r).andThen q
  | .onMessage k handler rest, q => .onMessage k handler (rest.andThen q)
  | .onClose k handler rest, q => .onClose k handler (rest.andThen q)
  | .pause k rest, q => .pause k (rest.andThen q)
  | .resume k rest, q => .resume k (rest.andThen q)
  | .close k rest, q => .close k (rest.andThen q)
  | .look k next, q => .look k fun v => (next v).andThen q
  | .feed k payload next, q => .feed k payload fun r => (next r).andThen q

end Program

/-! ### Applications -/

/-- What is done with a socket when it opens, by the socket's number. -/
abbrev Application := Nat → Program

namespace Application

/-- Writes every message back. -/
def echo : Application := fun k => .onMessage k (fun m => .write k m fun _ => .done) .done

/-- Closes every session at once. -/
def goodbye : Application := fun k => .close k .done

/-- Does nothing. -/
def idle : Application := fun _ => .done

end Application

end Duplex
