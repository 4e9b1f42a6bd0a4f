/-
Duplex/Rehearsal/Script.lean

Scripted applications.

A rehearsal runs an application whose every move is written down. A script is
a row of actions on one socket; after each of them the application notes what
came of it. A handler has one of three manners: it keeps a record, it echoes,
or it obeys, which means that messages themselves may be commands.

A handler may set another one in its place, and that one another. Programs
are finite along every path, so the number of times this can happen is given
as `depth`; it only has to be large enough for the messages that come.

Main definitions: `Action`, `Action.reply`, `Action.effect`, `script`,
`Manner.handler`, `Command.ofMessage`.
-/
import Duplex.Program
import Duplex.Text.Shown

namespace Duplex.Rehearsal

/-! ### Handlers -/

/-- What a handler does with a message. -/
inductive Manner where
  | record
  | echo
  /-- It does what the message says. -/
  | obey
  deriving DecidableEq, Repr

/-- What a message tells a handler that obeys. -/
inductive Command where
  | none
  | pause
  | resume
  | close
  | write (text : String)
  | handler (manner : Manner)
  | feed (payload : String)
  deriving DecidableEq, Repr

/-- What follows `lead` in a text that begins with it. -/
def after? (lead text : String) : Option String :=
  if lead.toList.isPrefixOf text.toList then
    some (String.ofList (text.toList.drop lead.toList.length))
  else none

/-- The manner of that name. -/
def Manner.ofName : String → Manner
  | "record" => .record
  | "echo" => .echo
  | _ => .obey

/-- What a message says. -/
def Command.ofMessage (message : String) : Command :=
  match message with
  | "!pause" => .pause
  | "!resume" => .resume
  | "!close" => .close
  | _ =>
    match after? "!write:" message, after? "!handler:" message, after? "!inbound:" message with
    | some text, _, _ => .write text
    | _, some name, _ => .handler (.ofName name)
    | _, _, some payload => .feed payload
    | _, _, _ => .none

/-- How often handlers may be set by handlers. -/
def maxDepth : Nat := 1000000000000

/-- What a handler of that manner does with a message. Feeding the session is only done where that
is wanted. -/
def Manner.handler (feeds : Bool) (k : Nat) : Nat → Manner → String → Program
  | 0, _, _ => .done
  | depth + 1, manner, message =>
    .note k (.data message) <|
      match manner with
      | .record => .done
      | .echo => .write k message fun r => .note k (.wrote r) .done
      | .obey =>
        let rest := .note k (.handled message) .done
        match Command.ofMessage message with
        | .none => rest
        | .pause => .pause k rest
        | .resume => .resume k rest
        | .close => .close k rest
        | .write text => .write k text fun r => .note k (.wrote r) rest
        | .handler other => .onMessage k (Manner.handler feeds k depth other) rest
        | .feed payload =>
          if feeds then .feed k payload fun r => .note k (.fed r) rest else rest

/-! ### Actions -/

/-- An action on a socket. -/
inductive Action where
  | write (message : String)
  | handler (manner : Manner)
  /-- Sets what is done when the session closes: a note, then more actions. -/
  | closeHandler (label : String) (rest : List Action)
  | pause
  | resume
  | close
  | isClosed
  | id
  | shown
  | peer

/-- A socket as it is shown in a log. -/
def shownSocket (id : String) : String :=
  String.ofList ("SockJsSocket \x7b id: SessionId(".toList ++ Text.Shown.chars id.toList ++
    ") \x7d".toList)

namespace Action

/-- The name of an action. -/
def label : Action → String
  | .write _ => "write"
  | .handler _ => "handler"
  | .closeHandler .. => "close_handler"
  | .pause => "pause"
  | .resume => "resume"
  | .close => "socket_close"
  | .isClosed => "is_closed"
  | .id => "id"
  | .shown => "debug"
  | .peer => "peer"

/-- What comes of an action on a socket that shows `v`. -/
def reply (v : View) : Action → Reply
  | .write _ => .written (if v.closed then some .closed else none)
  | .isClosed => .flag v.closed
  | .id => .text v.id
  | .shown => .text (shownSocket v.id)
  | .peer => .peer v.peer
  | _ => .nothing

end Action

mutual

/-- Does an action and goes on with `rest`. -/
def Action.effect (feeds : Bool) (k : Nat) (rest : Program) : Action → Program
  | .write message => .write k message fun _ => rest
  | .handler manner => .onMessage k (manner.handler feeds k maxDepth) rest
  | .closeHandler label actions =>
    .onClose k (.note k (.parting label) (script feeds k actions)) rest
  | .pause => .pause k rest
  | .resume => .resume k rest
  | .close => .close k rest
  | _ => rest

/-- Does one action after another and notes what came of each. -/
def script (feeds : Bool) (k : Nat) : List Action → Program
  | [] => .done
  | a :: rest =>
    .look k fun v =>
      a.effect feeds k (.note k (.did a.label (a.reply v)) (script feeds k rest))

end

/-- The application that follows a script with every socket. -/
def scripted (feeds : Bool) (actions : List Action) : Application :=
  fun k => script feeds k actions

end Duplex.Rehearsal
