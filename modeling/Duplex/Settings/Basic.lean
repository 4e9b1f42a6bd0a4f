/-
Duplex/Settings/Basic.lean

Settings of the server program.

They have three sections: where to listen, what to ask of sessions, and what
to log. Each section is read from an object or an array, and what is not given
keeps its default.

Main definitions: `Settings`, `Settings.read?`, `Settings.json`.
-/
import Duplex.Net.Endpoint
import Duplex.Options

namespace Duplex

/-- What to log. -/
structure Logging where
  /-- The level, by name or number. -/
  level : String := "info"
  /-- Lines of JSON instead of lines for people. -/
  asJson : Bool := true
  deriving DecidableEq, Repr

namespace Logging

/-- The parts of the section, in order. -/
def fields : List (Field Logging) :=
  [.of "level" Tree.str? fun s l => { l with level := s },
   .of "json" Tree.flag? fun b l => { l with asJson := b }]

/-- The section as a value. -/
def json (l : Logging) : Json := .object [("level", .text l.level), ("json", .bool l.asJson)]

end Logging

/-- Where the server program listens when nothing else is said. -/
def defaultBinding : Binding := { port := 8080 }

/-- Settings of the server program. -/
structure Settings where
  server : Binding := defaultBinding
  options : Options := {}
  logging : Logging := {}
  deriving DecidableEq, Repr

namespace Settings

/-- The sections, in order. -/
def fields : List (Field Settings) :=
  [.of "server" (Record.ofTree? Binding.fields defaultBinding) fun b s => { s with server := b },
   .of "sockjs" Options.ofTree? fun o s => { s with options := o },
   .of "logging" (Record.ofTree? Logging.fields {}) fun l s => { s with logging := l }]

/-- The settings that a tree holds. -/
def ofTree? (t : Tree) : Option Settings := Record.ofTree? fields {} t

/-- The settings that a text holds. -/
def read? (s : String) : Option Settings := Record.read? fields {} s

/-- The settings as a value. -/
def json (s : Settings) : Json :=
  .object [("server", s.server.json), ("sockjs", s.options.json), ("logging", s.logging.json)]

end Settings

end Duplex
