/-
Duplex/Telemetry.lean

What is logged, and how.

A level is read from its number or from its name in either case. The directive
text gives the level for everything and then the levels of single modules.

Main definitions: `Level`, `Level.parse?`, `LogFormat`, `Telemetry`,
`Telemetry.directives`.
-/
import Duplex.Json.Record

namespace Duplex

/-- How much is logged. -/
inductive Level where
  | error
  | warn
  | info
  | debug
  | trace
  deriving DecidableEq, Repr

namespace Level

/-- Every level, the quietest first. -/
def all : List Level := [.error, .warn, .info, .debug, .trace]

/-- The name of a level. -/
def name : Level → String
  | .error => "error"
  | .warn => "warn"
  | .info => "info"
  | .debug => "debug"
  | .trace => "trace"

/-- The level of that number, counted from 1. -/
def ofNumber? (n : Nat) : Option Level := if n = 0 then none else all[n - 1]?

/-- The level that a text gives by number or by name. -/
def parse? (text : String) : Option Level :=
  ((Text.Decimal.unsigned? Text.Decimal.maxWord64 text.toList).bind ofNumber?).or
    (all.find? fun l => l.name.toList == text.toList.map Char.toLower)

end Level

/-- How lines are laid out. -/
inductive LogFormat where
  | json
  | pretty
  deriving DecidableEq, Repr

namespace LogFormat

/-- The name of a format. -/
def name : LogFormat → String
  | .json => "json"
  | .pretty => "pretty"

/-- The format of that name. -/
def ofName? (s : String) : Option LogFormat := [json, pretty].find? (·.name == s)

/-- The format that a tree holds: its name, or an object with null under its name. -/
def ofTree? : Tree → Option LogFormat
  | .text gs => (Tree.string? gs).bind ofName?
  | .object [(gs, .null)] => (Tree.string? gs).bind ofName?
  | _ => none

/-- The format that a text holds. -/
def read? (s : String) : Option LogFormat := (Tree.read? s.toList).bind ofTree?

end LogFormat

/-- What is logged, and how. -/
structure Telemetry where
  level : Level := .info
  /-- The levels of single modules. -/
  modules : List (String × Level) := []
  format : LogFormat := .json
  deriving DecidableEq, Repr

/-- The directive text. -/
def Telemetry.directives (t : Telemetry) : String :=
  t.modules.foldl (fun text (module, level) => text ++ "," ++ module ++ "=" ++ level.name)
    t.level.name

end Duplex
