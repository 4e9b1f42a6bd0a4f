/-
Duplex/CommandLine.lean

The command line of the server program.

A flag is given once at most. Its value stands after an equals sign or is the
next argument; the next argument is no value when it looks like a flag, that
is, when it begins with a hyphen and has something after it. After two hyphens
alone nothing may follow, since the program takes no other arguments. Asking
for help ends the reading, unless something was wrong before.

Main definitions: `CommandLine`, `CommandLine.parse`, `CommandLine.binding`,
`CommandLine.telemetry`.
-/
import Duplex.Settings.Basic
import Duplex.Telemetry

namespace Duplex

/-- The flags of the server program. -/
structure CommandLine where
  config : Option String := none
  host : Option String := none
  port : Option UInt16 := none
  /-- Lines for people in the log. -/
  pretty : Bool := false
  deriving DecidableEq, Repr

namespace CommandLine

/-- Why the program does not start. -/
inductive Stop where
  | help
  | usage
  deriving DecidableEq, Repr

/-- The exit code of the program that does not start. -/
def Stop.exitCode : Stop → Nat
  | .help => 0
  | .usage => 2

/-- An argument that looks like a flag. -/
def looksLikeFlag (arg : String) : Bool :=
  match arg.toList with
  | '-' :: _ :: _ => true
  | _ => false

/-- A port: a whole number with at most one sign, from 0 to 65535. -/
def port? (text : String) : Option UInt16 :=
  let number :=
    match text.toList with
    | '-' :: cs => Text.Decimal.natural? 0 cs
    | cs => Text.Decimal.unsigned? Text.Decimal.maxWord16 cs
  number.map UInt16.ofNat

/-- Gives a flag its value, unless it has one or the value is wrong. -/
def set (flag value : String) (c : CommandLine) : Except Stop CommandLine :=
  match flag with
  | "config" =>
    if c.config.isSome || value.isEmpty then .error .usage
    else .ok { c with config := some value }
  | "host" => if c.host.isSome then .error .usage else .ok { c with host := some value }
  | "port" =>
    match c.port, port? value with
    | none, some n => .ok { c with port := some n }
    | _, _ => .error .usage
  | _ => .error .usage

/-- The flag that takes a value. -/
def takesValue (flag : String) : Bool := ["config", "host", "port"].contains flag

/-- What a flag without a value does. -/
def switch (flag : String) (c : CommandLine) : Except Stop CommandLine :=
  match flag with
  | "help" => .error .help
  | "pretty" => if c.pretty then .error .usage else .ok { c with pretty := true }
  | _ => .error .usage

/-- Name and value of a flag whose hyphens were taken off. -/
def splitFlag (cs : List Char) : String × Option String :=
  match Text.cut (· == '=') cs with
  | some (name, value) => (String.ofList name, some (String.ofList value))
  | none => (String.ofList cs, none)

/-- Reads the arguments that follow those already read into `c`. -/
def parseOnto (c : CommandLine) : List String → Except Stop CommandLine
  | [] => .ok c
  | arg :: rest =>
    match arg.toList with
    | ['-', '-'] => if rest.isEmpty then .ok c else .error .usage
    | '-' :: '-' :: cs =>
      match splitFlag cs, rest with
      | (name, some value), rest => do
        let c ← c.set name value
        parseOnto c rest
      | (name, none), rest =>
        if takesValue name then
          match rest with
          | value :: rest =>
            if looksLikeFlag value then .error .usage
            else do
              let c ← c.set name value
              parseOnto c rest
          | [] => .error .usage
        else do
          let c ← c.switch name
          parseOnto c rest
    | '-' :: 'h' :: _ => .error .help
    | _ => .error .usage

/-- The flags of a command line. -/
def parse (args : List String) : Except Stop CommandLine := parseOnto {} args

/-- Where to listen: the flags first, then the settings. -/
def binding (c : CommandLine) (s : Settings) : Binding :=
  { host := c.host.getD s.server.host, port := c.port.getD s.server.port }

/-- What is logged; a level that cannot be read is the default one. -/
def telemetry (l : Logging) (pretty : Bool) : Telemetry :=
  { level := (Level.parse? l.level).getD .info
    format := if pretty || !l.asJson then .pretty else .json }

end CommandLine

end Duplex
