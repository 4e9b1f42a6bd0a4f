/-
Duplex/Main.lean

The server program on the command line.

It reads its flags, loads its settings, and says what it serves: the address,
the log directives, and every application with the paths under it.

This is the outer layer: it reads files and variables and prints; what they
mean is decided in `Duplex.CommandLine` and `Duplex.Settings.Layers`.
-/
import Duplex.CommandLine
import Duplex.Server.Mount
import Duplex.Server.Route
import Duplex.Settings.Layers

namespace Duplex.CommandLine

/-- How the program is called. -/
def usage : String :=
  "Virtual socket server with HTTP fallback transports\n\n" ++
  "Usage: sockjs [OPTIONS]\n\n" ++
  "Options:\n" ++
  "      --config <CONFIG>  Settings file (defaults to ~/.sockjs/settings.json)\n" ++
  "      --host <HOST>      Host to bind (overrides settings)\n" ++
  "      --port <PORT>      Port to bind, 0 for auto-assign (overrides settings)\n" ++
  "      --pretty           Human-readable logs instead of JSON lines\n" ++
  "  -h, --help             Print help"

/-- The settings file as it is found. -/
def readDocument (path : String) : IO Document := do
  try
    return .content (← IO.FS.readBinFile path).toList
  catch
    | .noFileOrDirectory .. => return .absent
    | _ => return .unreadable

/-- The variables as they are set. -/
def readEnvironment : IO Settings.Environment := do
  let mut found : List (String × String) := []
  for name in Settings.variableNames do
    if let some value ← IO.getEnv name then
      found := (name, value) :: found
  let values := found
  return fun name => values.lookup name

/-- What the program serves, in lines. -/
def summary (c : CommandLine) (s : Settings) : List String :=
  let telemetry := telemetry s.logging c.pretty
  let mounts := Mounts.demo s.options
  ["address: " ++ (c.binding s).address,
   "log: " ++ telemetry.format.name ++ ", " ++ telemetry.directives] ++
    mounts.flatMap fun m =>
      m.routes.map fun r =>
        "route: " ++ String.intercalate "," r.resource.methods ++ " " ++
          String.ofList r.path

end Duplex.CommandLine

open Duplex Duplex.CommandLine

/-- Runs the program. -/
def main (args : List String) : IO UInt32 := do
  match CommandLine.parse args with
  | .error .help =>
    IO.println usage
    return 0
  | .error .usage =>
    IO.eprintln usage
    return 2
  | .ok c =>
    let path ← match c.config with
      | some path => pure path
      | none => pure (Settings.path (← IO.getEnv "HOME"))
    match Settings.load (← readDocument path) (← readEnvironment) with
    | .error e =>
      IO.eprintln ("Failed to load settings from " ++ path ++ ": " ++ e.message)
      return 1
    | .ok s =>
      for line in summary c s do
        IO.println line
      return 0
