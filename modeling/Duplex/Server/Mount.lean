/-
Duplex/Server/Mount.lean

Mounts: applications at the paths where they are installed.

A path is written with one slash in front and none at its end, and the empty
path is the root; so every spelling of a path has one form. An application
installed where there is one already takes its place in the order.

Main definitions: `Mount`, `Mount.normalize`, `Mounts.install`, and
`Mounts.demo`, the demonstration applications of the server program.
-/
import Duplex.Options
import Duplex.Program

namespace Duplex

/-- An application at a path. -/
structure Mount where
  path : String
  options : Options
  onOpen : Application

namespace Mount

/-- The form of a path given as a list of characters. -/
def normalizeChars (cs : List Char) : List Char :=
  match Text.dropEndWhile (· == '/') (cs.dropWhile (· == '/')) with
  | [] => []
  | cs => '/' :: cs

/-- The form of a path. -/
def normalize (path : String) : String := String.ofList (normalizeChars path.toList)

end Mount

/-- Applications in the order in which their paths were first used. -/
abbrev Mounts := List Mount

namespace Mounts

/-- Puts a mount where there is one of the same path, or at the end. -/
def put (m : Mount) : Mounts → Mounts
  | [] => [m]
  | m' :: ms => if m'.path = m.path then m :: ms else m' :: put m ms

/-- Installs an application. -/
def install (ms : Mounts) (path : String) (options : Options) (onOpen : Application) : Mounts :=
  put ⟨Mount.normalize path, options, onOpen⟩ ms

/-- The paths in order. -/
def paths (ms : Mounts) : List String := ms.map (·.path)

/-- The demonstration applications, with `base` for what they do not set themselves. Three of them
echo and one closes every session; one sets the session cookie, and one goes without message
sockets, so that a client can be tried on every combination. -/
def demo (base : Options) : Mounts :=
  let plain := { base with insertCookie := false }
  let echo (ms : Mounts) (path : String) (o : Options) : Mounts := install ms path o .echo
  let ms := echo [] "/echo" plain
  let ms := echo ms "/disabled_websocket_echo" { plain with websocketEnabled := false }
  let ms := echo ms "/cookie_needed_echo" { base with insertCookie := true }
  install ms "/close" plain .goodbye

end Mounts

example : Mount.normalize "//a/b//" = "/a/b" := by decide

end Duplex
