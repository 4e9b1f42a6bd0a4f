/-
Duplex/Http/Target.lean

Request targets: what a request asks for.

A target is mostly a path with an optional query. It may also say by which
scheme and from which authority; or it is an authority alone, or an asterisk.
A fragment may stand at the end, but is no part of the target. The path and
the query are kept as they are written, with their escapes.

A target has one text: behind a scheme the empty path is a slash, and the two
schemes of the web are written in lower case.

Main definitions: `Target`, `Target.read?`, `Target.text`.
-/
import Duplex.Text.Blank

namespace Duplex

open Text

/-- A request target. -/
structure Target where
  scheme : Option (List Char) := none
  authority : List Char := []
  path : List Char := []
  query : Option (List Char) := none
  deriving DecidableEq, Repr

namespace Target

/-- The path that is a slash. -/
def root : Target := { path := ['/'] }

/-- The text of a target. -/
def text (t : Target) : List Char :=
  (t.scheme.elim [] (· ++ "://".toList)) ++ t.authority ++ t.path ++ t.query.elim [] ('?' :: ·)

/-! ### Reading -/

/-- A character that may stand in a path as it is. -/
def isPathChar (c : Char) : Bool :=
  '\x7f' ≤ c || ('!' ≤ c && c ≠ '#' && c ≠ '<' && c ≠ '>' && c ≠ '?' && c ≠ '\x60')

/-- A character that may stand in a query as it is. -/
def isQueryChar (c : Char) : Bool :=
  '\x7f' ≤ c || ('!' ≤ c && c ≠ '"' && c ≠ '#' && c ≠ '<' && c ≠ '>')

/-- A character of a scheme. -/
def isSchemeChar (c : Char) : Bool :=
  c.isAlphanum || c == '+' || c == '-' || c == '.' || c == '~'

/-- A scheme as it is written in the text of a target. -/
def schemeText (scheme : List Char) : List Char :=
  let lower := scheme.map Char.toLower
  if lower = "http".toList || lower = "https".toList then lower else scheme

/-- The scheme in front of a text, and what follows it. -/
def scheme? (cs : List Char) : Option (List Char × List Char) :=
  match cs.dropWhile isSchemeChar with
  | ':' :: '/' :: '/' :: rest => some (schemeText (cs.takeWhile isSchemeChar), rest)
  | _ => none

/-- The character ends an authority. -/
def endsAuthority (c : Char) : Bool := c == '/' || c == '?' || c == '#'

/-- The target with path and query as they are written, if they may be written so. -/
def along? (t : Target) (cs : List Char) : Option Target :=
  let cs := cs.takeWhile (· != '#')
  let path := cs.takeWhile (· != '?')
  let query := (cut (· == '?') cs).map (·.2)
  if path.all isPathChar && (query.getD []).all isQueryChar then
    some { t with path := path, query := query }
  else none

/-- The target with that text, if it is one. -/
def read? (cs : List Char) : Option Target :=
  if cs.head? = some '/' || cs = ['*'] then along? {} cs
  else
    match scheme? cs with
    | some (scheme, rest) =>
      let authority := rest.takeWhile (!endsAuthority ·)
      let rest := rest.dropWhile (!endsAuthority ·)
      if authority.isEmpty then none
      else
        along? { scheme := some scheme, authority := authority }
          (if rest.head? = some '/' then rest else '/' :: rest)
    | none =>
      if cs.isEmpty || cs.any endsAuthority then none else some { authority := cs }

end Target

example : (Target.read? "HTTPS://u:p@Ex.COM:8?".toList).map (String.ofList ·.text) =
    some "https://u:p@Ex.COM:8/?" := by decide

example : (Target.read? "/a?b#c".toList).map (String.ofList ·.text) = some "/a?b" := by decide

end Duplex
