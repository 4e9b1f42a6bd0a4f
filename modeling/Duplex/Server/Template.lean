/-
Duplex/Server/Template.lean

Templates: paths of which some segments are given and others are free.

A segment may end in a parameter, a name between braces, which stands for what
a path has there. A doubled brace stands for itself. So each segment is
either given or a lead with a parameter behind it. A name that begins with an
asterisk would stand for all that is left of a path; of the other parameters
there is a limited number.

Main definitions: `Part`, `Template.read?`, `Template.text`.
-/

namespace Duplex

/-- A segment of a template. -/
inductive Part where
  | given (segment : List Char)
  /-- A lead, and a parameter of that name behind it. -/
  | named (lead name : List Char)
  deriving DecidableEq, Repr

namespace Part

/-- The text of a segment, without escapes. -/
def text : Part → List Char
  | .given segment => segment
  | .named lead name => lead ++ '\x7b' :: (name ++ ['\x7d'])

/-- The segment with its parameter, if it has one, under no name. -/
def shape : Part → Part
  | .given segment => .given segment
  | .named lead _ => .named lead []

/-- The name of the parameter. -/
def name? : Part → Option (List Char)
  | .given _ => none
  | .named _ name => some name

/-- The parameter stands for all that is left. -/
def isGreedy (p : Part) : Bool := (p.name?.bind (·.head?)) == some '*'

end Part

namespace Template

/-- What a template is made of. -/
inductive Sign where
  | plain (c : Char)
  | opening
  | closing
  deriving DecidableEq, Repr

/-- The signs of a text. -/
def signs : List Char → List Sign
  | '\x7b' :: '\x7b' :: cs => .plain '\x7b' :: signs cs
  | '\x7d' :: '\x7d' :: cs => .plain '\x7d' :: signs cs
  | '\x7b' :: cs => .opening :: signs cs
  | '\x7d' :: cs => .closing :: signs cs
  | c :: cs => .plain c :: signs cs
  | [] => []

/-- What is wrong with a template. -/
inductive Flaw where
  /-- A brace without its other, or a name that cannot be one. -/
  | nameless
  /-- A segment goes on behind its parameter. -/
  | crowded
  /-- Something follows what stands for all that is left. -/
  | greedy
  | abundant
  deriving DecidableEq, Repr

/-- The character may be the next one of a name. -/
def mayName (name : List Char) (c : Char) : Bool :=
  if name.isEmpty then c != '\x7d' else c != '*' && c != '/'

/-- The most parameters, those aside that stand for all that is left. -/
def maxParameters : Nat := 25

/-- The segments of a template with room for more parameters, and what was read of the current one:
its lead and, inside braces, the name, both last character first. -/
def partsFrom (room : Nat) (lead : List Char) :
    Option (List Char) → List Sign → Except Flaw (List Part)
  | none, [] => .ok [.given lead.reverse]
  | none, .plain '/' :: signs => (partsFrom room [] none signs).map (.given lead.reverse :: ·)
  | none, .plain c :: signs => partsFrom room (c :: lead) none signs
  | none, .opening :: signs => partsFrom room lead (some []) signs
  | none, .closing :: _ => .error .nameless
  | some _, [] => .error .nameless
  | some name, .plain c :: signs =>
    if mayName name c then partsFrom room lead (some (c :: name)) signs else .error .nameless
  | some name, .opening :: signs => partsFrom room lead (some ('\x7b' :: name)) signs
  | some name, .closing :: signs =>
    if name = [] || name = ['*'] then .error .nameless
    else
      let part := Part.named lead.reverse name.reverse
      let taken := if part.isGreedy then 0 else 1
      match signs with
      | [] => if room < taken then .error .abundant else .ok [part]
      | .plain '/' :: signs =>
        if room < taken then .error .abundant
        else (partsFrom (room - taken) [] none signs).map (part :: ·)
      | _ => .error .crowded

/-- The segments of the template with that text, which follows the first slash. -/
def read? (cs : List Char) : Except Flaw (List Part) :=
  match partsFrom maxParameters [] none (signs cs) with
  | .error flaw => .error flaw
  | .ok parts => if parts.dropLast.any Part.isGreedy then .error .greedy else .ok parts

/-- The text of a template, without escapes. -/
def text (parts : List Part) : List Char := parts.flatMap fun p => '/' :: p.text

end Template

example : Template.read? "a\x7bx\x7d/\x7b\x7bb\x7d\x7d".toList =
    .ok [.named "a".toList "x".toList, .given "\x7bb\x7d".toList] := by rfl

example : Template.read? "\x7bx\x7dy".toList = .error .crowded := by rfl

end Duplex
