namespace Intcode

inductive Path.Anchor where
  | workingDirectory
  | root
  | doubleRoot
  deriving DecidableEq, Repr

@[ext]
structure Path where
  anchor : Path.Anchor
  parts : List String
  deriving DecidableEq, Repr

namespace Path

def Anchor.text : Anchor → String
  | workingDirectory => ""
  | root => "/"
  | doubleRoot => "//"

-- Three slashes or more are as good as one.
def Anchor.ofSlashes : Nat → Anchor
  | 0 => workingDirectory
  | 2 => doubleRoot
  | _ => root

def ofSpelling (s : String) : Path :=
  ⟨.ofSlashes (s.toList.takeWhile (· = '/')).length,
    (s.splitOn "/").map fun part => if part = "" then "." else part⟩

def normal (p : Path) : Path :=
  { p with parts := p.parts.filter (· ≠ ".") }

def ofString (s : String) : Path :=
  (ofSpelling s).normal

def text (p : Path) : String :=
  if p.anchor = .workingDirectory ∧ p.parts = [] then "."
  else p.anchor.text ++ "/".intercalate p.parts

def parent (p : Path) : Path :=
  { p with parts := p.parts.dropLast }

def name (p : Path) : String :=
  p.parts.getLastD ""

def splitAtPoint (cs : List Char) : List Char × List Char :=
  let after := (cs.reverse.takeWhile (· ≠ '.')).reverse
  (cs.take (cs.length - after.length - 1), after)

-- The last part without its suffix. A suffix follows a point, and neither it nor what stands before
-- the point is empty.
def stem (p : Path) : String :=
  let cs := p.name.toList
  let (before, after) := splitAtPoint cs
  if cs.contains '.' ∧ before ≠ [] ∧ after ≠ [] then String.ofList before else p.name

end Path
end Intcode
