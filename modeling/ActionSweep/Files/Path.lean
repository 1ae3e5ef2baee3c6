import ActionSweep.Text.Basic

/-
Paths as text: an anchor and the parts between slashes. Repeated slashes and parts that are a single
dot carry no meaning; two dots do, since what they name depends on the links before them.
-/

namespace ActionSweep

/-- Where a path starts. Two leading slashes are kept apart from one; more count as one. -/
inductive Anchor
  | here
  | root
  | doubleRoot
deriving Repr, DecidableEq

/-- A path in normal form. -/
structure Path where
  anchor : Anchor
  parts : List Text
deriving Repr, DecidableEq

def Anchor.text : Anchor → Text
  | here => ""
  | root => "/"
  | doubleRoot => "//"

namespace Path

/-- The parts of a text that carry meaning. -/
def partsOf (t : Text) : List Text := (t.split '/').filter fun p => !(p.isEmpty || p = ['.'])

/-- The anchor of a text. -/
def anchorOf : Text → Anchor
  | '/' :: '/' :: '/' :: _ => .root
  | '/' :: '/' :: _ => .doubleRoot
  | '/' :: _ => .root
  | _ => .here

def ofText (t : Text) : Path := ⟨anchorOf t, partsOf t⟩

/-- The path as text; the path without anchor and parts is a single dot. -/
def text (p : Path) : Text :=
  match p.anchor, p.parts with
  | .here, [] => "."
  | a, ps => a.text ++ Text.join "/" ps

/-- A path below another one; a path with an anchor replaces what stands before it. -/
def join (p q : Path) : Path :=
  if q.anchor = .here then ⟨p.anchor, p.parts ++ q.parts⟩ else q

/-- A path below another one, given as text. -/
def under (p : Path) (t : Text) : Path := p.join (ofText t)

/-- The path of what has a name in the folder at a path. -/
def inside (p : Path) (name : Text) : Path := ⟨p.anchor, p.parts ++ [name]⟩

def isAbsolute (p : Path) : Bool := p.anchor ≠ .here

/-- Without the last part. -/
def parent (p : Path) : Path := ⟨p.anchor, p.parts.dropLast⟩

/-- The last part. -/
def name? (p : Path) : Option Text := p.parts.getLast?

/-- What a path has beyond a path it starts with. -/
def relativeTo? (base p : Path) : Option Path :=
  if p.anchor = base.anchor then (base.parts.isPrefixOf? p.parts).map (⟨.here, ·⟩) else none

/-- A file name without its extension. A dot at either end of the name starts no extension. -/
def stem (name : Text) : Text :=
  match (name.reverse.dropWhile (· ≠ '.')) with
  | [] => name
  | _ :: before =>
    if before.isEmpty || (name.reverse.takeWhile (· ≠ '.')).isEmpty then name else before.reverse

/-- The path with another extension in its last part, if it has a last part. -/
def withExtension? (p : Path) (extension : Text) : Option Path :=
  p.name?.map fun n => ⟨p.anchor, p.parts.dropLast ++ [stem n ++ extension]⟩

end Path

end ActionSweep
