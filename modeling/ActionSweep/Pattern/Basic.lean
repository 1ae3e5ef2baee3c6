import ActionSweep.Pattern.Glob
import ActionSweep.Text.Blank

/-
File patterns in the manner of ignore files. A pattern without a slash before its end matches at any
level; one that ends in a slash matches what is inside a folder; one that starts with an exclamation
mark takes back. Of the patterns that match a path the last one decides.
-/

namespace ActionSweep

/-- What a pattern looks for in a path. -/
inductive Target
  /-- Any character that is no line end. -/
  | anything
  /-- A path with a slash in it. -/
  | anyFolder
  /-- A path that some pieces match from its beginning. -/
  | path (pieces : List Piece)
deriving Repr, DecidableEq

/-- A pattern: what it looks for, and whether a match takes the path in or back out. -/
structure Pattern where
  includes : Bool
  target : Target
deriving Repr, DecidableEq

namespace Pattern

/-- Two stars: any number of parts. -/
def anyParts : Text := ['*', '*']

/-- Without white space at the end, unless the last blank is escaped. -/
def trimLine (line : Text) : Text :=
  if (['\\', ' '] : Text).isSuffixOf line then line else line.trimRight isBlank

/-- The parts of a pattern as they are matched from the beginning of a path: a leading slash is
dropped, and a single part gets two stars before it. -/
def anchoredParts : List Text → List Text
  | [] :: parts => parts
  | [p] => if p = anyParts then [p] else [anyParts, p]
  | [p, []] => if p = anyParts then [p, []] else [anyParts, p, []]
  | parts => parts

/-- An empty last part stands for everything inside. -/
def openEnd : List Text → List Text
  | [] => []
  | [p] => [if p.isEmpty then anyParts else p]
  | p :: q :: parts => p :: openEnd (q :: parts)

/-- Repeated double stars as one. -/
def collapse : List Text → List Text
  | [] => []
  | [p] => [p]
  | p :: q :: parts =>
    if p = anyParts && q = anyParts then collapse (q :: parts) else p :: collapse (q :: parts)

/-- The pieces of the parts of a pattern. `slash` says whether a slash stands before the next part. -/
def partPieces (line : Text) (first slash : Bool) :
    List Text → Except PatternFault (Option (List Piece))
  | [] => .ok (some [])
  | part :: parts =>
    let last := parts.isEmpty
    if part = anyParts then
      if first then (partPieces line false false parts).map (Option.map (.leadingFolders :: ·))
      else if last then .ok (some [.slash])
      else (partPieces line false true parts).map (Option.map (.innerFolders :: ·))
    else
      let before : List Piece := if slash then [.slash] else []
      let inside := if part = ['*'] then .ok (some [Piece.anyPart])
        else Glob.pieces line (part.length + 1) part
      match inside with
      | .error e => .error e
      | .ok none => .ok none
      | .ok (some ps) =>
        if last then .ok (some (before ++ ps ++ [.partEnd]))
        else (partPieces line false true parts).map (Option.map fun rest => before ++ ps ++ rest)

/-- What the body of a pattern looks for; none if it matches nothing. -/
def targetOf (line body : Text) : Except PatternFault (Option Target) :=
  let folder := ['/'].isSuffixOf body
  match anchoredParts (body.split '/') with
  | [] => .error (.invalid line)
  | parts =>
    let parts := collapse (openEnd parts)
    if parts = [anyParts] then .ok (some (if folder then .anyFolder else .anything))
    else if parts = [anyParts, ['*']] then .ok (some .anything)
    else if parts = [anyParts, ['*'], anyParts] then .ok (some .anyFolder)
    else do
      match ← partPieces line true false parts with
      | none => return none
      | some ps => return some (.path (← Glob.checked ps))

/-- The pattern of a line; none for blank lines, comments, and lines that match nothing. -/
def ofLine (line : Text) : Except PatternFault (Option Pattern) :=
  let body := trimLine line
  if body.isEmpty || ['#'].isPrefixOf body || body = ['/'] then .ok none
  else match body with
    | '!' :: rest => (targetOf line rest).map (Option.map (⟨false, ·⟩))
    | _ => (targetOf line body).map (Option.map (⟨true, ·⟩))

/-- Whether a pattern matches a path. -/
def isMatch (p : Pattern) (path : Text) : Bool :=
  match p.target with
  | .anything => path.any (· ≠ '\n')
  | .anyFolder => path.contains '/'
  | .path pieces => Piece.matchAll pieces path

end Pattern

/-- Patterns in the order of their lines. -/
structure PatternSet where
  patterns : List Pattern
deriving Repr, DecidableEq

namespace PatternSet

/-- A path as patterns see it: without one slash, or one `./`, at its beginning. -/
def relative : Text → Text
  | '/' :: cs => cs
  | '.' :: '/' :: cs => cs
  | cs => cs

/-- Whether the last pattern that matches a path takes it in. -/
def contains (s : PatternSet) (path : Text) : Bool :=
  let path := relative path
  s.patterns.foldl (fun found p => if p.isMatch path then p.includes else found) false

end PatternSet

end ActionSweep
