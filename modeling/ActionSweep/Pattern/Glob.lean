import ActionSweep.Text.Quoted

/-
What a file pattern is made of: pieces that match one stretch of a path each. A list of pieces
matches a path when its beginning can be cut into stretches that the pieces match, in order.
-/

namespace ActionSweep

/-- What a class of characters lists: one character, or all from one to another. -/
inductive ClassItem
  | single (c : Char)
  | range (low high : Char)
deriving Repr, DecidableEq

/-- A piece of a pattern. -/
inductive Piece
  /-- Any folders at the beginning of the path, or none. -/
  | leadingFolders
  /-- Any folders with the slash before them, or none. -/
  | innerFolders
  | slash
  /-- A part of a path with at least one character. -/
  | anyPart
  | literal (c : Char)
  /-- Any characters inside a part. -/
  | star
  /-- One character inside a part. -/
  | one
  /-- A character of a class, or one outside it. -/
  | oneOf (negated : Bool) (items : List ClassItem)
  /-- The end of a part: a slash, the end of the path, or a line end that ends it. -/
  | partEnd
deriving Repr, DecidableEq

namespace ClassItem

def holds (item : ClassItem) (c : Char) : Bool :=
  match item with
  | single d => c = d
  | range low high => low ≤ c && c ≤ high

/-- A character as regular expressions spell it in a class. -/
def spelled (c : Char) : Text := if c = '\\' then ['\\', '\\'] else [c]

def spelling : ClassItem → Text
  | single c => spelled c
  | range low high => spelled low ++ '-' :: spelled high

end ClassItem

namespace Piece

/-- Whether a continuation accepts what follows some slash of a text, before any line end. -/
def afterSlash (k : Text → Bool) : Text → Bool
  | [] => false
  | c :: cs => (c = '/' && k cs) || (c ≠ '\n' && afterSlash k cs)

/-- Whether a continuation accepts the text or what is left of it behind some characters of a class. -/
def afterRun (p : Char → Bool) (k : Text → Bool) : Text → Bool
  | [] => k []
  | c :: cs => k (c :: cs) || (p c && afterRun p k cs)

/-- Whether a piece can match some beginning of a text such that a continuation accepts the rest. -/
def accepts (piece : Piece) (k : Text → Bool) (t : Text) : Bool :=
  match piece with
  | leadingFolders => k t || match t with
    | c :: cs => c ≠ '\n' && afterSlash k cs
    | [] => false
  | innerFolders => k t || match t with
    | '/' :: c :: cs => c ≠ '\n' && afterRun (· ≠ '\n') k cs
    | _ => false
  | slash => match t with
    | '/' :: cs => k cs
    | _ => false
  | anyPart => match t with
    | c :: cs => c ≠ '/' && afterRun (· ≠ '/') k cs
    | [] => false
  | literal l => match t with
    | c :: cs => c = l && k cs
    | [] => false
  | star => afterRun (· ≠ '/') k t
  | one => match t with
    | c :: cs => c ≠ '/' && k cs
    | [] => false
  | oneOf negated items => match t with
    | c :: cs => (items.any (·.holds c) != negated) && k cs
    | [] => false
  | partEnd => match t with
    | [] => k []
    | ['\n'] => k t
    | '/' :: cs => k cs
    | _ => false

/-- Whether the pieces match a beginning of a text. -/
def matchAll : List Piece → Text → Bool
  | [], _ => true
  | p :: ps, t => p.accepts (matchAll ps) t

/-- The characters with a meaning in regular expressions. -/
def specialChars : Text := "()[]\x7b\x7d?*+-|^$\\.&~# \t\n\r\x0b\x0c"

/-- The regular expression of a piece. -/
def spelling : Piece → Text
  | leadingFolders => "(?:.+/)?"
  | innerFolders => "(?:/.+)?"
  | slash => "/"
  | anyPart => "[^/]+"
  | literal c => if specialChars.contains c then ['\\', c] else [c]
  | star => "[^/]*"
  | one => "[^/]"
  | oneOf negated items =>
    (if negated then ['[', '^'] else ['[']) ++ items.flatMap ClassItem.spelling ++ [']']
  | partEnd => "(?:/|$)"

end Piece

/-- Why a pattern is refused. -/
inductive PatternFault
  /-- Nothing is left to match, or an escape has nothing behind it. -/
  | invalid (line : Text)
  /-- A class with a range whose ends are in the wrong order, at a place in the regular expression of
  the pattern. -/
  | badRange (low high : Char) (position : Nat) (expression : Text)
deriving Repr, DecidableEq

namespace PatternFault

/-- The line and the column of a place in a text of several lines. -/
def lineAndColumn (position : Nat) (t : Text) : Text :=
  let before := t.take position
  " (line " ++ Text.ofNat (before.count '\n' + 1) ++ ", column " ++
    Text.ofNat ((before.reverse.takeWhile (· ≠ '\n')).length + 1) ++ ")"

def message : PatternFault → Text
  | invalid line => "Invalid git pattern: " ++ line.quoted
  | badRange low high position expression =>
    "bad character range " ++ (ClassItem.range low high).spelling ++ " at position " ++
      Text.ofNat position ++
      (if expression.contains '\n' then lineAndColumn position expression else [])

end PatternFault

namespace Glob

/-- The inside of a class up to its closing bracket, and what follows; a closing bracket that comes
first belongs to the inside. -/
def classBody? (t : Text) : Option (Text × Text) :=
  let (first, rest) := match t with
    | ']' :: cs => ([']'], cs)
    | cs => ([], cs)
  match rest.dropWhile (· ≠ ']') with
  | [] => none
  | _ :: after => some (first ++ rest.takeWhile (· ≠ ']'), after)

/-- What the inside of a class lists. -/
def classItems : Text → List ClassItem
  | [] => []
  | [c] => [.single c]
  | [c, '-'] => [.single c, .single '-']
  | c :: '-' :: d :: cs => .range c d :: classItems cs
  | c :: d :: cs => .single c :: classItems (d :: cs)

/-- Puts a piece before the pieces of what follows, if that has any. -/
def prepend (p : Piece) (found : Except PatternFault (Option (List Piece))) :
    Except PatternFault (Option (List Piece)) :=
  found.map (Option.map (p :: ·))

/-- The pieces of one part of a pattern; none if a class is not closed. The part is read in at most
`n` steps. -/
def pieces (line : Text) : Nat → Text → Except PatternFault (Option (List Piece))
  | 0, _ => .ok (some [])
  | _ + 1, [] => .ok (some [])
  | _ + 1, ['\\'] => .error (.invalid line)
  | n + 1, '\\' :: c :: cs => prepend (.literal c) (pieces line n cs)
  | n + 1, '*' :: cs => prepend .star (pieces line n cs)
  | n + 1, '?' :: cs => prepend .one (pieces line n cs)
  | n + 1, '[' :: cs =>
    let (negated, body) := match cs with
      | '!' :: ds => (true, ds)
      | '^' :: ds => (true, ds)
      | ds => (false, ds)
    match classBody? body with
    | none => .ok none
    | some (inside, after) => prepend (.oneOf negated (classItems inside)) (pieces line n after)
  | n + 1, c :: cs => prepend (.literal c) (pieces line n cs)

/-- The regular expression of a list of pieces, which match from the beginning. -/
def expression (pieces : List Piece) : Text := '^' :: pieces.flatMap Piece.spelling

/-- The first range of a class with its ends in the wrong order, and how far behind the beginning of
the items it stands. -/
def reversedItem? (offset : Nat) : List ClassItem → Option (Char × Char × Nat)
  | [] => none
  | .range low high :: items =>
    if high < low then some (low, high, offset)
    else reversedItem? (offset + (ClassItem.range low high).spelling.length) items
  | .single c :: items => reversedItem? (offset + (ClassItem.spelled c).length) items

/-- The first range of some pieces with its ends in the wrong order, and its place. -/
def reversedRange? (offset : Nat) : List Piece → Option (Char × Char × Nat)
  | [] => none
  | .oneOf negated items :: ps =>
    match reversedItem? (offset + if negated then 2 else 1) items with
    | some found => some found
    | none => reversedRange? (offset + (Piece.oneOf negated items).spelling.length) ps
  | p :: ps => reversedRange? (offset + p.spelling.length) ps

/-- Refuses pieces with a range whose ends are in the wrong order. -/
def checked (pieces : List Piece) : Except PatternFault (List Piece) :=
  match reversedRange? 1 pieces with
  | some (low, high, position) => .error (.badRange low high position (expression pieces))
  | none => .ok pieces

end Glob

end ActionSweep
