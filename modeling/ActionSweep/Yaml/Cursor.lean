import ActionSweep.Text.Basic

/-
Places in a YAML text. Line ends have been unified before, so a carriage return is an ordinary
character here; three rarer characters end a line too.
-/

namespace ActionSweep.Yaml

/-- Characters that end a line. -/
def isBreak (c : Char) : Bool := c = '\n' || c = '\x85' || c = '\u2028' || c = '\u2029'

/-- What a line end adds to a text: the two rarest are kept, the others are line feeds. -/
def breakChar (c : Char) : Char := if c = '\u2028' || c = '\u2029' then c else '\n'

/-- Blanks inside a line. -/
def isInner (c : Char) : Bool := c = ' ' || c = '\t'

/-- Whether a text begins with what ends a word: nothing at all, a blank or a line end. -/
def atGap : Text → Bool
  | [] => true
  | c :: _ => isInner c || isBreak c

/-- Whether a text begins with a blank, a line end or nothing. A tab does not count. -/
def atEnd : Text → Bool
  | [] => true
  | c :: _ => c = ' ' || isBreak c

/-- Whether a line begins with a given mark between documents. -/
def atMark (mark t : Text) : Bool := mark.isPrefixOf t && atGap (t.drop mark.length)

/-- The marks at the beginning and at the end of a document. -/
def startMark : Text := ['-', '-', '-']

def endMark : Text := ['.', '.', '.']

/-- Whether a line begins with a mark between documents. -/
def atAnyMark (t : Text) : Bool := atMark startMark t || atMark endMark t

/-- A place: the rest of the text, and the characters, lines and columns before it. -/
structure Cursor where
  rest : Text
  index : Nat
  line : Nat
  column : Nat

namespace Cursor

def start (t : Text) : Cursor := ⟨t, 0, 0, 0⟩

/-- The place one character on. A byte order mark takes no column. -/
def next (at_ : Cursor) : Cursor :=
  match at_.rest with
  | [] => at_
  | c :: rest =>
    if isBreak c then ⟨rest, at_.index + 1, at_.line + 1, 0⟩
    else ⟨rest, at_.index + 1, at_.line, at_.column + if c = '\uFEFF' then 0 else 1⟩

def skip : Nat → Cursor → Cursor
  | 0, at_ => at_
  | n + 1, at_ => skip n at_.next

/-- The place at which a given end of the text begins. -/
def goTo (at_ : Cursor) (rest : Text) : Cursor := at_.skip (at_.rest.length - rest.length)

end Cursor

end ActionSweep.Yaml
