import ActionSweep.Text.Basic

/-
Text for a terminal: colors and bold letters, and the same text without them.
-/

namespace ActionSweep

inductive Color
  | red
  | green
  | yellow
  | blue
  | cyan
  | brightBlack
deriving Repr, DecidableEq

/-- The number of a color in an instruction to the terminal. -/
def Color.code : Color → Nat
  | red => 31
  | green => 32
  | yellow => 33
  | blue => 34
  | cyan => 36
  | brightBlack => 90

/-- What a text looks like. -/
structure Style where
  color : Option Color
  bold : Bool
deriving Repr, DecidableEq

namespace Style

def bright : Style := ⟨none, true⟩

def of (c : Color) : Style := ⟨some c, false⟩

def boldOf (c : Color) : Style := ⟨some c, true⟩

/-- An instruction to the terminal. -/
def instruction (n : Nat) : Text := '\x1b' :: '[' :: Text.ofNat n ++ ['m']

/-- A text in a style; the style ends with the text. -/
def apply (s : Style) (t : Text) : Text :=
  (match s.color with
    | some c => instruction c.code
    | none => []) ++
    (if s.bold then instruction 1 else []) ++ t ++ instruction 0

end Style

namespace Text

/-- Whether a character is between two others in the order of code points. -/
def isBetween (low high c : Char) : Bool := low ≤ c && c ≤ high

/-- The number of characters of the instruction to a terminal at the beginning of a text, zero if
there is none: an escape, a bracket, digits and marks, marks between them and the end, and a letter or
a sign that ends the instruction. -/
def instructionLength : Text → Nat
  | '\x1b' :: '[' :: t =>
    let numbers := t.takeWhile (isBetween '0' '?')
    let marks := (t.drop numbers.length).takeWhile (isBetween ' ' '/')
    match t.drop (numbers.length + marks.length) with
    | c :: _ => if isBetween '@' '~' c then numbers.length + marks.length + 3 else 0
    | [] => 0
  | _ => 0

/-- Drops instructions to the terminal; the first `skip` characters belong to one. -/
def unstyledFrom (skip : Nat) : Text → Text
  | [] => []
  | c :: cs =>
    match skip with
    | k + 1 => unstyledFrom k cs
    | 0 =>
      match instructionLength (c :: cs) with
      | 0 => c :: unstyledFrom 0 cs
      | n + 1 => unstyledFrom n cs

/-- A text without instructions to the terminal. -/
def unstyled (t : Text) : Text := unstyledFrom 0 t

end Text

end ActionSweep
