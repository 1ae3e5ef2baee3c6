/-
Text as a list of characters: cutting, joining, trimming and writing numbers. Every other module
works on `Text`, so a statement about a path, a key or a page is a statement about a list.
-/

namespace ActionSweep

/-- A text is the list of its characters. -/
abbrev Text := List Char

/-- A string literal stands for the list of its characters. -/
instance : Coe String Text := ⟨String.toList⟩

namespace Text

/-- The pieces between the occurrences of a separator: always one more than there are separators. -/
def split (sep : Char) : Text → List Text
  | [] => [[]]
  | c :: cs =>
    if c = sep then [] :: split sep cs
    else match split sep cs with
      | [] => [[c]]
      | piece :: pieces => (c :: piece) :: pieces

/-- The text before the first occurrence of a separator, and the text after it. -/
def cut (sep : Char) (t : Text) : Text × Text :=
  (t.takeWhile (· ≠ sep), (t.dropWhile (· ≠ sep)).drop 1)

/-- The pieces, with a separator between each two. -/
def join (sep : Text) : List Text → Text
  | [] => []
  | [piece] => piece
  | piece :: pieces => piece ++ sep ++ join sep pieces

/-- Without the characters of a class at the end. -/
def trimRight (p : Char → Bool) (t : Text) : Text := (t.reverse.dropWhile p).reverse

/-- Without the characters of a class at either end. -/
def trim (p : Char → Bool) (t : Text) : Text := trimRight p (t.dropWhile p)

/-- What precedes a given ending, if the text has it. -/
def dropEnding? (ending t : Text) : Option Text := ending.isSuffixOf? t

/-- What follows a given beginning, if the text has it. -/
def dropBeginning? (beginning t : Text) : Option Text := beginning.isPrefixOf? t

/-- Whether one text occurs inside another. -/
def occursIn (part : Text) : Text → Bool
  | [] => part.isEmpty
  | c :: cs => part.isPrefixOf (c :: cs) || occursIn part cs

/-- An ASCII capital becomes the small letter, and so does the sign of the unit of temperature that
looks like one; every other character stays. -/
def lowerChar (c : Char) : Char :=
  if 'A' ≤ c ∧ c ≤ 'Z' then Char.ofNat (c.toNat + 32)
  else if c = '\u212a' then 'k' else c

def lower (t : Text) : Text := t.map lowerChar

/-- The decimal numeral of a natural number. -/
def ofNat (n : Nat) : Text := Nat.toDigits 10 n

/-- The decimal numeral of an integer, with a minus sign if it is negative. -/
def ofInt : Int → Text
  | .ofNat n => ofNat n
  | .negSucc n => '-' :: ofNat (n + 1)

/-- Blanks before the text, up to a width. -/
def padLeft (width : Nat) (t : Text) : Text := List.replicate (width - t.length) ' ' ++ t

/-- Texts are ordered character by character, by code point. -/
def le (a b : Text) : Bool := !(b < a)

/-- Puts a text before the first one that is not smaller. -/
def insertSorted (t : Text) : List Text → List Text
  | [] => [t]
  | u :: us => if le t u then t :: u :: us else u :: insertSorted t us

/-- In the order of their characters; equal texts keep their places. -/
def sort (ts : List Text) : List Text := ts.foldr insertSorted []

end Text

end ActionSweep
