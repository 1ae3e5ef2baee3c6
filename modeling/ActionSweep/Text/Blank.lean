import ActionSweep.Text.Basic

/-
White space: the class of blank characters, trimming and splitting by it.
-/

namespace ActionSweep

/-- The code points of the white space characters, as closed ranges. -/
def blankRanges : List (Nat × Nat) :=
  [(0x09, 0x0d), (0x1c, 0x20), (0x85, 0x85), (0xa0, 0xa0), (0x1680, 0x1680), (0x2000, 0x200a),
   (0x2028, 0x2029), (0x202f, 0x202f), (0x205f, 0x205f), (0x3000, 0x3000)]

/-- White space of every script: the ASCII blanks and separators, the no-break and the wide spaces. -/
def isBlank (c : Char) : Bool :=
  blankRanges.any fun r => r.1 ≤ c.toNat && c.toNat ≤ r.2

namespace Text

/-- Whether a text has nothing but white space. -/
def allBlank (t : Text) : Bool := t.all isBlank

/-- Without white space at either end. -/
def trimBlank (t : Text) : Text := t.trim isBlank

/-- The runs of other characters than white space; `word` holds the characters of the run that is being
read, last first. -/
def wordsFrom (word : Text) : Text → List Text
  | [] => if word.isEmpty then [] else [word.reverse]
  | c :: cs =>
    if isBlank c then
      if word.isEmpty then wordsFrom [] cs else word.reverse :: wordsFrom [] cs
    else wordsFrom (c :: word) cs

/-- The maximal runs of other characters than white space. -/
def words (t : Text) : List Text := wordsFrom [] t

end Text

end ActionSweep
