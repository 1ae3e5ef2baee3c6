import ActionSweep.Text.Basic

/-
Strings as data files can spell them: code points, and among them halves of UTF-16 pairs, which are no
characters. A string becomes a text when its halves are joined to pairs where they can be; a half that
is left stands for no character.
-/

namespace ActionSweep

/-- A string as the list of its code points. -/
abbrev Points := List Nat

namespace Points

/-- The first half of a pair. -/
def isHigh (n : Nat) : Bool := 0xd800 ≤ n && n ≤ 0xdbff

/-- The second half of a pair. -/
def isLow (n : Nat) : Bool := 0xdc00 ≤ n && n ≤ 0xdfff

/-- The code point of a pair. -/
def pair (high low : Nat) : Nat := 0x10000 + (high - 0xd800) * 0x400 + (low - 0xdc00)

/-- The two halves of a code point beyond the first plane. -/
def halves (n : Nat) : Nat × Nat := (0xd800 + (n - 0x10000) / 0x400, 0xdc00 + (n - 0x10000) % 0x400)

/-- With every half that has the other one right behind it joined to the code point of the pair. -/
def joined : Points → Points
  | high :: low :: rest =>
    if isHigh high && isLow low then pair high low :: joined rest else high :: joined (low :: rest)
  | ps => ps

/-- The character at a code point; U+FFFD for half of a pair. -/
def toChar (n : Nat) : Char := if isHigh n || isLow n then '\uFFFD' else Char.ofNat n

/-- The text that a string stands for. -/
def text (ps : Points) : Text := ps.joined.map toChar

/-- A text as a string, which has no halves. -/
def ofText (t : Text) : Points := t.map Char.toNat

end Points

end ActionSweep
