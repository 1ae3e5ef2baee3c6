import ActionSweep.Text.Basic

/-
How alike two texts are: the characters in the longest stretch that they share, and in the stretches
that they share to its left and to its right, against all their characters.
-/

namespace ActionSweep.Text

/-- How many characters two texts have in common at their beginning. -/
def sharedBeginning : Text → Text → Nat
  | c :: cs, d :: ds => if c = d then sharedBeginning cs ds + 1 else 0
  | _, _ => 0

/-- A stretch that two texts share: what stands before it in either text, and its length. -/
structure Stretch where
  first : Nat
  second : Nat
  size : Nat
deriving Repr, DecidableEq

/-- The longer of two stretches, the former if they are equal. -/
def Stretch.longer (s t : Stretch) : Stretch := if s.size < t.size then t else s

/-- The longest stretch that two texts share; of several the first in the first text, and of those
the first in the second. -/
def longestStretch (a b : Text) : Stretch :=
  (List.range a.length).foldl (fun best i =>
    (List.range b.length).foldl (fun best j =>
      best.longer ⟨i, j, sharedBeginning (a.drop i) (b.drop j)⟩) best) ⟨0, 0, 0⟩

/-- The number of characters in shared stretches, looked for at most `n` times inside each other. -/
def sharedWithin : Nat → Text → Text → Nat
  | 0, _, _ => 0
  | n + 1, a, b =>
    let s := longestStretch a b
    if s.size = 0 then 0
    else sharedWithin n (a.take s.first) (b.take s.second) + s.size +
      sharedWithin n (a.drop (s.first + s.size)) (b.drop (s.second + s.size))

/-- The number of characters in shared stretches. -/
def shared (a b : Text) : Nat := sharedWithin a.length a b

/-- How alike a text is to another one: two characters for each shared one, of the characters of both
texts. -/
structure Likeness where
  text : Text
  shared : Nat
  total : Nat
deriving Repr, DecidableEq

namespace Likeness

def of (word t : Text) : Likeness := ⟨t, 2 * Text.shared t word, t.length + word.length⟩

/-- Whether three fifths of the characters are shared. -/
def isClose (l : Likeness) : Bool := 3 * l.total ≤ 5 * l.shared

/-- The closer one first; of equally close ones the last in the order of texts. -/
def before (l m : Likeness) : Bool :=
  if l.shared * m.total = m.shared * l.total then Text.le m.text l.text
  else m.shared * l.total < l.shared * m.total

end Likeness

/-- How many close texts are named at most. -/
def closeLimit : Nat := 3

/-- The texts that are closest to a word, in the order of texts. -/
def closest (word : Text) (ts : List Text) : List Text :=
  let close := (ts.map (Likeness.of word)).filter Likeness.isClose
  sort (((close.mergeSort Likeness.before).take closeLimit).map Likeness.text)

end ActionSweep.Text
