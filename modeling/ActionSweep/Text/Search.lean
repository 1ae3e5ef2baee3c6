import ActionSweep.Text.Blank

/-
Finding things in a text from left to right. A finder looks at the beginning of a text only; the
search tries it at every place and goes on behind what it found.
-/

namespace ActionSweep

/-- Looks for something at the beginning of a text: what it is, and how many characters it has. -/
abbrev Finder (α : Type) := Text → Option (α × Nat)

namespace Text

/-- Everything a finder finds, from left to right and without overlaps; the first `skip` characters
belong to something found before. A find counts for one character at least. -/
def findFrom (find : Finder α) (skip : Nat) : Text → List α
  | [] => []
  | c :: cs =>
    match skip with
    | k + 1 => findFrom find k cs
    | 0 =>
      match find (c :: cs) with
      | some (a, n) => a :: findFrom find (n - 1) cs
      | none => findFrom find 0 cs

def findAll (find : Finder α) (t : Text) : List α := findFrom find 0 t

/-- The first thing a finder finds. -/
def findFirst? (find : Finder α) : Text → Option α
  | [] => none
  | c :: cs =>
    match find (c :: cs) with
    | some (a, _) => some a
    | none => findFirst? find cs

end Text

end ActionSweep
