import ActionSweep.Text.Quoted

/-
Why the file system refuses something.
-/

namespace ActionSweep

/-- The reasons, each with the number under which systems know it. -/
inductive FileProblem
  | notFound
  | busy
  | alreadyExists
  | notAFolder
  | isAFolder
  | invalid
  | nameTooLong
  | notEmpty
  | tooManyLinks
deriving Repr, DecidableEq

namespace FileProblem

def number : FileProblem → Nat
  | notFound => 2
  | busy => 16
  | alreadyExists => 17
  | notAFolder => 20
  | isAFolder => 21
  | invalid => 22
  | nameTooLong => 36
  | notEmpty => 39
  | tooManyLinks => 40

def words : FileProblem → Text
  | notFound => "No such file or directory"
  | busy => "Device or resource busy"
  | alreadyExists => "File exists"
  | notAFolder => "Not a directory"
  | isAFolder => "Is a directory"
  | invalid => "Invalid argument"
  | nameTooLong => "File name too long"
  | notEmpty => "Directory not empty"
  | tooManyLinks => "Too many levels of symbolic links"

/-- Reasons for which a path simply does not exist. -/
def isAbsence : FileProblem → Bool
  | notFound | notAFolder | tooManyLinks => true
  | _ => false

end FileProblem

/-- A refusal: the reason, the path as it was given, and the second path of a move. -/
structure FileFault where
  problem : FileProblem
  path : Text
  target : Option Text
deriving Repr, DecidableEq

def FileFault.message (f : FileFault) : Text :=
  "[Errno " ++ Text.ofNat f.problem.number ++ "] " ++ f.problem.words ++ ": " ++ f.path.quoted ++
    (match f.target with
     | some t => " -> " ++ t.quoted
     | none => [])

end ActionSweep
