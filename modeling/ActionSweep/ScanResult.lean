import ActionSweep.Index

/-
The result of a scan, and what is asked of it.
-/

namespace ActionSweep

/-- A folder without files, by its path and by its path relative to the project. -/
structure EmptyFolder where
  path : Text
  relativePath : Text
deriving Repr, DecidableEq

/-- How many actions there are of each sort. -/
structure ScanSummary where
  total : Nat
  used : Nat
  possiblyUnused : Nat
  likelyUnused : Nat
deriving Repr, DecidableEq

/-- What a scan found. -/
structure ScanResult where
  actions : List Action
  emptyFolders : List EmptyFolder
  warnings : List Text
  unresolved : List (Text × List Reference)

/-- Puts an action before the first one that is not surer than it. -/
def insertRanked (a : Action) : List Action → List Action
  | [] => [a]
  | b :: rest =>
    if a.confidence.order ≤ b.confidence.order then a :: b :: rest else b :: insertRanked a rest

/-- In the order of confidence; actions of one confidence keep their places. -/
def rank (actions : List Action) : List Action := actions.foldr insertRanked []

namespace ScanResult

def empty : ScanResult := ⟨[], [], [], []⟩

/-- The actions of one sort. -/
def withConfidence (r : ScanResult) (c : Confidence) : List Action :=
  r.actions.filter (·.confidence = c)

def summary (r : ScanResult) : ScanSummary :=
  let unused := (r.withConfidence .safeToDelete).length
  ⟨r.actions.length, r.actions.length - unused, 0, unused⟩

/-- The first action with a key. -/
def get? (r : ScanResult) (key : Text) : Option Action := r.actions.find? (·.key = key)

/-- Without the actions of some keys; everything else stays as it was found. -/
def without (r : ScanResult) (keys : List Text) : ScanResult :=
  { r with actions := r.actions.filter fun a => !keys.contains a.key }

end ScanResult

end ActionSweep
