import ActionSweep.Key
import ActionSweep.Reference
import ActionSweep.Value.Basic

/-
The index of declared actions and of the references to them. Actions stand in the order in which
their keys were first declared, keys of references in the order in which they were first recorded.
-/

namespace ActionSweep

/-- A reference with the file it was found in. -/
structure Reference where
  source : Text
  provenance : Provenance
  original : Text
deriving Repr, DecidableEq

/-- How sure it is that an action can go. -/
inductive Confidence
  | safeToDelete
  | reviewNeeded
deriving Repr, DecidableEq

namespace Confidence

def label : Confidence → Text
  | safeToDelete => "safe-to-delete"
  | reviewNeeded => "review-needed"

/-- An action without references is safe to delete. -/
def ofCount (references : Nat) : Confidence :=
  if references = 0 then safeToDelete else reviewNeeded

/-- The place of a confidence in results. -/
def order : Confidence → Nat
  | safeToDelete => 0
  | reviewNeeded => 1

end Confidence

/-- A declared action with the references to it. -/
structure Action where
  key : Text
  file : Text
  content : Value
  references : List Reference

namespace Action

def confidence (a : Action) : Confidence := .ofCount a.references.length

/-- Whether an action counts as used. -/
def status (a : Action) : Text :=
  match a.confidence with
  | .safeToDelete => "unused"
  | .reviewNeeded => "used"

end Action

/-- Actions by key, and references by the key they name. -/
structure Index where
  actions : List Action
  recorded : List (Text × List Reference)

namespace Index

def empty : Index := ⟨[], []⟩

def contains (i : Index) (key : Text) : Bool := i.actions.any (·.key = key)

/-- Puts an action in the place of the one with its key, or behind all others. -/
def putAction (a : Action) : List Action → List Action
  | [] => [a]
  | b :: rest => if b.key = a.key then a :: rest else b :: putAction a rest

/-- Declares an action. A second declaration of a key replaces the first one, with its references. -/
def declare (i : Index) (key file : Text) (content : Value) : Index :=
  { i with actions := putAction ⟨key, file, content, []⟩ i.actions }

/-- Adds a reference to the action of a key, if it is declared. -/
def attach (key : Text) (r : Reference) (actions : List Action) : List Action :=
  actions.map fun a => if a.key = key then { a with references := a.references ++ [r] } else a

/-- Adds a reference to the references of its key. -/
def file (key : Text) (r : Reference) : List (Text × List Reference) → List (Text × List Reference)
  | [] => [(key, [r])]
  | (k, rs) :: rest => if k = key then (k, rs ++ [r]) :: rest else (k, rs) :: file key r rest

/-- Records a reference under the key it names, if it names one. -/
def record (i : Index) (source : Text) (raw : RawReference) : Index :=
  match Key.ofReference .action raw.path with
  | none => i
  | some key =>
    let r : Reference := ⟨source, raw.provenance, raw.path⟩
    ⟨attach key r i.actions, file key r i.recorded⟩

/-- All references that name a key. -/
def referencesFor (i : Index) (key : Text) : List Reference :=
  ((i.recorded.find? (·.1 = key)).map (·.2)).getD []

/-- The references whose key no action has. -/
def unresolved (i : Index) : List (Text × List Reference) :=
  i.recorded.filter fun entry => !i.contains entry.1

end Index

end ActionSweep
