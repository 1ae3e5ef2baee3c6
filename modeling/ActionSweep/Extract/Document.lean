import ActionSweep.Extract.Url
import ActionSweep.Value.Basic

/-
References in JSON documents: fields that hold a whole reference, and fields that may hold a URL
inside a longer text. The walk visits lists and objects in document order with an explicit stack,
and stops at the first one nested too deep.
-/

namespace ActionSweep.Extract

/-- How deep a walk goes: the deepest level entered (none if unlimited) and how messages spell it. -/
structure DepthLimit where
  deepest : Option Int
  label : Text
deriving Repr, DecidableEq

def DepthLimit.ofInt (n : Int) : DepthLimit := ⟨some n, Text.ofInt n⟩

/-- The limit unless a setting gives another one. -/
def DepthLimit.standard : DepthLimit := .ofInt 64

def DepthLimit.exceeded (limit : DepthLimit) (depth : Nat) : Bool :=
  match limit.deepest with
  | some n => n < (depth : Int)
  | none => false

/-- Why a document is not searched. -/
inductive DocumentFault
  | tooDeep (limit : DepthLimit)
deriving Repr, DecidableEq

def DocumentFault.reason : DocumentFault → Text
  | tooDeep limit => "nesting deeper than " ++ limit.label ++ " levels"

/-- The fields that hold a whole reference. -/
def directField? (name : Text) : Option Provenance :=
  if name = "api_file" then some .queueFileField
  else if name = "exec" then some .execField
  else if name = "module" then some .moduleField
  else none

/-- The fields that may hold a URL inside a longer text. -/
def mayHoldUrl (name : Text) : Bool :=
  name = ("value" : Text) || name = ("url" : Text) || name = ("link" : Text)

/-- The references of one field with a text. -/
def textField (name value : Text) : List RawReference :=
  match directField? name with
  | some p => [⟨value, p⟩]
  | none => if mayHoldUrl name then urls value else []

/-- The references of an object's own text fields. -/
def ownReferences : List (Text × Value) → List RawReference
  | [] => []
  | (name, .text t) :: fields => textField name t ++ ownReferences fields
  | _ :: fields => ownReferences fields

/-- Whether a value has values inside. -/
def isContainer : Value → Bool
  | .list _ => true
  | .object _ => true
  | _ => false

/-- The lists and objects directly inside a value, in document order. -/
def containersIn : Value → List Value
  | .list items => items.filter isContainer
  | .object fields => (fields.map (·.2)).filter isContainer
  | _ => []

/-- The references of a value itself. -/
def referencesAt : Value → List RawReference
  | .object fields => ownReferences fields
  | _ => []

mutual

/-- How many lists and objects a value has, itself included. -/
def containerCount : Value → Nat
  | .list items => 1 + containersInItems items
  | .object fields => 1 + containersInFields fields
  | _ => 0

def containersInItems : List Value → Nat
  | [] => 0
  | v :: vs => containerCount v + containersInItems vs

def containersInFields : List (Text × Value) → Nat
  | [] => 0
  | (_, v) :: fs => containerCount v + containersInFields fs

end

/-- Walks a stack of values with their depths. Each step takes one value off the stack and puts the
containers inside it on, so the steps are as many as there are containers and the root. -/
def walk (limit : DepthLimit) :
    Nat → List (Value × Nat) → Except DocumentFault (List RawReference)
  | 0, _ => .ok []
  | _ + 1, [] => .ok []
  | n + 1, (v, depth) :: stack =>
    if limit.exceeded depth then .error (.tooDeep limit)
    else
      (walk limit n ((containersIn v).map (·, depth + 1) ++ stack)).map (referencesAt v ++ ·)

/-- The references of a document. -/
def document (v : Value) (limit : DepthLimit) : Except DocumentFault (List RawReference) :=
  walk limit (containerCount v + 2) [(v, 0)]

end ActionSweep.Extract
