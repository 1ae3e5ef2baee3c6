import ActionSweep.Value.Basic

/-
Values of the wrong kind: what can be asked of a value, and why it may not answer.
-/

namespace ActionSweep

/-- What was asked of a value that its kind does not answer. -/
inductive Misuse
  | noLength (kind : Text)
  | notIterable (kind : Text)
  | noMembership (kind : Text)
  | unhashable (kind : Text)
  | noAttribute (kind name : Text)
  | badIndex (kind : Text)
  | notMapping (kind : Text)
  | nonTextNames
  | unexpectedSetting (group name : Text)
  | notPathPart (kind : Text)
  | notPath (kind : Text)
  | notComparable (kind : Text)
  | notLines (shown : Text)
  | notPattern (shown : Text)
deriving Repr, DecidableEq

/-- The name of a kind without the group that it belongs to. -/
def plainKind (kind : Text) : Text := (kind.reverse.takeWhile (· ≠ '.')).reverse

def Misuse.message : Misuse → Text
  | noLength k => "object of type '" ++ k ++ "' has no len()"
  | notIterable k => "'" ++ k ++ "' object is not iterable"
  | noMembership k =>
    if k = "bytes" then "a bytes-like object is required, not 'str'"
    else "argument of type '" ++ k ++ "' is not iterable"
  | unhashable k => "unhashable type: '" ++ k ++ "'"
  | noAttribute k n => "'" ++ k ++ "' object has no attribute '" ++ n ++ "'"
  | badIndex k =>
    if k = "set" then "'set' object is not subscriptable"
    else if k = "str" then "string indices must be integers, not 'str'"
    else "list indices must be integers or slices, not str"
  | notMapping k =>
    "action_cleanup.config.CleanupConfig() argument after ** must be a mapping, not " ++ k
  | nonTextNames => "keywords must be strings"
  | unexpectedSetting g n =>
    g ++ ".__init__() got an unexpected keyword argument " ++ ("'" ++ n ++ "'")
  | notPathPart k => "unsupported operand type(s) for /: 'PosixPath' and '" ++ k ++ "'"
  | notPath k => "expected str, bytes or os.PathLike object, not " ++ plainKind k
  | notComparable k => "'>' not supported between instances of 'int' and '" ++ k ++ "'"
  | notLines s => "lines:" ++ s ++ " is not an iterable."
  | notPattern s => "pattern=" ++ s ++ " is not a string, re.Pattern, or None."

/-- A missing attribute is told apart from the other misuses. -/
def Misuse.isAttribute : Misuse → Bool
  | noAttribute _ _ => true
  | _ => false

namespace Value

/-- The elements that a walk over a value meets: list items, characters, or field names. -/
def items : Value → Except Misuse (List Value)
  | list vs => .ok vs
  | text t => .ok (t.map fun c => .text [c])
  | object fields => .ok (fields.map fun f => .text f.1)
  | other _ _ _ (some vs) => .ok vs
  | v => .error (.notIterable v.kind)

/-- The number of those elements. -/
def length (v : Value) : Except Misuse Nat :=
  match v.items with
  | .ok vs => .ok vs.length
  | .error _ => .error (.noLength v.kind)

/-- The text of a value that has to be one; `name` is what is asked of it. -/
def asText (name : Text) : Value → Except Misuse Text
  | text t => .ok t
  | v => .error (.noAttribute v.kind name)

/-- The text of a value that is to be a part of a path. -/
def asPathPart : Value → Except Misuse Text
  | text t => .ok t
  | v => .error (.notPathPart v.kind)

/-- Whether a value can be a member of a set. -/
def hashable : Value → Except Misuse Unit
  | list _ => .error (.unhashable "list")
  | object _ => .error (.unhashable "dict")
  | _ => .ok ()

end Value

end ActionSweep
