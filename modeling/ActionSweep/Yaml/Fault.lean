import ActionSweep.Text.Quoted
import ActionSweep.Yaml.Moment

/-
Why a text is no usable YAML document.
-/

namespace ActionSweep.Yaml

inductive YamlFault
  /-- Not a YAML document, or one with tags or keys that mean nothing. -/
  | malformed
  /-- An escape whose number names no character. -/
  | noCharacter (code : Nat)
  /-- A scalar that is said to be a number is none. -/
  | number (f : NumberFault)
  /-- A scalar that is said to be a truth value is none. -/
  | noTruth (t : Text)
  /-- A scalar that is said to be a date has not the form of one. -/
  | noMoment
  /-- A scalar has the form of a date, but there is no such date. -/
  | moment (f : MomentFault)
deriving Repr, DecidableEq

/-- The largest number of which it is asked whether it names a character. -/
def largestCode : Nat := 0x7fffffff

def NumberFault.message : NumberFault → Text
  | numeral f => f.message
  | nothing => "string index out of range"
  | noFraction t => "could not convert string to float: " ++ t.quoted

def YamlFault.message : YamlFault → Text
  | malformed => "not a YAML document"
  | noCharacter code =>
    if code ≤ largestCode then "chr() arg not in range(0x110000)"
    else "Python int too large to convert to C int"
  | number f => f.message
  | noTruth t => t.quoted
  | noMoment => "'NoneType' object has no attribute 'groupdict'"
  | moment f => f.message

/-- Faults of a value: text that does not say what it should. The others are no documents, or values
that are not looked at as text any more. -/
def YamlFault.isValue : YamlFault → Bool
  | noCharacter code => code ≤ largestCode
  | number .nothing => false
  | number _ | moment _ => true
  | _ => false

/-- What is there, or a fault of the document. -/
def orMalformed : Option α → Except YamlFault α
  | some a => .ok a
  | none => .error .malformed

end ActionSweep.Yaml
