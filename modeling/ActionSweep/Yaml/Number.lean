import ActionSweep.Decimal.Reader

/-
Scalars that are numbers. Integers may be binary, octal (a leading zero), decimal, hexadecimal or in
groups of sixty between colons; numbers with a point may be in such groups too. Underscores do not
count. A plain scalar is a number if it has the form of one; a scalar that is said to be a number is
read as one whatever its form is.
-/

namespace ActionSweep.Yaml

/-- Why a text that is said to be a number is none. -/
inductive NumberFault
  | numeral (f : NumeralFault)
  /-- Nothing is left when underscores and the sign are gone. -/
  | nothing
  | noFraction (t : Text)
deriving Repr, DecidableEq

def isDecimal (c : Char) : Bool := '0' ≤ c && c ≤ '9'

def isHexadecimal (c : Char) : Bool :=
  isDecimal c || ('a' ≤ c && c ≤ 'f') || ('A' ≤ c && c ≤ 'F')

/-! ## Forms -/

/-- Digits of a class and underscores, one at least. -/
def digitsOf (p : Char → Bool) (t : Text) : Bool := !t.isEmpty && t.all fun c => p c || c = '_'

/-- Decimal digits and underscores, a digit first. -/
def isWhole (t : Text) : Bool := (t.take 1).any isDecimal && digitsOf isDecimal t

/-- Whether a group behind a colon is a number below sixty. -/
def isSixtieth : Text → Bool
  | [d] => isDecimal d
  | [d, e] => '0' ≤ d && d ≤ '5' && isDecimal e
  | _ => false

/-- Whether a plain scalar without a sign has the form of an integer. -/
def isUnsignedInteger : Text → Bool
  | '0' :: 'b' :: rest => digitsOf (fun c => c = '0' || c = '1') rest
  | '0' :: 'x' :: rest => digitsOf isHexadecimal rest
  | ['0'] => true
  | '0' :: rest => digitsOf (fun c => '0' ≤ c && c ≤ '7') rest
  | t =>
    match t.split ':' with
    | first :: groups => isWhole first && groups.all isSixtieth
    | [] => false

/-- Whether a plain scalar has the form of an integer. -/
def isInteger (t : Text) : Bool := isUnsignedInteger (Numeral.signed t).2

/-- Whether a text is an exponent with a sign, or nothing. -/
def isExponent : Text → Bool
  | [] => true
  | e :: sign :: digits =>
    (e = 'e' || e = 'E') && (sign = '+' || sign = '-') && !digits.isEmpty && digits.all isDecimal
  | _ => false

/-- Whether what stands behind a point is digits, underscores and an exponent. -/
def isFractionPart (t : Text) : Bool :=
  isExponent (t.dropWhile fun c => isDecimal c || c = '_')

/-- Whether a text is groups of sixty, two at least. -/
def isSixties (t : Text) : Bool :=
  match t.split ':' with
  | first :: group :: groups => isWhole first && (group :: groups).all isSixtieth
  | _ => false

/-- Whether a plain scalar has the form of a number with a point. -/
def isFraction (t : Text) : Bool :=
  let rest := (Numeral.signed t).2
  let (before, after) := rest.cut '.'
  if [".inf", ".Inf", ".INF"].any fun w => w.toList = rest then true
  else if [".nan", ".NaN", ".NAN"].any fun w => w.toList = t then true
  else if !rest.contains '.' then false
  else if before.isEmpty then
    -- nothing in front of the point: no sign, and a digit behind it
    t = rest && (after.take 1).any isDecimal && isFractionPart after
  else if before.contains ':' then isSixties before && after.all fun c => isDecimal c || c = '_'
  else isWhole before && isFractionPart after

/-! ## Reading -/

/-- A text without underscores. -/
def withoutUnderscores (t : Text) : Text := t.filter (· ≠ '_')

/-- The number of a magnitude without underscores and sign. -/
def magnitude (t : Text) : Except NumberFault Int :=
  let numeral (base : Nat) (t : Text) : Except NumberFault Int :=
    (Numeral.readIn base t).mapError .numeral
  match t with
  | [] => .error .nothing
  | ['0'] => .ok 0
  | '0' :: 'b' :: rest => numeral 2 rest
  | '0' :: 'x' :: rest => numeral 16 rest
  | '0' :: rest => numeral 8 ('0' :: rest)
  | t => do
    let groups ← (t.split ':').mapM (numeral 10)
    return groups.foldl (fun n g => 60 * n + g) 0

/-- The integer of a scalar. -/
def integerOf (t : Text) : Except NumberFault Int := do
  let (negative, rest) := Numeral.signed (withoutUnderscores t)
  let n ← magnitude rest
  return if negative then -n else n

/-- The number of a group with a fraction. -/
def fractionGroup (t : Text) : Except NumberFault Float :=
  match Decimal.read? t with
  | some x => .ok x
  | none => .error (.noFraction t)

/-- The number of groups of sixty. From the last group to the first, each weighs sixty times the one
behind it. -/
def sumOfSixties (groups : List Float) : Float :=
  (groups.reverse.foldl (fun (s : Float × Float) x => (s.1 + x * s.2, s.2 * 60)) (0, 1)).1

/-- The number of a scalar without underscores and sign. -/
def unsignedFraction (t : Text) : Except NumberFault Float :=
  if t = ".inf" then .ok (1.0 / 0.0)
  else if t = ".nan" then .ok (0.0 / 0.0)
  else match t.split ':' with
    | first :: group :: groups => do
      return sumOfSixties (← (first :: group :: groups).mapM fractionGroup)
    | _ => fractionGroup t

/-- The number with a fraction of a scalar. -/
def fractionOf (t : Text) : Except NumberFault Float := do
  let body := Text.lower (withoutUnderscores t)
  if body.isEmpty then throw .nothing
  let (negative, rest) := Numeral.signed body
  let x ← unsignedFraction rest
  return if negative then -x else x

end ActionSweep.Yaml
