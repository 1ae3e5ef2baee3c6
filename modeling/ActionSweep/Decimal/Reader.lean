import ActionSweep.Decimal.Text
import ActionSweep.Text.Digit

/-
Reading a number that may have a fraction: white space around it, a sign, digits of any script with
one point at most, and an exponent; or a word for what is not finite.
-/

namespace ActionSweep.Decimal

/-- The decimal digits at the beginning of a text, and what follows them. -/
def digitsAt (t : Text) : List Nat × Text :=
  let run := t.takeWhile fun c => (decimalDigit? c).isSome
  (run.filterMap decimalDigit?, t.drop run.length)

/-- The exponent that a whole text is; no text is the exponent zero. -/
def exponentOf? : Text → Option Int
  | [] => some 0
  | c :: t =>
    if c = 'e' || c = 'E' then
      let (negative, t) := Numeral.signed t
      match digitsAt t with
      | (d :: ds, []) =>
        let n : Int := Numeral.ofDigits 10 (d :: ds)
        some (if negative then -n else n)
      | _ => none
    else none

/-- The number that a whole text without a sign is. -/
def unsigned? (negative : Bool) (t : Text) : Option Float :=
  let word := Text.lower t
  if word = "inf" || word = "infinity" then some (if negative then -(1.0 / 0.0) else 1.0 / 0.0)
  else if word = "nan" then some (0.0 / 0.0)
  else
    let (whole, rest) := digitsAt t
    let (fraction, rest) := match rest with
      | '.' :: rest => digitsAt rest
      | rest => ([], rest)
    if (whole ++ fraction).isEmpty then none
    else (exponentOf? rest).map fun e =>
      floatOfDecimal negative (Numeral.ofDigits 10 (whole ++ fraction)) (e - fraction.length)

/-- The number that a text is, none if it is not one. -/
def read? (t : Text) : Option Float :=
  let (negative, body) := Numeral.signed (t.trim Numeral.isMargin)
  unsigned? negative body

end ActionSweep.Decimal
