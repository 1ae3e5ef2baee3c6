import ActionSweep.Decimal.Shortest

/-
Numbers with a fraction as text, and text as such a number.
-/

namespace ActionSweep

/-- Which decimal exponents are written without an exponent part, and how wide that part is. -/
structure NumberFormat where
  lowestPositional : Int
  belowScientific : Int
  exponentWidth : Nat
deriving Repr, DecidableEq

/-- Positional from 0.0001 up to below 10^16; otherwise an exponent of two digits at least. -/
def NumberFormat.standard : NumberFormat := ⟨-4, 16, 2⟩

namespace NumberFormat

/-- The text of a positive decimal number. A point always stands between digits in positional form. -/
def write (f : NumberFormat) (d : Decimal) : Text :=
  let ds := Nat.toDigits 10 d.digits
  let e := (ds.length : Int) + d.exponent - 1
  if f.lowestPositional ≤ e ∧ e < f.belowScientific then
    if e < 0 then
      "0." ++ List.replicate (-e - 1).toNat '0' ++ ds
    else
      let whole := ds.take (e.toNat + 1)
      let fraction := ds.drop (e.toNat + 1)
      whole ++ List.replicate (e.toNat + 1 - whole.length) '0' ++ "." ++
        (if fraction.isEmpty then ['0'] else fraction)
  else
    let mantissa := match ds with
      | c :: c' :: cs => c :: '.' :: c' :: cs
      | cs => cs
    let digits := Text.ofNat e.natAbs
    mantissa ++ "e" ++ (if e < 0 then "-" else "+") ++
      List.replicate (f.exponentWidth - digits.length) '0' ++ digits

/-- The text of a double; `words` has the spellings of not-a-number and infinity. -/
def writeDouble (f : NumberFormat) (words : Text × Text) (x : Double) : Text :=
  match x with
  | .notANumber => words.1
  | .infinity negative => (if negative then "-" else "") ++ words.2
  | .zero negative => (if negative then "-" else "") ++ ("0.0" : Text)
  | .finite negative b => (if negative then "-" else "") ++ f.write (.shortest b)

end NumberFormat

/-- The shortest text of a number that reads back, with `nan` and `inf` for what is not finite. -/
def floatText (x : Float) : Text :=
  NumberFormat.standard.writeDouble ("nan", "inf") (.ofBits x.toBits.toNat)

/-- The double nearest to `± digits · 10^exponent`. Exponents far outside the range of doubles are
decided by the number of digits. -/
def floatOfDecimal (negative : Bool) (digits : Nat) (exponent : Int) : Float :=
  let magnitude : Float :=
    if digits = 0 then 0
    else
      let leading := (Decimal.width digits : Int) + exponent
      if leading > 400 then 1.0 / 0.0
      else if leading < -400 then 0
      else if exponent < 0 then Float.ofScientific digits true exponent.natAbs
      else Float.ofScientific digits false exponent.natAbs
  if negative then -magnitude else magnitude

end ActionSweep
