import ActionSweep.Text.Basic

/-
The fewest decimal digits that read back as a given binary number. A finite positive number is
`m · 2^q`; the reals that round to it form an interval, whose ends belong to it iff `m` is even. For
one digit, two digits and so on the two neighbours of the number on that decimal grid are tested in
exact arithmetic: the first grid with a hit wins, and of two hits the nearer, on a tie the even one.
-/

namespace ActionSweep

/-- The decimal number `digits · 10^exponent`. -/
structure Decimal where
  digits : Nat
  exponent : Int
deriving Repr, DecidableEq

/-- The binary number `m · 2^q`; `narrow` if the next smaller one is half as far as the next larger. -/
structure Binary where
  m : Nat
  q : Int
  narrow : Bool
deriving Repr, DecidableEq

/-- What the bits of a double stand for. -/
inductive Double
  | notANumber
  | infinity (negative : Bool)
  | zero (negative : Bool)
  | finite (negative : Bool) (b : Binary)
deriving Repr, DecidableEq

/-- The meaning of the 64 bits of a double: sign, eleven bits of exponent, 52 bits of fraction. -/
def Double.ofBits (bits : Nat) : Double :=
  let negative := bits / Nat.pow 2 63 % 2 = 1
  let e : Nat := bits / Nat.pow 2 52 % Nat.pow 2 11
  let f := bits % Nat.pow 2 52
  if e = 2047 then if f = 0 then .infinity negative else .notANumber
  else if e = 0 then if f = 0 then .zero negative else .finite negative ⟨f, -1074, false⟩
  else .finite negative ⟨Nat.pow 2 52 + f, Int.ofNat e - 1075, f = 0 && e ≠ 1⟩

namespace Decimal

/-- How many decimal digits a natural number has; zero has none. -/
def width (n : Nat) : Nat := if n = 0 then 0 else (Nat.toDigits 10 n).length

/-- A number over a common denominator, with the ends of the interval of reals that round to it. -/
structure Scaled where
  low : Nat
  value : Nat
  high : Nat
  unit : Nat
  closed : Bool

def Scaled.ofBinary (b : Binary) : Scaled :=
  let s := Nat.pow 2 (b.q - 2).toNat
  ⟨(4 * b.m - (if b.narrow then 1 else 2)) * s, 4 * b.m * s, (4 * b.m + 2) * s,
    Nat.pow 2 (2 - b.q).toNat, b.m % 2 = 0⟩

/-- The exponent of the highest decimal digit of `value / unit`. -/
def Scaled.leading (s : Scaled) : Int :=
  if s.unit ≤ s.value then (width (s.value / s.unit) : Int) - 1
  else -(width ((s.unit + s.value - 1) / s.value - 1) : Int)

/-- Whether the decimal number `c · 10^p` lies in the interval. -/
def Scaled.holds (s : Scaled) (c : Nat) (p : Int) : Bool :=
  let x := c * Nat.pow 10 p.toNat * s.unit
  let d := Nat.pow 10 (-p).toNat
  if s.closed then s.low * d ≤ x && x ≤ s.high * d else s.low * d < x && x < s.high * d

/-- The nearer neighbour of the number on the grid of `10^p` that lies in the interval. -/
def Scaled.nearest? (s : Scaled) (p : Int) : Option Nat :=
  let d := Nat.pow 10 (-p).toNat
  let step := Nat.pow 10 p.toNat * s.unit
  let c := s.value * d / step
  let below := s.value * d - c * step
  let lower := s.holds c p && c ≠ 0
  let upper := s.holds (c + 1) p
  if lower && upper then
    if 2 * below < step then some c
    else if 2 * below > step then some (c + 1)
    else if c % 2 = 0 then some c else some (c + 1)
  else if lower then some c
  else if upper then some (c + 1)
  else none

/-- Without zeros at the end of the digits. -/
def stripZeros : Nat → Decimal → Decimal
  | 0, d => d
  | n + 1, d =>
    if d.digits % 10 = 0 && d.digits ≠ 0 then stripZeros n ⟨d.digits / 10, d.exponent + 1⟩ else d

/-- The fewest digits that read back; seventeen always do. -/
def shortest (b : Binary) : Decimal :=
  let s := Scaled.ofBinary b
  let e := s.leading
  let found := (List.range 17).findSome? fun (k : Nat) =>
    let p := e - Int.ofNat k
    (s.nearest? p).map fun c => stripZeros 20 ⟨c, p⟩
  found.getD ⟨s.value / s.unit, 0⟩

end Decimal

end ActionSweep
