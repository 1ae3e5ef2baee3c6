import ActionSweep.Text.Blank
import ActionSweep.Text.Quoted

/-
Digits of every script and the integers written with them: numerals inside a typed list of numbers,
and one integer typed as an answer.
-/

namespace ActionSweep

/-- The zeros of the scripts that have ten decimal digits; the other nine follow each of them. -/
def decimalZeros : List Nat :=
  [0x30, 0x660, 0x6f0, 0x7c0, 0x966, 0x9e6, 0xa66, 0xae6, 0xb66, 0xbe6, 0xc66, 0xce6, 0xd66,
   0xde6, 0xe50, 0xed0, 0xf20, 0x1040, 0x1090, 0x17e0, 0x1810, 0x1946, 0x19d0, 0x1a80, 0x1a90,
   0x1b50, 0x1bb0, 0x1c40, 0x1c50, 0xa620, 0xa8d0, 0xa900, 0xa9d0, 0xa9f0, 0xaa50, 0xabf0, 0xff10,
   0x104a0, 0x10d30, 0x11066, 0x110f0, 0x11136, 0x111d0, 0x112f0, 0x11450, 0x114d0, 0x11650,
   0x116c0, 0x11730, 0x118e0, 0x11950, 0x11c50, 0x11d50, 0x11da0, 0x16a60, 0x16ac0, 0x16b50,
   0x1d7ce, 0x1d7d8, 0x1d7e2, 0x1d7ec, 0x1d7f6, 0x1e140, 0x1e2f0, 0x1e950, 0x1fbf0]

/-- Characters that stand for a digit but are not decimal digits (raised, lowered, circled …), as
closed ranges of code points. -/
def digitSignRanges : List (Nat × Nat) :=
  [(0xb2, 0xb3), (0xb9, 0xb9), (0x1369, 0x1371), (0x19da, 0x19da), (0x2070, 0x2070),
   (0x2074, 0x2079), (0x2080, 0x2089), (0x2460, 0x2468), (0x2474, 0x247c), (0x2488, 0x2490),
   (0x24ea, 0x24ea), (0x24f5, 0x24fd), (0x24ff, 0x24ff), (0x2776, 0x277e), (0x2780, 0x2788),
   (0x278a, 0x2792), (0x10a40, 0x10a43), (0x10e60, 0x10e68), (0x11052, 0x1105a),
   (0x1f100, 0x1f10a)]

/-- The value of a decimal digit of any script. -/
def decimalDigit? (c : Char) : Option Nat :=
  (decimalZeros.find? fun z => z ≤ c.toNat && c.toNat < z + 10).map (c.toNat - ·)

/-- Decimal digits and the signs that stand for one. -/
def isDigitSign (c : Char) : Bool :=
  (decimalDigit? c).isSome || digitSignRanges.any fun r => r.1 ≤ c.toNat && c.toNat ≤ r.2

/-- The longest numeral that is read. -/
def numeralLimit : Nat := 4300

/-- Why a text is not read as an integer. -/
inductive NumeralFault
  /-- Not the text of an integer in a base. -/
  | malformed (base : Nat) (text : Text)
  /-- More digits than are read at once. -/
  | tooLong (digits : Nat)
deriving Repr, DecidableEq

/-- How much of a text that is no numeral is shown, its quotes included. -/
def excerptSize : Nat := 200

def NumeralFault.message : NumeralFault → Text
  | malformed base t =>
    "invalid literal for int() with base " ++ Text.ofNat base ++ ": " ++ t.quoted.take excerptSize
  | tooLong digits =>
    "Exceeds the limit (4300 digits) for integer string conversion: value has " ++
      Text.ofNat digits ++ " digits; use sys.set_int_max_str_digits() to increase the limit"

namespace Numeral

/-- The value of a digit in a base up to sixteen: decimal digits of any script, then letters. -/
def digitIn? (base : Nat) (c : Char) : Option Nat :=
  let value : Option Nat :=
    if 'a' ≤ c ∧ c ≤ 'f' then some (c.toNat - 'a'.toNat + 10)
    else if 'A' ≤ c ∧ c ≤ 'F' then some (c.toNat - 'A'.toNat + 10)
    else decimalDigit? c
  value.filter (· < base)

/-- White space that may stand around a numeral: all but the four separators of ASCII. -/
def isMargin (c : Char) : Bool := isBlank c && !(0x1c ≤ c.toNat && c.toNat ≤ 0x1f)

/-- A sign, if there is one: whether it is a minus, and what follows. -/
def signed : Text → Bool × Text
  | '-' :: t => (true, t)
  | '+' :: t => (false, t)
  | t => (false, t)

/-- The letters that mark a base. -/
def baseLetters (base : Nat) : Text :=
  if base = 2 then ['b', 'B'] else if base = 8 then ['o', 'O']
  else if base = 16 then ['x', 'X'] else []

/-- What follows the mark of a base, a zero and a letter, and one underscore behind it. -/
def withoutMark (base : Nat) : Text → Text
  | '0' :: c :: t =>
    if (baseLetters base).contains c then
      match t with
      | '_' :: t => t
      | t => t
    else '0' :: c :: t
  | t => t

/-- The number with the given digits in a base, highest first. -/
def ofDigits (base : Nat) (ds : List Nat) : Nat := ds.foldl (fun n d => base * n + d) 0

/-- Whether the numerals of a base are limited in length: those whose reading takes longer the longer
they are. -/
def isLimited (base : Nat) : Bool := base = 10

/-- Reads an integer in a base: white space around it, an optional sign, and digits between which
single underscores may stand. The length counts before what follows the digits. -/
def readIn (base : Nat) (text : Text) : Except NumeralFault Int :=
  let (negative, body) := signed (text.dropWhile isMargin)
  let body := withoutMark base body
  let isPart (c : Char) : Bool := c = '_' || (digitIn? base c).isSome
  let run := body.takeWhile isPart
  let digits := run.filterMap (digitIn? base)
  if (Text.split '_' run).any List.isEmpty then .error (.malformed base text)
  else if isLimited base && numeralLimit < digits.length then .error (.tooLong digits.length)
  else if !(body.dropWhile isPart).all isMargin then .error (.malformed base text)
  else .ok (if negative then -(ofDigits base digits : Int) else (ofDigits base digits : Int))

/-- Reads a decimal integer. -/
def read (text : Text) : Except NumeralFault Int := readIn 10 text

/-- The zero-based positions named by a typed list such as `1,3 4`: each part that looks like a
numeral is read, and numbers below one or above the upper end are left out. -/
def positions (text : Text) (upper : Int) : Except NumeralFault (List Nat) :=
  (Text.words (text.map fun c => if c = ',' then ' ' else c)).foldlM
    (fun found word => do
      if word.all isDigitSign then
        let n ← read word
        if 1 ≤ n ∧ n ≤ upper then return found ++ [(n - 1).toNat] else return found
      else return found) []

end Numeral

end ActionSweep
