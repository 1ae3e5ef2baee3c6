import ActionSweep.Text.Utf8

/-
Scalars that are bytes, written in base sixty-four: four characters for three bytes. Characters of no
meaning are passed over.
-/

namespace ActionSweep.Yaml

/-- The six bits of a character. -/
def sextet? (c : Char) : Option Nat :=
  if 'A' ≤ c ∧ c ≤ 'Z' then some (c.toNat - 'A'.toNat)
  else if 'a' ≤ c ∧ c ≤ 'z' then some (c.toNat - 'a'.toNat + 26)
  else if '0' ≤ c ∧ c ≤ '9' then some (c.toNat - '0'.toNat + 52)
  else if c = '+' then some 62
  else if c = '/' then some 63
  else none

/-- The bytes that the groups of four make, the last of which may be short by one or two. -/
def bytesOfSextets : List Nat → Bytes
  | a :: b :: c :: d :: rest =>
    (4 * a + b / 16).toUInt8 :: (16 * b + c / 4).toUInt8 :: (64 * c + d).toUInt8 ::
      bytesOfSextets rest
  | [a, b, c] => [(4 * a + b / 16).toUInt8, (16 * b + c / 4).toUInt8]
  | [a, b] => [(4 * a + b / 16).toUInt8]
  | _ => []

/-- The six bits of the characters up to the filling behind a short group; none if a group is short
without enough filling. `filled` counts the equals signs since the last character. -/
def sextets? (count filled : Nat) : Text → Option (List Nat)
  | [] => if count % 4 = 0 then some [] else none
  | c :: rest =>
    if c = '=' then
      if 2 ≤ count % 4 then
        if 4 ≤ count % 4 + filled + 1 then some [] else sextets? count (filled + 1) rest
      else sextets? count filled rest
    else match sextet? c with
      | some n => (sextets? (count + 1) 0 rest).map (n :: ·)
      | none => sextets? count filled rest

/-- The bytes of a scalar, which has to be ASCII. -/
def bytesOf? (t : Text) : Option Bytes :=
  if t.all (·.toNat < 0x80) then (sextets? 0 0 t).map bytesOfSextets else none

/-- Bytes as they stand in messages. -/
def bytesShown (bytes : Bytes) : Text :=
  let t := bytes.map fun b => Char.ofNat b.toNat
  let mark := Text.quoteMark t
  let shown (c : Char) : Text :=
    if c.toNat < 0x7f then Text.quotedChar mark c else '\\' :: 'x' :: Text.hex 2 c.toNat
  'b' :: mark :: t.flatMap shown ++ [mark]

end ActionSweep.Yaml
