import ActionSweep.Json.Reader

/-
Values to JSON text: two blanks for each level, one element or field a line, and every character
outside ASCII as an escape.
-/

namespace ActionSweep.Json

/-- A UTF-16 unit as an escape. -/
def unitEscape (n : Nat) : Text := '\\' :: 'u' :: Text.hex 4 n

/-- The two-character escape of a character that has one. -/
def escapeOf? : Char → Option Char
  | '"' => some '"'
  | '\\' => some '\\'
  | '\n' => some 'n'
  | '\r' => some 'r'
  | '\t' => some 't'
  | '\x0c' => some 'f'
  | '\x08' => some 'b'
  | _ => none

/-- A code point inside a string: visible ASCII as it is, others as one escape or as a pair of them. -/
def writePoint (n : Nat) : Text :=
  match escapeOf? (Char.ofNat n) with
  | some e => ['\\', e]
  | none =>
    if 0x20 ≤ n ∧ n < 0x7f then [Char.ofNat n]
    else if n < 0x10000 then unitEscape n
    else unitEscape (Points.halves n).1 ++ unitEscape (Points.halves n).2

/-- A string of code points. -/
def writePoints (ps : Points) : Text := '"' :: ps.flatMap writePoint ++ ['"']

def writeString (t : Text) : Text := writePoints (.ofText t)

/-- A number with a fraction; what is not finite is written as a word. -/
def writeFloat (x : Float) : Text :=
  NumberFormat.standard.writeDouble ("NaN", "Infinity") (.ofBits x.toBits.toNat)

/-- A line end and the blanks of a level. -/
def newline (level : Nat) : Text := '\n' :: List.replicate (2 * level) ' '

mutual

/-- A value whose first character stands at a given level. -/
def write (level : Nat) : Value → Text
  | .null => "null"
  | .bool true => "true"
  | .bool false => "false"
  | .int n => Text.ofInt n
  | .float x => writeFloat x
  | .text t => writeString t
  | .list [] => "[]"
  | .list (v :: vs) =>
    '[' :: newline (level + 1) ++ write (level + 1) v ++ writeItems level vs ++ newline level ++ [']']
  | .object [] => "\x7b\x7d"
  | .object ((n, v) :: fs) =>
    '\x7b' :: newline (level + 1) ++ writeString n ++ ": " ++ write (level + 1) v ++
      writeFields level fs ++ newline level ++ ['\x7d']
  | .other _ _ words _ => writeString words

/-- The elements after the first one. -/
def writeItems (level : Nat) : List Value → Text
  | [] => []
  | v :: vs => ',' :: newline (level + 1) ++ write (level + 1) v ++ writeItems level vs

/-- The fields after the first one. -/
def writeFields (level : Nat) : List (Text × Value) → Text
  | [] => []
  | (n, v) :: fs =>
    ',' :: newline (level + 1) ++ writeString n ++ ": " ++ write (level + 1) v ++ writeFields level fs

end

/-- A value as the text of a file. -/
def render (v : Value) : Text := write 0 v

end ActionSweep.Json
