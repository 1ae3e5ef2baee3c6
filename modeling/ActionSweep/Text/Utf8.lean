import ActionSweep.Text.Quoted

/-
UTF-8: bytes to text, either refusing the first bad sequence or replacing each maximal one, text to
bytes, and the line ends of a text file.
-/

namespace ActionSweep

/-- The content of a file. -/
abbrev Bytes := List UInt8

/-- What is wrong with a byte sequence. -/
inductive Utf8Problem
  | badStart
  | badContinuation
  | endOfData
deriving Repr, DecidableEq

/-- The first byte sequence that is not UTF-8: where it starts and which bytes it has. -/
structure Utf8Fault where
  position : Nat
  bytes : Bytes
  problem : Utf8Problem
deriving Repr, DecidableEq

def Utf8Problem.message : Utf8Problem → Text
  | badStart => "invalid start byte"
  | badContinuation => "invalid continuation byte"
  | endOfData => "unexpected end of data"

/-- The bad bytes and their place, in words. -/
def Utf8Fault.place (f : Utf8Fault) : Text :=
  match f.bytes with
  | [b] => "byte 0x" ++ Text.hex 2 b.toNat ++ " in position " ++ Text.ofNat f.position
  | bs => "bytes in position " ++ Text.ofNat f.position ++ "-" ++
      Text.ofNat (f.position + bs.length - 1)

def Utf8Fault.message (f : Utf8Fault) : Text :=
  "'utf-8' codec can't decode " ++ f.place ++ ": " ++ f.problem.message

namespace Utf8

/-- The byte ranges that may follow a first byte, one for each further byte of the sequence; none for
a byte that starts no sequence. -/
def following (b : UInt8) : Option (List (UInt8 × UInt8)) :=
  if b < 0x80 then some []
  else if b < 0xc2 then none
  else if b < 0xe0 then some [(0x80, 0xbf)]
  else if b = 0xe0 then some [(0xa0, 0xbf), (0x80, 0xbf)]
  else if b = 0xed then some [(0x80, 0x9f), (0x80, 0xbf)]
  else if b < 0xf0 then some [(0x80, 0xbf), (0x80, 0xbf)]
  else if b = 0xf0 then some [(0x90, 0xbf), (0x80, 0xbf), (0x80, 0xbf)]
  else if b < 0xf4 then some [(0x80, 0xbf), (0x80, 0xbf), (0x80, 0xbf)]
  else if b = 0xf4 then some [(0x80, 0x8f), (0x80, 0xbf), (0x80, 0xbf)]
  else none

/-- The bits of a first byte that belong to the code point. -/
def leadBits (b : UInt8) : Nat :=
  if b < 0x80 then b.toNat else if b < 0xe0 then b.toNat - 0xc0
  else if b < 0xf0 then b.toNat - 0xe0 else b.toNat - 0xf0

/-- Reads the further bytes of a sequence: how many fit, and the code point if all of them do. -/
def further (n point : Nat) : List (UInt8 × UInt8) → Bytes → Nat × Except Utf8Problem Nat
  | [], _ => (n, .ok point)
  | _ :: _, [] => (n, .error .endOfData)
  | (lo, hi) :: ranges, b :: bs =>
    if lo ≤ b ∧ b ≤ hi then further (n + 1) (point * 64 + (b.toNat - 0x80)) ranges bs
    else (n, .error .badContinuation)

/-- The sequence that a byte starts: how many of the next bytes it takes, and its character. -/
def sequence (b : UInt8) (rest : Bytes) : Nat × Except Utf8Problem Char :=
  match following b with
  | none => (0, .error .badStart)
  | some ranges =>
    let (n, point) := further 0 (leadBits b) ranges rest
    (n, point.map Char.ofNat)

/-- Decodes with U+FFFD for each bad sequence; `skip` bytes belong to the sequence before. -/
def decodeLossy (skip : Nat) : Bytes → Text
  | [] => []
  | b :: bs =>
    match skip with
    | k + 1 => decodeLossy k bs
    | 0 =>
      let (n, c) := sequence b bs
      (match c with | .ok c => c | .error _ => '\uFFFD') :: decodeLossy n bs

/-- Decodes, refusing the first bad sequence; `position` counts the bytes before. -/
def decodeStrict (position skip : Nat) : Bytes → Except Utf8Fault Text
  | [] => .ok []
  | b :: bs =>
    match skip with
    | k + 1 => decodeStrict (position + 1) k bs
    | 0 =>
      match sequence b bs with
      | (n, .ok c) => (decodeStrict (position + 1) n bs).map (c :: ·)
      | (n, .error p) => .error ⟨position, b :: bs.take n, p⟩

/-- The text of a file, with U+FFFD for each maximal bad sequence. -/
def lossy (bytes : Bytes) : Text := decodeLossy 0 bytes

/-- The text of a file that has to be UTF-8. -/
def strict (bytes : Bytes) : Except Utf8Fault Text := decodeStrict 0 0 bytes

/-- The three bytes that may mark a file as UTF-8. -/
def mark : Bytes := [0xef, 0xbb, 0xbf]

/-- The text of a file that has to be UTF-8, without a leading mark. A file that is only a beginning
of the mark is empty. -/
def strictUnmarked (bytes : Bytes) : Except Utf8Fault Text :=
  match mark.isPrefixOf? bytes with
  | some rest => strict rest
  | none => if bytes.isPrefixOf mark then .ok [] else strict bytes

/-- The bytes of a text. -/
def encode (t : Text) : Bytes := t.flatMap String.utf8EncodeChar

end Utf8

/-- Every line end of a text file, carriage return and line feed or either, as a line feed. -/
def Text.unifyLines : Text → Text
  | [] => []
  | '\r' :: '\n' :: cs => '\n' :: unifyLines cs
  | '\r' :: cs => '\n' :: unifyLines cs
  | c :: cs => c :: unifyLines cs

end ActionSweep
