import ActionSweep.Text.Digit
import ActionSweep.Text.Points
import ActionSweep.Value.Basic

/-
JSON text to values. A fault carries the rest of the text from the place it is about, so its position
is the length of what precedes that rest. Reading is by recursion on a budget of steps that the
length of the text always covers; how deep brackets nest is limited on its own.
-/

namespace ActionSweep

/-- The two kinds of brackets. -/
inductive Bracket
  | array
  | object
deriving Repr, DecidableEq

/-- Why a text is not a JSON document. -/
inductive JsonProblem
  | expectingValue
  | expectingName
  | expectingColon
  | expectingComma
  | unterminated
  | controlCharacter
  | badEscape
  | badUnicodeEscape
  | extraData
  | marked
  /-- An integer of more digits than are read at once. -/
  | longNumeral (digits : Nat)
  /-- Brackets nested too deep. -/
  | nesting (innermost : Bracket)
deriving Repr, DecidableEq

/-- A problem and the text from the place on where it was met. -/
structure JsonStop where
  problem : JsonProblem
  rest : Text
deriving Repr, DecidableEq

/-- A problem and the number of characters before it, with the line and the column, from one. -/
structure JsonFault where
  problem : JsonProblem
  position : Nat
  line : Nat
  column : Nat
deriving Repr, DecidableEq

namespace Json

/-- The four blanks of JSON. -/
def isSpace (c : Char) : Bool := c = ' ' || c = '\t' || c = '\n' || c = '\r'

def skipSpace (t : Text) : Text := t.dropWhile isSpace

/-! ## Strings -/

def hexDigit? (c : Char) : Option Nat :=
  if '0' ≤ c ∧ c ≤ '9' then some (c.toNat - '0'.toNat)
  else if 'a' ≤ c ∧ c ≤ 'f' then some (c.toNat - 'a'.toNat + 10)
  else if 'A' ≤ c ∧ c ≤ 'F' then some (c.toNat - 'A'.toNat + 10)
  else none

/-- Four hexadecimal digits, as a UTF-16 unit. -/
def unit? : Text → Option Nat
  | [a, b, c, d] => do
    let high := (← hexDigit? a) * 16 + (← hexDigit? b)
    return (high * 16 + (← hexDigit? c)) * 16 + (← hexDigit? d)
  | _ => none

/-- The character of a two-character escape. -/
def shortEscape? : Char → Option Char
  | '"' => some '"'
  | '\\' => some '\\'
  | '/' => some '/'
  | 'b' => some '\x08'
  | 'f' => some '\x0c'
  | 'n' => some '\n'
  | 'r' => some '\r'
  | 't' => some '\t'
  | _ => none

/-- Four hexadecimal digits and the text after them, which may not be empty. -/
def unitEscape? (t : Text) : Option (Nat × Text) :=
  if t.length ≤ 4 then none else (unit? (t.take 4)).map fun n => (n, t.drop 4)

/-- The code point of the next character or escape inside a string, with what follows it. Two escapes
that make a pair are one code point. -/
def stringPoint : Text → Except JsonStop (Nat × Text)
  | [] => .error ⟨.unterminated, []⟩
  | '\\' :: 'u' :: cs =>
    match unitEscape? cs with
    | none => .error ⟨.badUnicodeEscape, 'u' :: cs⟩
    | some (high, rest) =>
      match rest with
      | '\\' :: 'u' :: ds =>
        if Points.isHigh high ∧ 4 < ds.length then
          match unitEscape? ds with
          | none => .error ⟨.badUnicodeEscape, 'u' :: ds⟩
          | some (low, rest') =>
            if Points.isLow low then .ok (Points.pair high low, rest') else .ok (high, rest)
        else .ok (high, rest)
      | _ => .ok (high, rest)
  | ['\\'] => .error ⟨.unterminated, []⟩
  | '\\' :: c :: cs =>
    match shortEscape? c with
    | some d => .ok (d.toNat, cs)
    | none => .error ⟨.badEscape, '\\' :: c :: cs⟩
  | c :: cs =>
    if c.toNat < 0x20 then .error ⟨.controlCharacter, c :: cs⟩ else .ok (c.toNat, cs)

/-- The code points up to the closing quote, and what follows it; `start` is the text from the opening
quote on. -/
def stringBody (start : Text) : Nat → Text → Except JsonStop (Points × Text)
  | 0, _ => .error ⟨.unterminated, start⟩
  | _ + 1, '"' :: rest => .ok ([], rest)
  | n + 1, t =>
    match stringPoint t with
    | .error stop =>
      .error (if stop.problem = .unterminated then ⟨.unterminated, start⟩ else stop)
    | .ok (p, rest) =>
      match stringBody start n rest with
      | .ok (ps, rest') => .ok (p :: ps, rest')
      | .error stop => .error stop

/-- The code points of the string whose opening quote has been read, in at most `n` steps. -/
def points (n : Nat) (t : Text) : Except JsonStop (Points × Text) := stringBody ('"' :: t) n t

/-- The text of the string whose opening quote has been read, in at most `n` steps. -/
def string (n : Nat) (t : Text) : Except JsonStop (Text × Text) :=
  (points n t).map fun (ps, rest) => (ps.text, rest)

/-! ## Numbers -/

def isDigit (c : Char) : Bool := '0' ≤ c && c ≤ '9'

/-- The number with the given decimal digits. -/
def digitsValue (ds : Text) : Nat := ds.foldl (fun n c => 10 * n + (c.toNat - '0'.toNat)) 0

/-- The digits of the whole part: a zero alone, or digits that start with another. -/
def wholeDigits : Text → Text × Text
  | '0' :: cs => (['0'], cs)
  | cs => (cs.takeWhile isDigit, cs.dropWhile isDigit)

/-- A point with digits after it, if there is one: those digits and the rest. -/
def fraction? : Text → Option (Text × Text)
  | '.' :: cs =>
    if (cs.takeWhile isDigit).isEmpty then none else some (cs.takeWhile isDigit, cs.dropWhile isDigit)
  | _ => none

/-- An exponent part, if there is one: its value and the rest. -/
def exponent? : Text → Option (Int × Text)
  | e :: cs =>
    if e = 'e' || e = 'E' then
      let (negative, ds) := match cs with
        | '-' :: ds => (true, ds)
        | '+' :: ds => (false, ds)
        | ds => (false, ds)
      let digits := ds.takeWhile isDigit
      if digits.isEmpty then none
      else some (if negative then -(digitsValue digits : Int) else digitsValue digits,
        ds.dropWhile isDigit)
    else none
  | [] => none

/-- The longest number that the text starts with. -/
def number (t : Text) : Except JsonStop (Value × Text) :=
  let (negative, body) := match t with
    | '-' :: cs => (true, cs)
    | cs => (false, cs)
  let (whole, afterWhole) := wholeDigits body
  if whole.isEmpty then .error ⟨.expectingValue, t⟩
  else
    let (fraction, afterFraction) := (fraction? afterWhole).getD ([], afterWhole)
    match exponent? afterFraction with
    | some (e, rest) =>
      .ok (.float (floatOfDecimal negative (digitsValue (whole ++ fraction)) (e - fraction.length)),
        rest)
    | none =>
      if !fraction.isEmpty then
        .ok (.float (floatOfDecimal negative (digitsValue (whole ++ fraction)) (-fraction.length)),
          afterFraction)
      else if whole.length > numeralLimit then .error ⟨.longNumeral whole.length, t⟩
      else .ok (.int (if negative then -(digitsValue whole : Int) else digitsValue whole), afterWhole)

/-! ## Values -/

/-- The words that stand for values. -/
def wordValues : List (Text × Value) :=
  [("null", .null), ("true", .bool true), ("false", .bool false), ("NaN", .float (0.0 / 0.0)),
   ("Infinity", .float (1.0 / 0.0)), ("-Infinity", .float (-1.0 / 0.0))]

/-- The value of the word that the text starts with, and what follows it. -/
def word? (t : Text) : Option (Value × Text) :=
  wordValues.findSome? fun w => (w.1.isPrefixOf? t).map fun rest => (w.2, rest)

mutual

/-- The value that the text starts with; `room` more brackets may open inside it. -/
def value (room : Nat) : Nat → Text → Except JsonStop (Value × Text)
  | 0, t => .error ⟨.expectingValue, t⟩
  | n + 1, t =>
    match t with
    | [] => .error ⟨.expectingValue, []⟩
    | '"' :: cs => (string n cs).map fun (s, rest) => (.text s, rest)
    | '[' :: cs =>
      if room = 0 then .error ⟨.nesting .array, t⟩
      else match skipSpace cs with
        | ']' :: rest => .ok (.list [], rest)
        | cs => (elements (room - 1) n cs).map fun (vs, rest) => (.list vs, rest)
    | '\x7b' :: cs =>
      if room = 0 then .error ⟨.nesting .object, t⟩
      else match skipSpace cs with
        | '\x7d' :: rest => .ok (.object [], rest)
        | cs => (members (room - 1) n cs).map fun (fs, rest) => (.object (Value.mergeFields fs), rest)
    | cs =>
      match word? cs with
      | some found => .ok found
      | none => number cs

/-- The values of a list up to its closing bracket. -/
def elements (room : Nat) : Nat → Text → Except JsonStop (List Value × Text)
  | 0, t => .error ⟨.expectingValue, t⟩
  | n + 1, t =>
    match value room n t with
    | .error stop => .error stop
    | .ok (v, rest) =>
      match skipSpace rest with
      | ']' :: rest => .ok ([v], rest)
      | ',' :: rest => (elements room n (skipSpace rest)).map fun (vs, rest) => (v :: vs, rest)
      | rest => .error ⟨.expectingComma, rest⟩

/-- The fields of an object up to its closing bracket. -/
def members (room : Nat) : Nat → Text → Except JsonStop (List (Text × Value) × Text)
  | 0, t => .error ⟨.expectingName, t⟩
  | n + 1, t =>
    match t with
    | '"' :: cs =>
      match string n cs with
      | .error stop => .error stop
      | .ok (name, rest) =>
        match skipSpace rest with
        | ':' :: rest =>
          match value room n (skipSpace rest) with
          | .error stop => .error stop
          | .ok (v, rest) =>
            match skipSpace rest with
            | '\x7d' :: rest => .ok ([(name, v)], rest)
            | ',' :: rest =>
              (members room n (skipSpace rest)).map fun (fs, rest) => ((name, v) :: fs, rest)
            | rest => .error ⟨.expectingComma, rest⟩
        | rest => .error ⟨.expectingColon, rest⟩
    | t => .error ⟨.expectingName, t⟩

end

/-- A budget of steps that no text uses up: two for each character. -/
def steps (t : Text) : Nat := 2 * t.length + 2

/-- The one value of a text, with white space around it; brackets nest at most `room` deep. -/
def document (room : Nat) (t : Text) : Except JsonStop Value :=
  match t with
  | '\uFEFF' :: _ => .error ⟨.marked, t⟩
  | _ =>
    match value room (steps t) (skipSpace t) with
    | .error stop => .error stop
    | .ok (v, rest) =>
      match skipSpace rest with
      | [] => .ok v
      | rest => .error ⟨.extraData, rest⟩

/-- A problem with its place in the text. -/
def locate (t : Text) (stop : JsonStop) : JsonFault :=
  let before := t.take (t.length - stop.rest.length)
  ⟨stop.problem, before.length, before.count '\n' + 1,
    (before.reverse.takeWhile (· ≠ '\n')).length + 1⟩

/-- Reads a text as a JSON document whose brackets nest at most `room` deep. -/
def readWithin (room : Nat) (t : Text) : Except JsonFault Value :=
  match document room t with
  | .ok v => .ok v
  | .error stop => .error (locate t stop)

end Json

/-- A problem in words, without its place. -/
def JsonProblem.message : JsonProblem → Text
  | expectingValue => "Expecting value"
  | expectingName => "Expecting property name enclosed in double quotes"
  | expectingColon => "Expecting ':' delimiter"
  | expectingComma => "Expecting ',' delimiter"
  | unterminated => "Unterminated string starting at"
  | controlCharacter => "Invalid control character at"
  | badEscape => "Invalid \\escape"
  | badUnicodeEscape => "Invalid \\uXXXX escape"
  | extraData => "Extra data"
  | marked => "Unexpected UTF-8 BOM (decode using utf-8-sig)"
  | longNumeral digits => (NumeralFault.tooLong digits).message
  | nesting .array => "maximum recursion depth exceeded while decoding a JSON array from a unicode string"
  | nesting .object => "maximum recursion depth exceeded while decoding a JSON object from a unicode string"

def JsonFault.message (f : JsonFault) : Text :=
  match f.problem with
  | .longNumeral _ | .nesting _ => f.problem.message
  | p => p.message ++ ": line " ++ Text.ofNat f.line ++ " column " ++ Text.ofNat f.column ++
      " (char " ++ Text.ofNat f.position ++ ")"

end ActionSweep
