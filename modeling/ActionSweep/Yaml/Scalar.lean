import ActionSweep.Yaml.Cursor
import ActionSweep.Json.Reader
import ActionSweep.Yaml.Fault

/-
Scalars of a YAML text: between quotes, plain, and as blocks of lines. Line ends inside the first two
are folded: one of them is a blank, of several all but the first stay.
-/

namespace ActionSweep.Yaml

/-- A folded line end; `more` are the line ends of the empty lines behind it. -/
def foldedBreak (first : Char) (more : Text) : Text :=
  if breakChar first ≠ '\n' then breakChar first :: more
  else if more.isEmpty then [' '] else more

/-! ## Between quotes -/

/-- The character of a two-character escape. -/
def escape? : Char → Option Char
  | '0' => some '\x00'
  | 'a' => some '\x07'
  | 'b' => some '\x08'
  | 't' => some '\t'
  | '\t' => some '\t'
  | 'n' => some '\n'
  | 'v' => some '\x0b'
  | 'f' => some '\x0c'
  | 'r' => some '\r'
  | 'e' => some '\x1b'
  | ' ' => some ' '
  | '"' => some '"'
  | '\\' => some '\\'
  | '/' => some '/'
  | 'N' => some '\x85'
  | '_' => some '\xa0'
  | 'L' => some '\u2028'
  | 'P' => some '\u2029'
  | _ => none

/-- How many hexadecimal digits an escape has. -/
def escapeWidth? : Char → Option Nat
  | 'x' => some 2
  | 'u' => some 4
  | 'U' => some 8
  | _ => none

/-- The largest number of a character. -/
def largestChar : Nat := 0x10ffff

/-- The code point that some hexadecimal digits name, which may be half of a pair. -/
def namedPoint (width : Nat) (t : Text) : Except YamlFault Nat := do
  let digits ← orMalformed ((t.take width).mapM Json.hexDigit?)
  let code := Numeral.ofDigits 16 digits
  if digits.length ≠ width then throw .malformed
  else if largestChar < code then throw (.noCharacter code)
  else return code

/-- The line ends of empty lines, and what follows them; none at a mark between documents. -/
def emptyLines : Nat → Text → Option (Text × Text)
  | 0, _ => none
  | n + 1, t =>
    if atAnyMark t then none
    else match t.dropWhile isInner with
      | [] => some ([], [])
      | c :: rest =>
        if isBreak c then (emptyLines n rest).map fun (more, rest) => (breakChar c :: more, rest)
        else some ([], c :: rest)

/-- The code points from a character on that is neither blank nor line end, and what follows the closing
quote; `go` reads on behind such characters. -/
def quotedPoint (double : Bool) (n : Nat) (go : Text → Except YamlFault (Points × Text)) (c : Char)
    (rest : Text) : Except YamlFault (Points × Text) :=
  match double, c, rest with
  | true, '"', rest => .ok ([], rest)
  | false, '\'', '\'' :: rest => (go rest).map fun (b, r) => ('\''.toNat :: b, r)
  | false, '\'', rest => .ok ([], rest)
  | true, '\\', e :: rest =>
    match escape? e with
    | some c => (go rest).map fun (b, r) => (c.toNat :: b, r)
    | none =>
      if isBreak e then do
        let (more, rest) ← orMalformed (emptyLines n rest)
        let (body, rest) ← go rest
        return (.ofText more ++ body, rest)
      else do
        let width ← orMalformed (escapeWidth? e)
        let p ← namedPoint width rest
        let (body, rest) ← go (rest.drop width)
        return (p :: body, rest)
  | true, '\\', [] => .error .malformed
  | _, c, rest => (go rest).map fun (b, r) => (c.toNat :: b, r)

/-- The code points up to the closing quote, and what follows the quote. -/
def quotedRest (double : Bool) : Nat → Text → Except YamlFault (Points × Text)
  | 0, _ => .error .malformed
  | n + 1, t => do
    let inner := t.takeWhile isInner
    match t.dropWhile isInner with
    | [] => throw .malformed
    | c :: rest =>
      if isBreak c then
        let (more, rest) ← orMalformed (emptyLines n rest)
        let (body, rest) ← quotedRest double n rest
        return (.ofText (foldedBreak c more) ++ body, rest)
      else
        let (body, rest) ← quotedPoint double n (quotedRest double n) c rest
        return (.ofText inner ++ body, rest)

/-- The text of a scalar behind its opening quote, and what follows the closing one. -/
def quotedScalar (double : Bool) (t : Text) : Except YamlFault (Text × Text) :=
  (quotedRest double (t.length + 1) t).map fun (body, rest) => (body.text, rest)

/-! ## Plain -/

/-- The characters that have a meaning inside brackets. -/
def isFlowChar (c : Char) : Bool := c = ',' || c = '[' || c = ']' || c = '\x7b' || c = '\x7d'

/-- Whether a plain scalar ends before a text. -/
def endsPlain (flow : Bool) (t : Text) : Bool :=
  atGap t || match t with
    | ':' :: rest => atGap rest || (flow && (rest.take 1).any isFlowChar)
    | c :: _ => flow && (isFlowChar c || c = '?')
    | [] => true

/-- The part of a plain scalar up to its end or the next blank, and what follows. -/
def plainRun (flow : Bool) : Text → Text × Text
  | [] => ([], [])
  | c :: rest =>
    if endsPlain flow (c :: rest) then ([], c :: rest)
    else
      let (run, rest) := plainRun flow rest
      (c :: run, rest)

/-- The line ends and blanks in front of the next line with a word, and what follows; no line ends
are given at a mark between documents. -/
def plainLines : Text → Option Text × Text
  | [] => (some [], [])
  | c :: rest =>
    if c = ' ' then plainLines rest
    else if isBreak c then
      if atAnyMark rest then (none, rest)
      else
        let (more, rest) := plainLines rest
        (more.map (breakChar c :: ·), rest)
    else (some [], c :: rest)

/-- What stands between two words of a plain scalar, whether it has a line end, and what follows. -/
def plainGap (t : Text) : Text × Bool × Text :=
  let blanks := t.takeWhile (· = ' ')
  match t.dropWhile (· = ' ') with
  | [] => (blanks, false, [])
  | c :: rest =>
    if isBreak c then
      if atAnyMark rest then ([], true, rest)
      else
        let (more, rest) := plainLines rest
        ((more.map (foldedBreak c)).getD [], true, rest)
    else (blanks, false, c :: rest)

/-- A plain scalar: its text, whether a line ended behind it, and the place where it ends. Outside
brackets further lines begin at a column of their own at least. -/
def plainRest (flow : Bool) (column : Nat) : Nat → Text → Bool → Cursor → Text × Bool × Cursor
  | 0, _, ended, at_ => ([], ended, at_)
  | n + 1, gap, ended, at_ =>
    if ['#'].isPrefixOf at_.rest then ([], ended, at_)
    else
      let (run, rest) := plainRun flow at_.rest
      if run.isEmpty then ([], ended, at_)
      else
        let (next, ended, rest) := plainGap rest
        let at_ := at_.goTo rest
        if next.isEmpty || (!flow && at_.column < column) then (gap ++ run, ended, at_)
        else
          let (more, ended, at_) := plainRest flow column n next ended at_
          (gap ++ run ++ more, ended, at_)

def plainScalar (flow : Bool) (column : Nat) (at_ : Cursor) : Text × Bool × Cursor :=
  plainRest flow column (at_.rest.length + 1) [] false at_

/-! ## Blocks of lines -/

/-- What happens to the line ends at the end of a block. -/
inductive Chomp
  | strip
  | clip
  | keep
deriving Repr, DecidableEq

def Chomp.ofChar? : Char → Option Chomp
  | '-' => some .strip
  | '+' => some .keep
  | _ => none

/-- The indentation that a digit asks for. -/
def indentation? (c : Char) : Option Nat :=
  if '1' ≤ c ∧ c ≤ '9' then some (c.toNat - '0'.toNat) else none

/-- The letters behind the mark of a block: a sign and a digit in either order. -/
def blockHeader (t : Text) : Option (Chomp × Option Nat × Text) :=
  let (sign, t₁) := match t with
    | c :: rest => ((Chomp.ofChar? c), if (Chomp.ofChar? c).isSome then rest else t)
    | [] => (none, t)
  let (digit, t₂) := match t₁ with
    | c :: rest => (indentation? c, if (indentation? c).isSome then rest else t₁)
    | [] => (none, t₁)
  let (sign, t₃) := match sign, digit, t₂ with
    | none, some _, c :: rest => (Chomp.ofChar? c, if (Chomp.ofChar? c).isSome then rest else t₂)
    | sign, _, _ => (sign, t₂)
  if atEnd t₃ then some (sign.getD .clip, digit, t₃) else none

/-- What follows a line of which only a comment may be left. -/
def afterComment (t : Text) : Option Text :=
  let rest := t.dropWhile (· = ' ')
  match if ['#'].isPrefixOf rest then rest.dropWhile (!isBreak ·) else rest with
  | [] => some []
  | c :: rest => if isBreak c then some rest else none

/-- Lines of blanks: their line ends, the widest column, the column reached, and what follows. -/
def blankLines (column widest : Nat) : Text → Text × Nat × Nat × Text
  | [] => ([], widest, column, [])
  | c :: rest =>
    if c = ' ' then blankLines (column + 1) (max widest (column + 1)) rest
    else if isBreak c then
      let (more, widest, column, rest) := blankLines 0 widest rest
      (breakChar c :: more, widest, column, rest)
    else ([], widest, column, c :: rest)

/-- Lines that are empty apart from indentation: their line ends, the column reached, what follows. -/
def indentedLines (indent column : Nat) : Text → Text × Nat × Text
  | [] => ([], column, [])
  | c :: rest =>
    if c = ' ' && column < indent then indentedLines indent (column + 1) rest
    else if isBreak c then
      let (more, column, rest) := indentedLines indent 0 rest
      (breakChar c :: more, column, rest)
    else ([], column, c :: rest)

/-- The lines of a block: text, the last line end, the line ends of empty lines behind it, and what
follows. A folded line end becomes a blank between two lines that do not begin with blanks. -/
def blockLines (folding : Bool) (indent : Nat) :
    Nat → Text → Nat → Text → Text × Text × Text × Text
  | 0, breaks, _, t => ([], [], breaks, t)
  | n + 1, breaks, column, t =>
    if column ≠ indent || t.isEmpty then ([], [], breaks, t)
    else
      let flush (t : Text) : Bool := !(t.take 1).any isInner
      let line := t.takeWhile (!isBreak ·)
      let (last, rest) := match t.dropWhile (!isBreak ·) with
        | [] => ([], [])
        | c :: rest => ([breakChar c], rest)
      let (more, column, rest) := indentedLines indent 0 rest
      if column ≠ indent || rest.isEmpty then (breaks ++ line, last, more, rest)
      else
        let seam := if folding && last = ['\n'] && flush t && flush rest then
            (if more.isEmpty then [' '] else [])
          else last
        let (text, last, final, rest) := blockLines folding indent n more column rest
        (breaks ++ line ++ seam ++ text, last, final, rest)

/-- The text of a block behind its mark, and what follows it. Its lines are indented by `least`
columns at least. -/
def blockScalar (folding : Bool) (least : Nat) (t : Text) : Option (Text × Text) := do
  let (chomp, digit, rest) ← blockHeader t
  let rest ← afterComment rest
  let least := max least 1
  let (indent, breaks, column, rest) := match digit with
    | some d =>
      let (breaks, column, rest) := indentedLines (least + d - 1) 0 rest
      (least + d - 1, breaks, column, rest)
    | none =>
      let (breaks, widest, column, rest) := blankLines 0 0 rest
      (max least widest, breaks, column, rest)
  let (text, last, final, rest) := blockLines folding indent (rest.length + 1) breaks column rest
  let tail := match chomp with
    | .strip => []
    | .clip => last
    | .keep => last ++ final
  return (text ++ tail, rest)

end ActionSweep.Yaml
