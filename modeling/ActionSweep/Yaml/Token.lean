import ActionSweep.Text.Utf8
import ActionSweep.Yaml.Scalar

/-
The tokens of a YAML text. Indentation becomes tokens of its own: blocks open where a line is
indented further than the block around it and close where a line is indented less. That something
was a key is known only at the colon behind it, so the tokens for the key and its block are then put
in where it began; keys without a mark of their own are one line long and at most 1024 characters.
-/

namespace ActionSweep.Yaml

/-- A tag as it is written: the handle of a group of tags, if it has one, and what follows it. -/
structure TagName where
  handle : Option Text
  suffix : Text
deriving Repr, DecidableEq

inductive Token
  /-- A line that names the version of the format. -/
  | version (major : Nat)
  /-- A line that says what the handle of a group of tags stands for. -/
  | tagGroup (handle meaning : Text)
  /-- A line with an instruction that is not known. -/
  | instruction
  | documentStart
  | documentEnd
  | listStart
  | mappingStart
  | blockEnd
  | flowListStart
  | flowListEnd
  | flowMappingStart
  | flowMappingEnd
  | item
  | comma
  | key
  | value
  | alias (name : Text)
  | anchor (name : Text)
  | tag (name : TagName)
  | scalar (plain : Bool) (text : Text)
  | endOfText
deriving Repr, DecidableEq

/-- A place where a key may have begun: the tokens before it, and whether it has to be one. -/
structure KeyStart where
  position : Nat
  required : Bool
  index : Nat
  line : Nat
  column : Nat

/-- The state of reading tokens: the place, the tokens so far (last first), the depth of brackets, the
columns of the open blocks (innermost first), whether a key may begin here, and where keys may have
begun, by depth of brackets. -/
structure Lexer where
  place : Cursor
  tokens : List Token
  depth : Nat
  columns : List Nat
  mayBeginKey : Bool
  keys : List (Nat × KeyStart)

namespace Lexer

/-- The beginning of a text. A byte order mark in front of it does not count. -/
def start (t : Text) : Lexer :=
  ⟨.start ((Text.dropBeginning? ['\uFEFF'] t).getD t), [], 0, [], true, []⟩

def add (l : Lexer) (t : Token) : Lexer := { l with tokens := t :: l.tokens }

/-- Puts a token behind the first tokens of a number. -/
def insert (l : Lexer) (position : Nat) (t : Token) : Lexer :=
  let behind := l.tokens.length - position
  { l with tokens := l.tokens.take behind ++ t :: l.tokens.drop behind }

def goTo (l : Lexer) (rest : Text) : Lexer := { l with place := l.place.goTo rest }

def allowKey (l : Lexer) (b : Bool) : Lexer := { l with mayBeginKey := b }

/-! ## Blocks -/

/-- The column of the innermost open block. -/
def column? (l : Lexer) : Option Nat := l.columns.head?

/-- Whether a column is inside the innermost open block. -/
def isDeeper (l : Lexer) (column : Nat) : Bool :=
  match l.column? with
  | some c => c < column
  | none => true

/-- The first column inside the innermost open block. -/
def innerColumn (l : Lexer) : Nat :=
  match l.column? with
  | some c => c + 1
  | none => 0

/-- Closes blocks until one satisfies a condition. -/
def closeBlocks (stays : Nat → Bool) (l : Lexer) : Lexer :=
  let closed := l.columns.takeWhile (!stays ·)
  { l with
    columns := l.columns.drop closed.length
    tokens := List.replicate closed.length .blockEnd ++ l.tokens }

/-- Closes the blocks further inside than a column. Brackets keep all blocks open. -/
def closeBeyond (column : Nat) (l : Lexer) : Lexer :=
  if l.depth = 0 then l.closeBlocks (· ≤ column) else l

def closeAll (l : Lexer) : Lexer := if l.depth = 0 then l.closeBlocks fun _ => false else l

/-- Opens a block at a column, with a token at a position, if the column is deep enough. -/
def openBlock (l : Lexer) (column position : Nat) (t : Token) : Lexer :=
  if l.depth = 0 && l.isDeeper column then
    { l.insert position t with columns := column :: l.columns }
  else l

/-- Opens a block here. -/
def openHere (l : Lexer) (t : Token) : Lexer := l.openBlock l.place.column l.tokens.length t

/-! ## Keys -/

/-- Gives up the key that may have begun at the present depth, which is a fault if it is required. -/
def dropKey (l : Lexer) : Option Lexer :=
  if l.keys.any fun k => k.1 = l.depth && k.2.required then none
  else some { l with keys := l.keys.filter (·.1 ≠ l.depth) }

/-- Notes that a key may begin here. At the column of a block it has to be one. -/
def noteKey (l : Lexer) : Option Lexer :=
  if l.mayBeginKey then do
    let required := l.depth = 0 && l.column? = some l.place.column
    let l ← l.dropKey
    let place := l.place
    let key := ⟨l.tokens.length, required, place.index, place.line, place.column⟩
    return { l with keys := l.keys ++ [(l.depth, key)] }
  else some l

/-- The longest key without a mark of its own. -/
def keyLimit : Nat := 1024

/-- Whether a key that may have begun is too long, or a line end has ended it. -/
def isStale (l : Lexer) (k : KeyStart) : Bool :=
  k.line ≠ l.place.line || keyLimit < l.place.index - k.index

/-- Gives up the keys that are too long or that a line end has ended. -/
def dropStaleKeys (l : Lexer) : Option Lexer :=
  if l.keys.any fun k => l.isStale k.2 && k.2.required then none
  else some { l with keys := l.keys.filter fun k => !l.isStale k.2 }

/-! ## Between tokens -/

/-- The place of the next token: behind blanks, comments and line ends; and whether a line ended. -/
def gap : Nat → Text → Bool × Text
  | 0, t => (false, t)
  | n + 1, t =>
    let rest := t.dropWhile (· = ' ')
    match if ['#'].isPrefixOf rest then rest.dropWhile (!isBreak ·) else rest with
    | [] => (false, [])
    | c :: rest => if isBreak c then (true, (gap n rest).2) else (false, c :: rest)

/-- Goes to the next token. Outside brackets a key may begin on a new line. -/
def skipGap (l : Lexer) : Lexer :=
  let (ended, rest) := gap (l.place.rest.length + 1) l.place.rest
  (l.goTo rest).allowKey (l.mayBeginKey || (ended && l.depth = 0))

/-! ## Tokens -/

/-- Characters of names. -/
def isNameChar (c : Char) : Bool :=
  ('0' ≤ c && c ≤ '9') || ('A' ≤ c && c ≤ 'Z') || ('a' ≤ c && c ≤ 'z') || c = '-' || c = '_'

/-- The name of an alias or anchor, and what follows it. -/
def name? (t : Text) : Option (Text × Text) :=
  let name := t.takeWhile isNameChar
  let rest := t.dropWhile isNameChar
  let ends := atGap rest ||
    (rest.take 1).any fun c => "?:,]\x7d%@\x60".toList.contains c
  if name.isEmpty || !ends then none else some (name, rest)

/-- Characters of tags. -/
def isTagChar (c : Char) : Bool :=
  isNameChar c || "-;/?:@&=+$,_.!~*'()[]".toList.contains c

/-- The bytes that percent signs with two hexadecimal digits each name at the beginning of a text, and
what follows them; none if digits are missing. -/
def escapedBytes? : Text → Option (Bytes × Text)
  | '%' :: high :: low :: rest => do
    let b := 16 * (← Json.hexDigit? high) + (← Json.hexDigit? low)
    let (bytes, rest) ← escapedBytes? rest
    return (b.toUInt8 :: bytes, rest)
  | '%' :: _ => none
  | rest => some ([], rest)

/-- The part of a tag at the beginning of a text, with escaped characters written out, and what
follows it. -/
def tagPart? : Nat → Text → Option (Text × Text)
  | 0, t => some ([], t)
  | n + 1, t =>
    let run := t.takeWhile isTagChar
    match t.dropWhile isTagChar with
    | '%' :: rest => do
      let (bytes, rest) ← escapedBytes? ('%' :: rest)
      let escaped ← (Utf8.strict bytes).toOption
      let (more, rest) ← tagPart? n rest
      return (run ++ escaped ++ more, rest)
    | rest => some (run, rest)

/-- A part of a tag that is not empty, and what follows it. -/
def tagUri? (t : Text) : Option (Text × Text) := do
  let (part, rest) ← tagPart? (t.length + 1) t
  if rest.length = t.length then none else return (part, rest)

/-- A tag, behind its exclamation mark. -/
def tag? (t : Text) : Option (TagName × Text) := do
  let (name, rest) ← match t with
    | '<' :: rest =>
      match ← tagUri? rest with
      | (suffix, '>' :: rest) => some (⟨none, suffix⟩, rest)
      | _ => none
    | rest =>
      if atGap rest then some (⟨none, ['!']⟩, rest)
      else
        let word := rest.takeWhile fun c => c ≠ ' ' && !isBreak c
        let (handle, rest) := if word.contains '!' then
            ('!' :: word.takeWhile (· ≠ '!') ++ ['!'], (rest.dropWhile (· ≠ '!')).drop 1)
          else (['!'], rest)
        if !(handle.filter (· ≠ '!')).all isNameChar then none
        else (tagUri? rest).map fun (suffix, rest) => (⟨some handle, suffix⟩, rest)
  if atEnd rest then some (name, rest) else none

/-- A whole number, and what follows it. -/
def number? (t : Text) : Option (Nat × Text) :=
  let digits := t.takeWhile Char.isDigit
  if digits.isEmpty then none
  else some (digits.foldl (fun n c => 10 * n + (c.toNat - '0'.toNat)) 0, t.dropWhile Char.isDigit)

/-- A line with an instruction, behind its percent sign. -/
def instruction? (t : Text) : Option (Token × Text) := do
  let name := t.takeWhile isNameChar
  let rest := t.dropWhile isNameChar
  if name.isEmpty || !atEnd rest then none
  else if name = "YAML" then
    let (major, rest) ← number? (rest.dropWhile (· = ' '))
    match rest with
    | '.' :: rest =>
      let (_, rest) ← number? rest
      if atEnd rest then return (.version major, ← afterComment rest) else none
    | _ => none
  else if name = "TAG" then
    let rest := rest.dropWhile (· = ' ')
    let handle := rest.takeWhile fun c => c = '!' || isNameChar c
    let rest := rest.dropWhile fun c => c = '!' || isNameChar c
    let (meaning, after) ← tagUri? (rest.dropWhile (· = ' '))
    if !(['!'].isPrefixOf handle) || !(['!'].isSuffixOf handle) || !([' '].isPrefixOf rest) ||
        !atEnd after then none
    else return (.tagGroup handle meaning, ← afterComment after)
  else return (.instruction, ← afterComment (rest.dropWhile (!isBreak ·)))

/-- A mark between documents or a line with an instruction: everything before is closed. -/
def betweenDocuments (l : Lexer) (t : Token) (rest : Text) : Option Lexer := do
  let l ← l.closeAll.dropKey
  return ((l.goTo rest).add t).allowKey false

/-- The end of the text. -/
def finish (l : Lexer) : Option Lexer := do
  let l ← l.closeAll.dropKey
  return l.add .endOfText

/-- An opening bracket. -/
def openBracket (l : Lexer) (t : Token) (rest : Text) : Option Lexer := do
  let l ← l.noteKey
  return { ((l.goTo rest).add t).allowKey true with depth := l.depth + 1 }

/-- A closing bracket. -/
def closeBracket (l : Lexer) (t : Token) (rest : Text) : Option Lexer := do
  if l.depth = 0 then none
  else
    let l ← l.dropKey
    return { ((l.goTo rest).add t).allowKey false with depth := l.depth - 1 }

def comma (l : Lexer) (rest : Text) : Option Lexer := do
  let l ← l.dropKey
  return ((l.goTo rest).add .comma).allowKey true

/-- The mark of a list item. -/
def item (l : Lexer) (rest : Text) : Option Lexer := do
  if l.depth = 0 && !l.mayBeginKey then none
  else
    let l ← (l.openHere .listStart).dropKey
    return ((l.goTo rest).add .item).allowKey true

/-- The mark in front of a key. -/
def key (l : Lexer) (rest : Text) : Option Lexer := do
  if l.depth = 0 && !l.mayBeginKey then none
  else
    let l ← (l.openHere .mappingStart).dropKey
    return ((l.goTo rest).add .key).allowKey (l.depth = 0)

/-- The mark in front of a value. If a key may have begun at this depth, it did. -/
def value (l : Lexer) (rest : Text) : Option Lexer :=
  match l.keys.find? (·.1 = l.depth) with
  | some (_, k) =>
    let l := { l with keys := l.keys.filter (·.1 ≠ l.depth) }
    let l := (l.insert k.position .key).openBlock k.column k.position .mappingStart
    some (((l.goTo rest).add .value).allowKey false)
  | none => do
    if l.depth = 0 && !l.mayBeginKey then none
    else
      let l ← (l.openHere .mappingStart).dropKey
      return ((l.goTo rest).add .value).allowKey (l.depth = 0)

/-- A token with which a key may begin. -/
def word (l : Lexer) (t : Token) (rest : Text) : Option Lexer := do
  return (((← l.noteKey).goTo rest).add t).allowKey false

/-- A block of lines. -/
def block (l : Lexer) (folding : Bool) (rest : Text) : Option Lexer := do
  let l ← l.dropKey
  let (text, rest) ← blockScalar folding l.innerColumn rest
  return ((l.goTo rest).add (.scalar false text)).allowKey true

/-- A plain scalar. -/
def plain (l : Lexer) : Option Lexer := do
  let l ← l.noteKey
  let (text, ended, place) := plainScalar (l.depth ≠ 0) l.innerColumn l.place
  return ({ l with place := place }.add (.scalar true text)).allowKey ended

/-- Whether a plain scalar can begin with a character that is followed by some text. -/
def beginsPlain (l : Lexer) (c : Char) (rest : Text) : Bool :=
  !(isInner c || isBreak c || "-?:,[]\x7b\x7d#&*!|>'\"%@\x60".toList.contains c) ||
    (!atGap rest && (c = '-' || (l.depth = 0 && (c = '?' || c = ':'))))

/-- Reads a token that is no text between quotes, at a place that is not the end of the text. -/
def bareToken (l : Lexer) (c : Char) (rest : Text) : Option Lexer :=
  let t := c :: rest
  let first : Bool := l.place.column = 0
  let flow : Bool := l.depth ≠ 0
  if first && c = '%' then do
    let (t, rest) ← instruction? rest
    l.betweenDocuments t rest
  else if first && atMark startMark t then l.betweenDocuments .documentStart (t.drop startMark.length)
  else if first && atMark endMark t then l.betweenDocuments .documentEnd (t.drop endMark.length)
  else if c = '[' then l.openBracket .flowListStart rest
  else if c = '\x7b' then l.openBracket .flowMappingStart rest
  else if c = ']' then l.closeBracket .flowListEnd rest
  else if c = '\x7d' then l.closeBracket .flowMappingEnd rest
  else if c = ',' then l.comma rest
  else if c = '-' && atGap rest then l.item rest
  else if c = '?' && (flow || atGap rest) then l.key rest
  else if c = ':' && (flow || atGap rest) then l.value rest
  else if c = '*' then do
    let (name, rest) ← name? rest
    l.word (.alias name) rest
  else if c = '&' then do
    let (name, rest) ← name? rest
    l.word (.anchor name) rest
  else if c = '!' then do
    let (name, rest) ← tag? rest
    l.word (.tag name) rest
  else if (c = '|' || c = '>') && !flow then l.block (c = '>') rest
  else if l.beginsPlain c rest then l.plain
  else none

/-- Reads the token at a place that is not the end of the text. -/
def token (l : Lexer) (c : Char) (rest : Text) : Except YamlFault Lexer :=
  if c = '\'' || c = '"' then do
    let l ← orMalformed l.noteKey
    let (text, rest) ← quotedScalar (c = '"') rest
    return (((l.goTo rest).add (.scalar false text)).allowKey false)
  else orMalformed (l.bareToken c rest)

/-- Goes to the next token, closing the blocks that end before it. -/
def approach (l : Lexer) : Option Lexer := do
  let l ← l.skipGap.dropStaleKeys
  return l.closeBeyond l.place.column

end Lexer

/-- The tokens of a text: all of them, or those in front of a place where it is no YAML text and what
is wrong there. -/
structure TokenList where
  tokens : List Token
  fault : Option YamlFault
deriving Repr, DecidableEq

namespace Lexer

/-- The tokens that are known for certain: from the first place on where a key may have begun it is
open which tokens there are. -/
def settled (l : Lexer) : List Token :=
  let open_ := l.keys.filter fun k => !l.isStale k.2
  let count := open_.foldl (fun n k => min n k.2.position) l.tokens.length
  l.tokens.reverse.take count

/-- What is known when reading cannot go on. -/
def stopped (l : Lexer) (f : YamlFault) : TokenList := ⟨l.settled, some f⟩

/-- Reads all tokens; each step passes one character at least. -/
def run : Nat → Lexer → TokenList
  | 0, l => l.stopped .malformed
  | n + 1, l =>
    match l.approach with
    | none => l.stopped .malformed
    | some next =>
      match next.place.rest with
      | [] =>
        match next.finish with
        | some done => ⟨done.tokens.reverse, none⟩
        | none => l.stopped .malformed
      | c :: rest =>
        match next.token c rest with
        | .ok next => run n next
        | .error f => l.stopped f

end Lexer

/-- Characters that may stand in a YAML text. -/
def isAllowed (c : Char) : Bool :=
  let n := c.toNat
  c = '\t' || c = '\n' || c = '\r' || c = '\x85' || (0x20 ≤ n && n ≤ 0x7e) ||
    (0xa0 ≤ n && n ≤ 0xfffd) || 0x10000 ≤ n

/-- The tokens of a text. A text with characters that may not stand in it has none. -/
def TokenList.ofText (t : Text) : TokenList :=
  if t.all isAllowed then Lexer.run (t.length + 2) (.start t) else ⟨[], some .malformed⟩

end ActionSweep.Yaml
