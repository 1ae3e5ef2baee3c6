import ActionSweep.Text.Utf8

/-
The file in which git keeps the list of staged files: a mark, a version and a count, then one entry
for each file, with its path at the end and filled up with zeros to a multiple of eight bytes, and a
checksum, which is not looked at. Then how lists of files show the names.
-/

namespace ActionSweep.Git

/-- A number of four bytes, highest first. -/
def number4 (bytes : Bytes) : Nat := bytes.foldl (fun n b => 256 * n + b.toNat) 0

/-- The four bytes of a number, highest first. -/
def bytes4 (n : Nat) : Bytes :=
  [(n / 0x1000000).toUInt8, (n / 0x10000).toUInt8, (n / 0x100).toUInt8, n.toUInt8]

/-- The mark at the beginning of the file. -/
def mark : Bytes := [0x44, 0x49, 0x52, 0x43]

/-- The bytes of an entry before its flags: times, owner, size and content name. -/
def factsSize : Nat := 60

/-- The bytes of the checksum. -/
def checksumSize : Nat := 20

/-- How many zeros follow an entry of a size: at least one. -/
def padding (size : Nat) : Nat := 8 - size % 8

/-- The path of the entry at the beginning of some bytes, and what follows the entry. -/
def entry? (bytes : Bytes) : Option (Bytes × Bytes) :=
  match bytes.drop factsSize with
  | high :: _ :: rest =>
    let extended : Nat := if high.toNat / 64 % 2 = 1 then 2 else 0
    let body := rest.drop extended
    let path := body.takeWhile (· ≠ 0)
    let size := factsSize + 2 + extended + path.length
    if path.isEmpty || bytes.length < size + padding size then none
    else some (path, bytes.drop (size + padding size))
  | _ => none

/-- The paths of a number of entries. -/
def entries? : Nat → Bytes → Option (List Bytes)
  | 0, _ => some []
  | n + 1, bytes => do
    let (path, rest) ← entry? bytes
    return path :: (← entries? n rest)

/-- The paths in a list of staged files, if the bytes are one. -/
def stagedPaths? (bytes : Bytes) : Option (List Bytes) := do
  let rest ← mark.isPrefixOf? bytes
  let version := number4 (rest.take 4)
  if rest.length < 8 + checksumSize || (version ≠ 2 && version ≠ 3) then none
  else entries? (number4 ((rest.drop 4).take 4)) (rest.drop 8)

/-- An entry for a path, without facts about the file. -/
def writeEntry (path : Bytes) : Bytes :=
  let size := factsSize + 2 + path.length
  let flags := min path.length 4095
  List.replicate factsSize 0 ++ [(flags / 256).toUInt8, flags.toUInt8] ++ path ++
    List.replicate (padding size) 0

/-- A list of staged files, without facts about them. -/
def writeStaged (paths : List Bytes) : Bytes :=
  mark ++ bytes4 2 ++ bytes4 paths.length ++ paths.flatMap writeEntry ++
    List.replicate checksumSize 0

/-! ## Names as lists of files show them -/

/-- A byte as three octal digits behind a backslash. -/
def octal (b : UInt8) : Text :=
  '\\' :: [b.toNat / 64, b.toNat / 8 % 8, b.toNat % 8].map fun d => Char.ofNat (d + '0'.toNat)

/-- A byte of a name between quotes. -/
def quotedByte (b : UInt8) : Text :=
  if b = 0x22 then ['\\', '"']
  else if b = 0x5c then ['\\', '\\']
  else if b = 7 then ['\\', 'a']
  else if b = 8 then ['\\', 'b']
  else if b = 9 then ['\\', 't']
  else if b = 10 then ['\\', 'n']
  else if b = 11 then ['\\', 'v']
  else if b = 12 then ['\\', 'f']
  else if b = 13 then ['\\', 'r']
  else if b < 0x20 || 0x7f ≤ b then octal b
  else [Char.ofNat b.toNat]

/-- Whether a byte is not shown as it is. -/
def isQuotedByte (b : UInt8) : Bool := b = 0x22 || b = 0x5c || b < 0x20 || 0x7f ≤ b

/-- A character between quotes, if characters beyond ASCII are shown as they are. -/
def quotedChar (c : Char) : Text := if c.toNat < 0x80 then quotedByte c.toNat.toUInt8 else [c]

/-- A name, between quotes if any of its bytes is not shown as it is. Bytes beyond ASCII are shown as
they are unless `quotesWide`. -/
def shownName (quotesWide : Bool) (path : Bytes) : Text :=
  if quotesWide then
    if path.any isQuotedByte then '"' :: path.flatMap quotedByte ++ ['"']
    else path.map fun b => Char.ofNat b.toNat
  else
    let t := Utf8.lossy path
    if t.any fun c => c.toNat < 0x80 && isQuotedByte c.toNat.toUInt8 then
      '"' :: t.flatMap quotedChar ++ ['"']
    else t

/-- Whether a character beyond ASCII ends a line. -/
def endsLine (c : Char) : Bool := c = '\u0085' || c = '\u2028' || c = '\u2029'

/-- The lines that a name takes up in a list of files. -/
def nameLines (quotesWide : Bool) (path : Bytes) : List Text :=
  Text.split '\n' ((shownName quotesWide path).map fun c => if endsLine c then '\n' else c)

/-- The path from a folder below the top of the work tree on, if it leads through that folder. -/
def below? (folder : List Text) (path : Bytes) : Option Bytes :=
  (folder.flatMap fun part => Utf8.encode part ++ [0x2f]).isPrefixOf? path

end ActionSweep.Git
