import ActionSweep.Json.Reader
import ActionSweep.Text.Blank
import ActionSweep.Text.Digit

/-
The settings of git: sections in brackets, and below them names, each with a value behind an equals
sign or without one. Values may be quoted; a comment ends them. A text with a line of any other shape
is no list of settings at all.
-/

namespace ActionSweep.Git

/-- A setting: its name behind the section it stands in, in small letters, and its value, if any. -/
structure ConfigEntry where
  name : Text
  value : Option Text
deriving Repr, DecidableEq

namespace Config

/-- A carriage return in front of a line feed does not count. -/
def plainLines : Text → Text
  | [] => []
  | '\r' :: '\n' :: rest => '\n' :: plainLines rest
  | c :: rest => c :: plainLines rest

def isSpace (c : Char) : Bool := c = ' ' || c = '\t' || c = '\n' || c = '\r'

def isNameChar (c : Char) : Bool := c.isAlphanum || c = '-'

def beginsComment (c : Char) : Bool := c = '#' || c = ';'

/-- What follows the first line of a text. -/
def nextLine (t : Text) : Text := (t.dropWhile (· ≠ '\n')).drop 1

/-! ## Sections -/

/-- The name of a section with a part in quotes, and what follows its bracket. -/
def subsection? (name : Text) : Text → Option (Text × Text)
  | [] | '\n' :: _ | '\\' :: '\n' :: _ => none
  | '\\' :: c :: rest => subsection? (name ++ [c]) rest
  | '"' :: ']' :: rest => some (name, rest)
  | '"' :: _ => none
  | c :: rest => subsection? (name ++ [c]) rest

/-- The name of the section whose opening bracket stands before a text, and what follows it. -/
def section? (name : Text) : Text → Option (Text × Text)
  | [] | '\n' :: _ => none
  | ']' :: rest => if name.isEmpty then none else some (name, rest)
  | c :: rest =>
    if isSpace c then
      match rest.dropWhile fun c => isSpace c && c ≠ '\n' with
      | '"' :: rest => subsection? (name ++ ['.']) rest
      | _ => none
    else if isNameChar c || c = '.' then section? (name ++ [c.toLower]) rest
    else none

/-! ## Values -/

/-- The character that a letter behind a backslash stands for. -/
def escape? : Char → Option Char
  | 't' => some '\t'
  | 'b' => some '\x08'
  | 'n' => some '\n'
  | '\\' => some '\\'
  | '"' => some '"'
  | _ => none

/-- A value up to the end of its line, and what follows. `found` is the value so far, and `blanks` is
the white space behind it, which counts only if more of the value follows. -/
def value? (quoted : Bool) (found blanks : Text) : Text → Option (Text × Text)
  | [] => if quoted then none else some (found, [])
  | '\n' :: rest => if quoted then none else some (found, rest)
  | ['\\'] => if quoted then none else some (found ++ blanks, [])
  | '\\' :: '\n' :: rest => value? quoted (found ++ blanks) [] rest
  | '\\' :: c :: rest =>
    match escape? c with
    | some c => value? quoted (found ++ blanks ++ [c]) [] rest
    | none => none
  | '"' :: rest => value? (!quoted) (found ++ blanks) [] rest
  | c :: rest =>
    if quoted then value? quoted (found ++ blanks ++ [c]) [] rest
    else if isSpace c then value? quoted found (if found.isEmpty then [] else blanks ++ [c]) rest
    else if beginsComment c then some (found, nextLine rest)
    else value? quoted (found ++ blanks ++ [c]) [] rest

/-- The value behind a name, if any, and what follows its line. -/
def valueBehind? : Text → Option (Option Text × Text)
  | [] => some (none, [])
  | '\n' :: rest => some (none, rest)
  | '=' :: rest => (value? false [] [] rest).map fun (v, rest) => (some v, rest)
  | _ => none

/-! ## Entries -/

/-- The settings in a text, read in at most `n` steps; `place` is the section and its dot. -/
def entriesFrom? (place : Text) : Nat → Text → Option (List ConfigEntry)
  | 0, _ | _ + 1, [] => some []
  | n + 1, c :: rest =>
    if isSpace c then entriesFrom? place n rest
    else if beginsComment c then entriesFrom? place n (nextLine rest)
    else if c = '[' then
      match section? [] rest with
      | some (name, rest) => entriesFrom? (name ++ ['.']) n rest
      | none => none
    else if !c.isAlpha then none
    else
      let name := (c :: rest).takeWhile isNameChar
      let behind := ((c :: rest).dropWhile isNameChar).dropWhile fun c => c = ' ' || c = '\t'
      match valueBehind? behind with
      | some (v, rest) =>
        (entriesFrom? place n rest).map (⟨place ++ name.map Char.toLower, v⟩ :: ·)
      | none => none

/-- The settings in a text, in order. A byte order mark in front of it does not count. -/
def entries? (t : Text) : Option (List ConfigEntry) :=
  let t := plainLines ((Text.dropBeginning? ['\uFEFF'] t).getD t)
  entriesFrom? [] t.length t

/-! ## What values say -/

/-- The factor of the unit behind a number. -/
def unit? (t : Text) : Option Nat :=
  if t.isEmpty then some 1
  else if t.lower = "k" then some 0x400
  else if t.lower = "m" then some 0x100000
  else if t.lower = "g" then some 0x40000000
  else none

/-- The base of a number, as its first digits show it, and the digits behind them. -/
def baseOf : Text → Nat × Text
  | '0' :: 'x' :: rest => (16, rest)
  | '0' :: 'X' :: rest => (16, rest)
  | '0' :: rest => (8, '0' :: rest)
  | t => (10, t)

/-- A whole number, with a sign and a unit if wanted. -/
def number? (t : Text) : Option Int :=
  let (negative, t) := Numeral.signed (t.dropWhile isSpace)
  let (base, t) := baseOf t
  let digit? (c : Char) : Option Nat := (Json.hexDigit? c).filter (· < base)
  let digits := (t.takeWhile fun c => (digit? c).isSome).filterMap digit?
  if digits.isEmpty then none
  else (unit? (t.dropWhile fun c => (digit? c).isSome)).map fun unit =>
    let n : Int := Numeral.ofDigits base digits * unit
    if negative then -n else n

/-- The largest number that may stand for a truth. -/
def truthLimit : Nat := 0x7fffffff

/-- Whether a setting is on: a name alone is, and so is every number but zero. -/
def truth? : Option Text → Option Bool
  | none => some true
  | some t =>
    if t.isEmpty || (["false", "no", "off"] : List Text).contains t.lower then some false
    else if (["true", "yes", "on"] : List Text).contains t.lower then some true
    else ((number? t).filter (·.natAbs ≤ truthLimit)).map (· ≠ 0)

/-- The value that a setting has in the end: the last one given. -/
def last? (entries : List ConfigEntry) (name : Text) : Option (Option Text) :=
  (entries.reverse.find? (·.name = name)).map (·.value)

/-- Whether a setting is on in the end; without a value that says so, it is as `usual`. -/
def isOn (entries : List ConfigEntry) (name : Text) (usual : Bool) : Bool :=
  match last? entries name with
  | some v => (truth? v).getD usual
  | none => usual

/-- The settings that are on or off. -/
def truthNames : List Text :=
  ["core.autocrlf", "core.bare", "core.commitgraph", "core.filemode", "core.fsyncobjectfiles",
    "core.ignorecase", "core.ignorestat", "core.logallrefupdates", "core.multipackindex",
    "core.precomposeunicode", "core.prefersymlinkrefs", "core.protecthfs", "core.protectntfs",
    "core.quotepath", "core.safecrlf", "core.sparsecheckout", "core.symlinks", "core.trustctime",
    "core.usereplacerefs", "core.warnambiguousrefs"]

/-- Further words that some of these settings may have. -/
def furtherWords : List (Text × Text) :=
  [("core.autocrlf", "input"), ("core.logallrefupdates", "always"), ("core.safecrlf", "warn")]

/-- The settings that are numbers. -/
def numberNames : List Text :=
  ["core.bigfilethreshold", "core.compression", "core.deltabasecachelimit", "core.loosecompression",
    "core.maxtreedepth", "core.packedgitlimit", "core.packedgitwindowsize"]

/-- The settings that must have a value. -/
def valueNames : List Text :=
  ["core.askpass", "core.attributesfile", "core.checkroundtripencoding", "core.editor",
    "core.excludesfile", "core.hookspath", "core.notesref", "core.worktree", "user.email", "user.name"]

/-- Whether git accepts the value of a setting. -/
def isAccepted (entry : ConfigEntry) : Bool :=
  if truthNames.contains entry.name then
    (truth? entry.value).isSome ||
      furtherWords.any fun (name, word) => name = entry.name && some word = entry.value.map Text.lower
  else if numberNames.contains entry.name then (entry.value.bind number?).isSome
  else if valueNames.contains entry.name then entry.value.isSome
  else true

/-! ## The format of a repository -/

/-- The setting with the version of the format. -/
def versionName : Text := "core.repositoryformatversion"

/-- The version of the format that the settings of a repository name, if they do. -/
def version? (entries : List ConfigEntry) : Option Int :=
  ((last? entries versionName).join.bind number?).filter (0 ≤ ·)

/-- What may be added to the format in every version. -/
def plainExtensions : List Text :=
  ["extensions.noop", "extensions.partialclone", "extensions.preciousobjects",
    "extensions.worktreeconfig"]

/-- What may be added from version one on. -/
def laterExtensions : List Text := ["extensions.noop-v1", "extensions.objectformat"]

/-- Whether git knows the format of a repository. -/
def isKnownFormat (entries : List ConfigEntry) : Bool :=
  let added := (entries.map (·.name)).filter fun name => ("extensions." : Text).isPrefixOf name
  (entries.all fun entry => entry.name ≠ versionName || (entry.value.bind number?).isSome) &&
    match version? entries with
    | none => true
    | some 0 => added.all fun name => !laterExtensions.contains name
    | some v => v = 1 && added.all fun name => (plainExtensions ++ laterExtensions).contains name

/-- The settings about the work tree count only if a version of the format is named. -/
def aboutFormat (entries : List ConfigEntry) : List ConfigEntry :=
  if (version? entries).isSome then entries else []

/-! ## A reading by lines

Whether a repository is bare, that is, has no work tree, is also asked of the settings line by line. That
reading takes names as they are written, knows fewer words, and refuses other texts. -/

/-- How far a reading by lines is: whether it is in the section asked for (not known before the first
section), whether the setting asked for has a quote that is open (not known if none is), the last value
found, and whether a line was refused. -/
structure Lines where
  inside : Option Bool
  isOpen : Option Bool
  found : Option Text
  refused : Bool
deriving Repr, DecidableEq

/-- The section that a line names between its first and its last bracket. -/
def lineSection? (line : Text) : Option Text :=
  match line with
  | '[' :: rest =>
    match rest.reverse.dropWhile (· ≠ ']') with
    | _ :: c :: cs => some (Text.trimBlank (c :: cs).reverse)
    | _ => none
  | _ => none

/-- A value without the comment behind it. Only a semicolon behind white space begins one, and none
does behind a quote. -/
def withoutNote (t : Text) : Text :=
  let before := t.takeWhile (· ≠ ';')
  if ['"'].isPrefixOf (Text.trimBlank t) || !(before.getLast?.any isBlank) then Text.trimBlank t
  else Text.trimBlank before

def isDivider (c : Char) : Bool := c = '=' || c = ':'

/-- Reads a line with a name and a value. -/
def Lines.setting (l : Lines) (inside : Bool) (line : Text) : Lines :=
  if line.head?.any isDivider then { l with refused := true }
  else match line.dropWhile (!isDivider ·) with
    | [] => l
    | _ :: rest =>
      let value := withoutNote rest
      let named := inside && Text.trimBlank (line.takeWhile (!isDivider ·)) = "bare"
      let found (v : Text) : Option Text := if named then some v else l.found
      match value with
      | '"' :: c :: cs =>
        if (c :: cs).getLast? = some '"' then
          { l with found := found (Text.trimBlank (c :: cs).dropLast) }
        else { l with found := found (c :: cs), isOpen := some named }
      | _ => { l with found := found value }

/-- Reads a line of a quote that is open: it goes on to a line with a quote at its end. -/
def Lines.quotedLine (l : Lines) (named : Bool) (line : Text) : Lines :=
  let line := line.trimRight isBlank
  let ending := line.getLast? = some '"'
  let part := if ending then line.dropLast else line
  { l with
    found := if named then l.found.map (· ++ part) else l.found
    isOpen := if ending then none else some named }

/-- Reads a line. -/
def Lines.line (l : Lines) (line : Text) : Lines :=
  let plain := Text.trimBlank line
  if plain.isEmpty || plain.head?.any beginsComment then l
  else match l.isOpen with
    | some named => l.quotedLine named line
    | none =>
      match lineSection? plain with
      | some name => { l with inside := some (name = "core") }
      | none =>
        match l.inside with
        | some inside => l.setting inside plain
        | none => { l with refused := true }

/-- Whether the settings, read by lines, say that the repository has no work tree. -/
def isMarkedBare (t : Text) : Bool :=
  let l := (Text.split '\n' t).foldl Lines.line ⟨none, none, none, false⟩
  let words : List Text := ["1", "yes", "true", "on"]
  !l.refused && l.found.any fun v => words.contains v.lower

end Config

end ActionSweep.Git
