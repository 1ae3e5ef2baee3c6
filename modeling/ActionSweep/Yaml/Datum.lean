import ActionSweep.Value.Same
import ActionSweep.Yaml.Bytes
import ActionSweep.Yaml.Node

/-
What a YAML document says: plain scalars by their form, everything else by its tag or kind. Keys are
scalars of any kind; a key that is written twice keeps its first place and takes the last value, and
the entries of merged mappings stand before a mapping's own. Of several faults the one that stands
least deep counts, and of those the first.
-/

namespace ActionSweep.Yaml

/-- What a document says. -/
inductive Datum
  | leaf (v : Value)
  | list (items : List Datum)
  | mapping (entries : List (Value × Datum))
deriving Inhabited

/-! ## Kinds -/

/-- What a node is said to be. -/
inductive Kind
  | null
  | truth
  | whole
  | fraction
  | moment
  | text
  | bytes
  | list
  | mapping
  | set
  /-- A list of mappings with one entry each. -/
  | pairs
  /-- The key of entries that are merged in. -/
  | mergeKey
  /-- The key of the value that a mapping stands for. -/
  | defaultKey
  | unknown
deriving Repr, DecidableEq

def trueWords : List String :=
  ["yes", "Yes", "YES", "true", "True", "TRUE", "on", "On", "ON"]

def falseWords : List String :=
  ["no", "No", "NO", "false", "False", "FALSE", "off", "Off", "OFF"]

def nullWords : List String := ["", "~", "null", "Null", "NULL"]

def isWord (words : List String) (t : Text) : Bool := words.any fun w => w.toList = t

namespace Kind

/-- The kind of a plain scalar by its form. -/
def ofPlain (t : Text) : Kind :=
  if isWord trueWords t || isWord falseWords t then truth
  else if isFraction t then fraction
  else if isInteger t then whole
  else if t = "<<" then mergeKey
  else if isWord nullWords t then null
  else if Moment.isForm t then moment
  else if t = "=" then defaultKey
  else text

/-- The kinds that have tags. -/
def tagged : List (String × Kind) :=
  [("null", null), ("bool", truth), ("int", whole), ("float", fraction), ("timestamp", moment),
   ("str", text), ("binary", bytes), ("seq", list), ("map", mapping), ("set", set),
   ("omap", pairs), ("pairs", pairs), ("merge", mergeKey), ("value", defaultKey)]

/-- The beginning of the tags of kinds. -/
def tagBeginning : Text := "tag:yaml.org,2002:"

/-- The kind that a tag says. -/
def ofTag (tag : Text) : Kind :=
  ((tagged.find? fun k => tag = tagBeginning ++ k.1.toList).map (·.2)).getD unknown

/-- The kind that a tag says; an exclamation mark alone says nothing. -/
def ofTagOr (standard : Kind) : Option Text → Kind
  | none => standard
  | some tag => if tag = ['!'] then standard else ofTag tag

/-- Kinds whose content is read after what stands around them. -/
def isCollection : Kind → Bool
  | list | mapping | set | pairs => true
  | _ => false

/-- The value of a scalar that is said to be of a kind. -/
def read (t : Text) : Kind → Except YamlFault Value
  | null => .ok .null
  | truth =>
    let word := Text.lower t
    if isWord trueWords word then .ok (.bool true)
    else if isWord falseWords word then .ok (.bool false)
    else .error (.noTruth word)
  | whole => ((integerOf t).mapError .number).map .int
  | fraction => ((fractionOf t).mapError .number).map .float
  | moment =>
    match Moment.ofText? t with
    | none => .error .noMoment
    | some m => (m.checked.mapError .moment).map fun m =>
      .other m.kind m.shown m.words none
  | text => .ok (.text t)
  | bytes => (orMalformed (bytesOf? t)).map fun b =>
      .other "bytes" (bytesShown b) (bytesShown b) (some (b.map fun x => .int x.toNat))
  | _ => .error .malformed

end Kind

namespace Node

/-- What a node is said to be. Texts between quotes and blocks are texts. -/
def kind : Node → Kind
  | scalar none plain t => if plain then .ofPlain t else .text
  | scalar tag _ t => .ofTagOr (.ofPlain t) tag
  | list tag _ => .ofTagOr .list tag
  | mapping tag _ => .ofTagOr .mapping tag
  | around isMapping => if isMapping then .mapping else .list

def isMapping : Node → Bool
  | mapping _ _ | around true => true
  | _ => false

mutual

/-- The text that a node stands for where a scalar is asked for: its own, or that of the entry by
which a mapping says what it stands for. -/
def scalarText? : Node → Option Text
  | scalar _ _ t => some t
  | mapping _ entries => entryText? entries
  | _ => none

def entryText? : List (Node × Node) → Option Text
  | [] => none
  | (k, v) :: rest => if k.kind = .defaultKey then v.scalarText? else entryText? rest

end

end Node

/-! ## Meanings -/

/-- Faults, each with the depth at which it is met. -/
abbrev Faults := List (Nat × YamlFault)

namespace Faults

def one (f : YamlFault) : Faults := [(0, f)]

/-- The faults inside something as faults of it. -/
def deeper (fs : Faults) : Faults := fs.map fun (n, f) => (n + 1, f)

/-- The faults that stand where they are met. -/
def atTop (fs : Faults) : Faults := fs.filter (·.1 = 0)

def below (fs : Faults) : Faults := fs.filter (·.1 ≠ 0)

/-- The first of the faults that stand least deep. -/
def first? : Faults → Option (Nat × YamlFault)
  | [] => none
  | (n, f) :: fs =>
    match first? fs with
    | some (m, g) => if m < n then some (m, g) else some (n, f)
    | none => some (n, f)

end Faults

/-- What an entry of a mapping says. -/
structure Entry where
  key : Value
  datum : Datum
  faults : Faults

/-- What a node says, its faults, and the entries of a mapping that it is merged into, if it can be
merged. -/
structure Meaning where
  datum : Datum
  faults : Faults
  entries : Option (List Entry)

namespace Meaning

def ofValue (v : Value) : Meaning := ⟨.leaf v, [], none⟩

def refused (f : YamlFault) : Meaning := ⟨.leaf .null, Faults.one f, none⟩

/-- The value of a scalar. A scalar that is said to be a collection is refused only where its content
would be read. -/
def ofScalar (k : Kind) (t : Option Text) : Meaning :=
  if k.isCollection then ⟨.list [], (Faults.one .malformed).deeper, none⟩
  else match orMalformed t >>= fun t => k.read t with
    | .ok v => ofValue v
    | .error f => refused f

/-- What stands for a list or a mapping inside itself. -/
def around (isMapping : Bool) : Meaning :=
  if isMapping then ⟨.leaf (.other "dict" "\x7b...\x7d" "\x7b...\x7d" none), [], some []⟩
  else ofValue (.other "list" "[...]" "[...]" none)

/-- Why a key is none: only values that can be told apart for good are keys. -/
def keyFaults (c : Meaning) : Faults :=
  match c.datum with
  | .leaf (.other k _ _ _) =>
    if ["list", "dict", "set"].any fun name => name.toList = k then Faults.one .malformed else []
  | .leaf _ => []
  | _ => Faults.one .malformed

/-- The value of a key. -/
def keyValue (c : Meaning) : Value :=
  match c.datum with
  | .leaf v => v
  | _ => .null

/-- An entry of a mapping. -/
def entry (key value : Meaning) : Entry :=
  ⟨key.keyValue, value.datum, key.faults.atTop ++ key.keyFaults ++ value.faults⟩

end Meaning

/-- The entries of a mapping: those merged in, its own, and whether something cannot be merged. -/
structure Entries where
  merged : List Entry
  own : List Entry
  refused : Bool

namespace Entries

def all (es : Entries) : List Entry := es.merged ++ es.own

def faults (es : Entries) : Faults :=
  if es.refused then Faults.one .malformed else es.all.flatMap Entry.faults

def merging? (es : Entries) : Option (List Entry) := if es.refused then none else some es.all

/-- Puts what can be merged before the other entries. -/
def merge (es : Entries) : Option (List Entry) → Entries
  | some merged => { es with merged := merged ++ es.merged }
  | none => { es with refused := true }

def add (es : Entries) (e : Entry) : Entries := { es with own := e :: es.own }

end Entries

/-- Sets an entry of a mapping. -/
def putEntry (k : Value) (d : Datum) : List (Value × Datum) → List (Value × Datum)
  | [] => [(k, d)]
  | (k', d') :: rest => if k'.same k then (k', d) :: rest else (k', d') :: putEntry k d rest

/-- The entries without repeated keys. -/
def putAll (es : List Entry) : List (Value × Datum) :=
  es.foldl (fun entries e => putEntry e.key e.datum entries) []

/-- A set as it stands in messages. -/
def setShown (members : List Value) : Text :=
  if members.isEmpty then "set()"
  else '\x7b' :: Text.join ", " (members.map Value.shown) ++ ['\x7d']

namespace Meaning

/-- A mapping that is said to be of a kind. -/
def ofEntries (k : Kind) (t : Option Text) (es : Entries) : Meaning :=
  match k with
  | .mapping => ⟨.mapping (putAll es.all), es.faults.deeper, es.merging?⟩
  | .set =>
    let members := (putAll es.all).map (·.1)
    let shown := setShown members
    ⟨.leaf (.other "set" shown shown (some members)), es.faults.deeper, es.merging?⟩
  | k => { ofScalar k t with entries := es.merging? }

/-- A list that is said to be of a kind; `pairs` are its items where each has to be one entry. -/
def ofItems (k : Kind) (mappings : Bool) (items pairs : List Meaning) : Meaning :=
  let merged := if mappings then items.mapM Meaning.entries else none
  let entries := merged.map fun es => es.reverse.flatten
  let listOf (items : List Meaning) : Meaning :=
    ⟨.list (items.map Meaning.datum), Faults.deeper (items.flatMap Meaning.faults), entries⟩
  match k with
  | .list => listOf items
  | .pairs => listOf pairs
  | k => { ofScalar k none with entries := entries }

/-- The one entry of an item as a list of key and value. -/
def pair (key value : Meaning) : Meaning :=
  ⟨.list [key.datum, value.datum], key.faults ++ value.faults, none⟩

end Meaning

mutual

/-- What a node says. -/
def Node.meaning : Node → Meaning
  | .scalar tag plain t => .ofScalar (Node.scalar tag plain t).kind (some t)
  | .list tag items =>
    .ofItems (Node.list tag items).kind (items.all Node.isMapping) (Node.itemMeanings items)
      (Node.pairMeanings items)
  | .mapping tag entries =>
    .ofEntries (Node.mapping tag entries).kind (Node.mapping tag entries).scalarText?
      (Node.entryMeanings entries)
  | .around isMapping => .around isMapping

def Node.itemMeanings : List Node → List Meaning
  | [] => []
  | v :: vs => v.meaning :: Node.itemMeanings vs

/-- The items of a list each of which has to be one entry. -/
def Node.pairMeanings : List Node → List Meaning
  | [] => []
  | v :: vs =>
    (match v with
      | .mapping _ [(k, w)] => .pair k.meaning w.meaning
      | _ => .refused .malformed) :: Node.pairMeanings vs

def Node.entryMeanings : List (Node × Node) → Entries
  | [] => ⟨[], [], false⟩
  | (k, v) :: rest =>
    match k.kind with
    | .mergeKey => (Node.entryMeanings rest).merge v.meaning.entries
    | .defaultKey =>
      (Node.entryMeanings rest).add (Meaning.entry (.ofScalar .text k.scalarText?) v.meaning)
    | _ => (Node.entryMeanings rest).add (Meaning.entry k.meaning v.meaning)

end

namespace Datum

/-- Reads a text; without a document it says null. -/
def ofText (t : Text) : Except YamlFault Datum := do
  match ← Node.ofText t with
  | none => return .leaf .null
  | some v =>
    let c := v.meaning
    match c.faults.first? with
    | some (_, f) => throw f
    | none => return c.datum

mutual

/-- As a value: keys become the texts that they are in a sentence. -/
def toValue : Datum → Value
  | .leaf v => v
  | .list items => .list (toValues items)
  | .mapping entries => .object (Value.mergeFields (toFields entries))

def toValues : List Datum → List Value
  | [] => []
  | d :: ds => d.toValue :: toValues ds

def toFields : List (Value × Datum) → List (Text × Value)
  | [] => []
  | (k, d) :: entries => (k.inWords, d.toValue) :: toFields entries

end

end Datum

end ActionSweep.Yaml
