import ActionSweep.Yaml.Token

/-
The one document of a YAML text as a tree of nodes. Aliases are replaced by the nodes they name, unless
they stand inside them, and tags are written out.
-/

namespace ActionSweep.Yaml

/-- A node of a document, with its tag if one is written. -/
inductive Node
  | scalar (tag : Option Text) (plain : Bool) (text : Text)
  | list (tag : Option Text) (items : List Node)
  | mapping (tag : Option Text) (entries : List (Node × Node))
  /-- A list or a mapping that this node stands in. -/
  | around (isMapping : Bool)
deriving Inhabited

/-- What a name names: a node, or the list or mapping that is being read. -/
inductive Named
  | complete (v : Node)
  | begun (isMapping : Bool)

namespace Node

/-- The node that stands where nothing is written. -/
def nothing : Node := scalar none true []

/-- What is left to be read, what is wrong behind the last token, the meanings of the handles of tags,
and the nodes that have names. -/
structure Reading where
  tokens : List Token
  fault : YamlFault
  handles : List (Text × Text)
  named : List (Text × Named)

/-- Reading that gives up where the tokens do not fit, or where there are no more. -/
abbrev Reader := StateT Reading (Except YamlFault)

namespace Reader

/-- Gives up. -/
def refuse : Reader α := throw .malformed

/-- The next token, not taken. -/
def peek : Reader Token := do
  match (← get).tokens with
  | t :: _ => return t
  | [] => throw (← get).fault

def skip : Reader Unit := modify fun s => { s with tokens := s.tokens.drop 1 }

/-- Takes a token if it is the next one. -/
def take? (t : Token) : Reader Bool := do
  if (← peek) = t then
    skip
    return true
  else return false

def expect (t : Token) : Reader Unit := do
  if !(← take? t) then refuse

/-- Whether the next token is one of some tokens. -/
def next (ts : List Token) : Reader Bool := do return ts.contains (← peek)

/-- The text of a tag, with its handle written out. -/
def tagText (name : TagName) : Reader Text := do
  match name.handle with
  | none => return name.suffix
  | some h =>
    match (← get).handles.find? (·.1 = h) with
    | some (_, meaning) => return meaning ++ name.suffix
    | none => refuse

/-- Takes a tag if one is next. -/
def tag? : Reader (Option Text) := do
  match ← peek with
  | .tag name =>
    skip
    return some (← tagText name)
  | _ => return none

/-- Takes an anchor if one is next. -/
def anchor? : Reader (Option Text) := do
  match ← peek with
  | .anchor name =>
    skip
    return some name
  | _ => return none

/-- The tag and the anchor of a node, in either order. -/
def properties : Reader (Option Text × Option Text) := do
  match ← anchor? with
  | some a => return (← tag?, some a)
  | none =>
    match ← tag? with
    | some t => return (some t, ← anchor?)
    | none => return (none, none)

/-- Gives a name to the node that is about to be read. A name can be given once. -/
def open? (anchor : Option Text) : Reader Unit := do
  match anchor with
  | none => return
  | some a =>
    let isMapping ← next [.flowMappingStart, .mappingStart]
    if (← get).named.any (·.1 = a) then refuse
    else modify fun s => { s with named := s.named ++ [(a, .begun isMapping)] }

/-- Keeps the node under its name. -/
def close (anchor : Option Text) (v : Node) : Reader Node := do
  match anchor with
  | none => return v
  | some a =>
    modify fun s => { s with
      named := s.named.map fun n => if n.1 = a then (a, .complete v) else n }
    return v

/-- The node that an alias names. -/
def aliased (name : Text) : Reader Node := do
  match (← get).named.find? (·.1 = name) with
  | some (_, .complete v) => return v
  | some (_, .begun isMapping) => return .around isMapping
  | none => refuse

end Reader

open Reader

/-- A tag or an anchor alone stands for an empty node. -/
def nothingIf (tag : Option Text) (named : Bool) : Reader Node :=
  if tag.isSome || named then return .scalar tag true [] else refuse

mutual

/-- A node. In a block, lists and mappings may be written without brackets; as the value of a
mapping, also a list whose items are not indented further than the mapping. -/
def node (block flush : Bool) : Nat → Reader Node
  | 0 => refuse
  | n + 1 => do
    match ← peek with
    | .alias name =>
      skip
      aliased name
    | _ =>
      let (tag, anchor) ← properties
      open? anchor
      close anchor (← content block flush tag anchor.isSome n)

/-- What follows the tag and the anchor of a node. -/
def content (block flush : Bool) (tag : Option Text) (named : Bool) : Nat → Reader Node
  | 0 => refuse
  | n + 1 => do
    match ← peek with
    | .scalar plain text =>
      skip
      return .scalar tag plain text
    | .flowListStart =>
      skip
      return .list tag (← flowItems true n)
    | .flowMappingStart =>
      skip
      return .mapping tag (← flowEntries true n)
    | .item => if flush then return .list tag (← flushItems n) else nothingIf tag named
    | .listStart =>
      if block then
        skip
        return .list tag (← blockItems n)
      else nothingIf tag named
    | .mappingStart =>
      if block then
        skip
        return .mapping tag (← blockEntries n)
      else nothingIf tag named
    | _ => nothingIf tag named

/-- The items of a list in a block. -/
def blockItems : Nat → Reader (List Node)
  | 0 => refuse
  | n + 1 => do
    if ← take? .item then
      let v ← if ← next [.item, .blockEnd] then pure nothing else node true false n
      return v :: (← blockItems n)
    else
      expect .blockEnd
      return []

/-- The items of a list that is not indented. -/
def flushItems : Nat → Reader (List Node)
  | 0 => refuse
  | n + 1 => do
    if ← take? .item then
      let v ← if ← next [.item, .key, .value, .blockEnd] then pure nothing else node true false n
      return v :: (← flushItems n)
    else return []

/-- A key or a value in a block, which may be empty. -/
def blockPart : Nat → Reader Node
  | 0 => refuse
  | n + 1 => do
    if ← next [.key, .value, .blockEnd] then return nothing else node true true n

/-- The entries of a mapping in a block. -/
def blockEntries : Nat → Reader (List (Node × Node))
  | 0 => refuse
  | n + 1 => do
    if ← take? .key then
      let k ← blockPart n
      let v ← if ← take? .value then blockPart n else pure nothing
      return (k, v) :: (← blockEntries n)
    else
      expect .blockEnd
      return []

/-- A node in brackets, empty if one of some tokens is next. -/
def flowPart (ends : List Token) : Nat → Reader Node
  | 0 => refuse
  | n + 1 => do
    if ← next ends then return nothing else node false false n

/-- The items of a list in brackets. An item may be an entry, which is a mapping of its own. -/
def flowItems (first : Bool) : Nat → Reader (List Node)
  | 0 => refuse
  | n + 1 => do
    if ← take? .flowListEnd then return []
    else
      if !first then expect .comma
      if ← take? .key then
        let k ← flowPart [.value, .comma, .flowListEnd] n
        let v ← if ← take? .value then flowPart [.comma, .flowListEnd] n else pure nothing
        return .mapping none [(k, v)] :: (← flowItems false n)
      else if ← take? .flowListEnd then return []
      else
        let v ← node false false n
        return v :: (← flowItems false n)

/-- The entries of a mapping in brackets. -/
def flowEntries (first : Bool) : Nat → Reader (List (Node × Node))
  | 0 => refuse
  | n + 1 => do
    if ← take? .flowMappingEnd then return []
    else
      if !first then expect .comma
      if ← take? .key then
        let k ← flowPart [.value, .comma, .flowMappingEnd] n
        let v ← if ← take? .value then flowPart [.comma, .flowMappingEnd] n else pure nothing
        return (k, v) :: (← flowEntries false n)
      else if ← take? .flowMappingEnd then return []
      else
        let k ← node false false n
        return (k, nothing) :: (← flowEntries false n)

end

/-! ## Documents -/

/-- What the handles of tags mean if nothing else is said. -/
def standardHandles : List (Text × Text) :=
  [(['!'], ['!']), (['!', '!'], "tag:yaml.org,2002:")]

/-- The instructions in front of a document: one version at most, and each handle once. -/
def instructions : Nat → Bool → List (Text × Text) → Reader (List (Text × Text))
  | 0, _, _ => refuse
  | n + 1, versioned, handles => do
    match ← peek with
    | .version major =>
      skip
      if versioned || major ≠ 1 then refuse else instructions n true handles
    | .tagGroup handle meaning =>
      skip
      if handles.any (·.1 = handle) then refuse
      else instructions n versioned (handles ++ [(handle, meaning)])
    | .instruction =>
      skip
      instructions n versioned handles
    | _ => return handles

/-- Whether the next token begins a document with a mark of its own. -/
def marked : Reader Bool := do
  match ← peek with
  | .documentStart | .version _ | .tagGroup _ _ | .instruction => return true
  | _ => return false

def skipEndMarks : Nat → Reader Unit
  | 0 => refuse
  | n + 1 => do if ← take? .documentEnd then skipEndMarks n

/-- The one document of a text, if it has one. -/
def document (steps : Nat) : Reader (Option Node) := do
  if ← next [.endOfText] then return none
  else
    let v ← if ← marked then
        let handles ← instructions steps false []
        modify fun s => { s with
          handles := handles ++ standardHandles.filter fun h => !handles.any (·.1 = h.1) }
        expect .documentStart
        if (← marked) || (← next [.documentEnd, .endOfText]) then pure nothing
        else node true false steps
      else node true false steps
    skipEndMarks steps
    expect .endOfText
    return some v

/-- The document of a text, if it has one. -/
def ofText (t : Text) : Except YamlFault (Option Node) := do
  let l := TokenList.ofText t
  let (v, _) ← document (4 * l.tokens.length + 4) |>.run
    ⟨l.tokens, l.fault.getD .malformed, standardHandles, []⟩
  return v

end Node

end ActionSweep.Yaml
