import ActionSweep.Decimal.Text
import ActionSweep.Text.Quoted

/-
Values of a data file: JSON documents, and what a settings file may hold. Objects keep their fields in
order, and no object built by `put` has a name twice.
-/

namespace ActionSweep

/-- A value of a data file. -/
inductive Value
  | null
  | bool (b : Bool)
  | int (n : Int)
  | float (x : Float)
  | text (t : Text)
  | list (items : List Value)
  | object (fields : List (Text × Value))
  /-- A value of a kind that documents have no notation for, such as a date: as it stands inside a list,
  as it stands in a sentence, and what a walk over it meets, if it can be walked over. -/
  | other (kind shown words : Text) (items : Option (List Value))
deriving Inhabited

namespace Value

/-- The name of a value's kind, as messages spell it. -/
def kind : Value → Text
  | null => "NoneType"
  | bool _ => "bool"
  | int _ => "int"
  | float _ => "float"
  | text _ => "str"
  | list _ => "list"
  | object _ => "dict"
  | other k _ _ _ => k

/-- Everything counts as true except null, false, zero and what is empty. -/
def truthy : Value → Bool
  | null => false
  | bool b => b
  | int n => n ≠ 0
  | float x => !(x == 0)
  | text t => !t.isEmpty
  | list items => !items.isEmpty
  | object fields => !fields.isEmpty
  | other _ _ _ items => !(items.any List.isEmpty)

/-- Sets a field of an object: a name keeps its first place and takes the last value. -/
def putField (name : Text) (v : Value) : List (Text × Value) → List (Text × Value)
  | [] => [(name, v)]
  | (n, w) :: rest => if n = name then (n, v) :: rest else (n, w) :: putField name v rest

/-- The fields with repeated names merged. -/
def mergeFields (fields : List (Text × Value)) : List (Text × Value) :=
  fields.foldl (fun merged f => putField f.1 f.2 merged) []

/-- The field of a name. -/
def field? (fields : List (Text × Value)) (name : Text) : Option Value :=
  match fields with
  | [] => none
  | (n, v) :: rest => if n = name then some v else field? rest name

/-- The field of a name, null if there is none. -/
def fieldD (fields : List (Text × Value)) (name : Text) : Value := (field? fields name).getD .null

/-! ## Values inside messages -/

mutual

/-- A value as it stands inside a list: texts in quotes. -/
def shown : Value → Text
  | null => "None"
  | bool true => "True"
  | bool false => "False"
  | int n => Text.ofInt n
  | float x => floatText x
  | text t => t.quoted
  | list items => "[" ++ Text.join ", " (shownItems items) ++ "]"
  | object fields => "\x7b" ++ Text.join ", " (shownFields fields) ++ "\x7d"
  | other _ s _ _ => s

def shownItems : List Value → List Text
  | [] => []
  | v :: vs => v.shown :: shownItems vs

def shownFields : List (Text × Value) → List Text
  | [] => []
  | (n, v) :: fs => (n.quoted ++ ": " ++ v.shown) :: shownFields fs

end

/-- A value as it stands in a sentence: a text is itself. -/
def inWords : Value → Text
  | text t => t
  | other _ _ w _ => w
  | v => v.shown

end Value

end ActionSweep
