import ActionSweep.Value.Misuse

/-
When two values are the same: texts by their characters, truth values and numbers by the number they
stand for, what is not a number as such, lists item by item, and objects field by field in any order.
-/

namespace ActionSweep.Value

/-- Whether an integer is the number that a double stands for. -/
def intIsDouble (n : Int) : Double → Bool
  | .zero _ => n = 0
  | .finite negative b =>
    let m := if negative then -(b.m : Int) else (b.m : Int)
    if 0 ≤ b.q then n = m * Int.ofNat (Nat.pow 2 b.q.toNat)
    else n * Int.ofNat (Nat.pow 2 (-b.q).toNat) = m
  | _ => false

/-- The integer that a truth value or an integer stands for. -/
def wholeNumber? : Value → Option Int
  | bool b => some (if b then 1 else 0)
  | int n => some n
  | _ => none

/-- Whether two values that are neither lists nor objects are the same. -/
def sameScalar (v w : Value) : Bool :=
  match v, w with
  | null, null => true
  | text s, text t => s = t
  | float x, float y => x == y || (x.isNaN && y.isNaN)
  | float x, w => (w.wholeNumber?.map (intIsDouble · (.ofBits x.toBits.toNat))).getD false
  | v, float y => (v.wholeNumber?.map (intIsDouble · (.ofBits y.toBits.toNat))).getD false
  | other k s _ _, other l t _ _ => k = l && s = t
  | v, w =>
    match v.wholeNumber?, w.wholeNumber? with
    | some m, some n => m = n
    | _, _ => false

mutual

/-- Whether two values are the same. -/
def same : Value → Value → Bool
  | list vs, w =>
    match w with
    | list ws => sameItems vs ws
    | _ => false
  | object fs, w =>
    match w with
    | object gs => fs.length = gs.length && sameFields fs gs
    | _ => false
  | v, w => sameScalar v w

def sameItems : List Value → List Value → Bool
  | [], ws => ws.isEmpty
  | v :: vs, ws =>
    match ws with
    | w :: ws => v.same w && sameItems vs ws
    | [] => false

/-- Whether every one of some fields is the same in an object. -/
def sameFields : List (Text × Value) → List (Text × Value) → Bool
  | [], _ => true
  | (n, v) :: fs, gs => ((field? gs n).any fun w => v.same w) && sameFields fs gs

end

/-- Whether a value is a member of a set; only a value that can be one may be asked about. -/
def memberOf (v : Value) (set : List Value) : Except Misuse Bool :=
  v.hashable.map fun _ => set.any (·.same v)

end ActionSweep.Value
