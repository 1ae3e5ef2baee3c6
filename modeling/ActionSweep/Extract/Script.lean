import ActionSweep.Extract.Url

/-
References in scripts: fetch calls with one argument and url fields, when they name the API.
-/

namespace ActionSweep.Extract

/-- What follows a text and the blanks after it, with the number of characters passed. -/
def pass (word t : Text) : Option (Text × Nat) :=
  (Text.dropBeginning? word t).map fun rest =>
    (rest.dropWhile isBlank, word.length + (rest.takeWhile isBlank).length)

/-- A non-empty string between script quotes of any kind: its inside, the rest, and its length. -/
def scriptString : Text → Option (Text × Text × Nat)
  | [] => none
  | q :: rest =>
    if isScriptQuote q then
      let inside := rest.takeWhile (!isScriptQuote ·)
      match rest.dropWhile (!isScriptQuote ·) with
      | [] => none
      | _ :: after => if inside.isEmpty then none else some (inside, after, inside.length + 2)
    else none

/-- `fetch`, a bracket, a string and the closing bracket, with blanks between them. -/
def fetchCall : Finder Text := fun t => do
  let (t, a) ← pass "fetch" t
  let (t, b) ← pass "(" t
  let (url, t, c) ← scriptString t
  let blanks := t.takeWhile isBlank
  match t.dropWhile isBlank with
  | ')' :: _ => some (url, a + b + c + blanks.length + 1)
  | _ => none

/-- `url`, a colon and a string, with blanks between them. -/
def urlField : Finder Text := fun t => do
  let (t, a) ← pass "url" t
  let (t, b) ← pass ":" t
  let (url, _, c) ← scriptString t
  some (url, a + b + c)

/-- The references of a script: fetch calls first, then url fields. -/
def script (t : Text) : List RawReference :=
  ((t.findAll fetchCall).filter (Key.apiMark.isPrefixOf ·)).map (⟨·, .scriptFetchCall⟩) ++
  ((t.findAll urlField).filter (Key.apiMark.isPrefixOf ·)).map (⟨·, .scriptAjaxUrl⟩)

end ActionSweep.Extract
