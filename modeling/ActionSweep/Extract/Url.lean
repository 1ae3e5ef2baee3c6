import ActionSweep.Reference
import ActionSweep.Text.Search
import ActionSweep.Key

/-
URLs of the API anywhere in a text: bare ones, and those inside a quoted string, of which the static
part up to the query counts.
-/

namespace ActionSweep.Extract

def isQuote (c : Char) : Bool := c = '\'' || c = '"'

/-- The quotes of scripts: single, double, and the template quote. -/
def isScriptQuote (c : Char) : Bool := isQuote c || c = '\x60'

/-- Characters that can stand in a URL path: anything but quotes, query marks, ampersands and blanks. -/
def isUrlChar (c : Char) : Bool := !(isQuote c || c = '?' || c = '&' || isBlank c)

/-- A URL of the API at the beginning of a text: its mark and at least one more URL character, as far
as URL characters go. -/
def apiUrl : Finder Text := fun t =>
  match Text.dropBeginning? Key.apiMark t with
  | none => none
  | some rest =>
    let tail := rest.takeWhile isUrlChar
    if tail.isEmpty then none else some (Key.apiMark ++ tail, Key.apiMark.length + tail.length)

/-- The part before the query and the fragment. -/
def dropQuery (url : Text) : Text :=
  (url.takeWhile (· ≠ '?')).takeWhile (· ≠ '#')

/-- Up to before the last template quote, if there is one. -/
def beforeLastTemplateQuote? (t : Text) : Option Text :=
  match t.reverse.dropWhile (· ≠ '\x60') with
  | [] => none
  | _ :: before => some before.reverse

/-- The inside of a quoted string whose opening quote has been read, with its closing quote: up to the
next single or double quote, or, if there is none, up to the last template quote. -/
def quotedBody? (t : Text) : Option (Text × Char) :=
  let block := t.takeWhile (!isQuote ·)
  match t.dropWhile (!isQuote ·) with
  | close :: _ => some (block, close)
  | [] => (beforeLastTemplateQuote? block).map fun body => (body, '\x60')

/-- A quoted string with a URL of the API inside, as one piece with its quotes. -/
def quotedUrl : Finder Text
  | open_ :: rest =>
    if isScriptQuote open_ then
      match quotedBody? rest with
      | some (body, close) =>
        if (Text.findFirst? apiUrl body).isSome then
          some (open_ :: body ++ [close], body.length + 2)
        else none
      | none => none
    else none
  | [] => none

/-- The URLs of the API in a text: every bare one first, then the first one of every quoted string. -/
def urls (t : Text) : List RawReference :=
  (t.findAll apiUrl).map (fun url => ⟨dropQuery url, .embeddedUrl⟩) ++
  (t.findAll quotedUrl).filterMap fun string =>
    (Text.findFirst? apiUrl string).map fun url => ⟨dropQuery url, .templateUrl⟩

end ActionSweep.Extract
