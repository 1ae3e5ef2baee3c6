import ActionSweep.Extract.Url

/-
References in markup: the url, action and href attributes, and every URL of the API in the text.
-/

namespace ActionSweep.Extract

/-- A name, an equals sign and a non-empty value between quotes of either kind. -/
def quotedAttribute (name : Text) : Finder Text := fun t =>
  match Text.dropBeginning? (name ++ ['=']) t with
  | some (q :: rest) =>
    if isQuote q then
      let value := rest.takeWhile (!isQuote ·)
      if value.isEmpty || (rest.dropWhile (!isQuote ·)).isEmpty then none
      else some (value, name.length + value.length + 3)
    else none
  | _ => none

/-- The references of a page: url attributes, action attributes, URLs in href attributes, and then
the URLs of the whole text. -/
def markup (t : Text) : List RawReference :=
  (t.findAll (quotedAttribute "url")).map (⟨·, .markupUrlAttribute⟩) ++
  (t.findAll (quotedAttribute "action")).map (⟨·, .markupActionAttribute⟩) ++
  ((t.findAll (quotedAttribute "href")).filter (Text.occursIn Key.apiMark)).flatMap urls ++
  urls t

end ActionSweep.Extract
