/-
A URL of the API between quotes. The search for quoted strings knows three kinds of quotes, the search for the URL in
such a string ends at two of them. So a URL between single or double quotes is found as it is written, and a URL
between template quotes with the closing quote at its end.
-/
import ActionSweep.Proofs.Extract.Literal

namespace ActionSweep.Extract

open Text (takeWhile_run dropWhile_run none_of_any findAll_found findAll_whole findAll_cons head?_findAll)

/-! ## The string -/

/-- A text between quotes. -/
def between (quote : Char) (t : Text) : Text := quote :: (t ++ [quote])

theorem beforeLastTemplateQuote?_concat (t : Text) : beforeLastTemplateQuote? (t ++ ['\x60']) = some t := by
  unfold beforeLastTemplateQuote?
  rw [List.reverse_append]
  exact congrArg some (List.reverse_reverse t)

/-- The inside of a string that has no quotes in it, but those around it. -/
theorem quotedBody?_concat {body : Text} {quote : Char} (hbody : ∀ c ∈ body, isScriptQuote c = false)
    (hquote : isScriptQuote quote = true) : quotedBody? (body ++ [quote]) = some (body, quote) := by
  have hplain : ∀ c ∈ body, (!isQuote c) = true := fun c hc => by
    rw [(Bool.or_eq_false_iff.1 (hbody c hc)).1]
    rfl
  unfold quotedBody?
  cases hkind : isQuote quote with
  | true =>
    have hstop : ∀ c ∈ [quote].head?, (!isQuote c) = false := by
      rintro c ⟨⟩
      rw [hkind]
      rfl
    rw [takeWhile_run hplain hstop, dropWhile_run hplain hstop]
  | false =>
    -- the string goes on to the last template quote
    obtain rfl : quote = '\x60' := by simpa [isScriptQuote, hkind] using hquote
    have hall : ∀ c ∈ body ++ ['\x60'], (!isQuote c) = true := fun c hc => by
      rcases List.mem_append.1 hc with hc | hc
      · exact hplain c hc
      · rw [List.mem_singleton.1 hc]
        decide
    rw [List.takeWhile_eq_self_iff.2 hall, List.dropWhile_eq_nil_iff.2 hall]
    dsimp only
    rw [beforeLastTemplateQuote?_concat]
    rfl

/-! ## The URL in it -/

/-- What a URL takes of the quote behind it. -/
def kept (quote : Char) : Text := [quote].filter isUrlChar

/-- It takes the template quote and no other. -/
theorem kept_eq_nil_iff {quote : Char} (hquote : isScriptQuote quote = true) :
    kept quote = [] ↔ isQuote quote = true := by
  have hkinds : quote = '\'' ∨ quote = '"' ∨ quote = '\x60' := by
    simpa [isScriptQuote, isQuote, or_assoc] using hquote
  rcases hkinds with rfl | rfl | rfl <;> decide

theorem kept_plain {quote : Char} (hquote : isScriptQuote quote = true) : ∀ c ∈ kept quote, endsUrl c = false := by
  intro c hc
  obtain ⟨hmem, hurl⟩ := List.mem_filter.1 hc
  obtain rfl := List.mem_singleton.1 hmem
  rcases urlChar_iff.1 hurl with hends | rfl
  · exact hends
  · exact absurd hquote (by decide)

theorem apiUrl_of_quote {quote : Char} {t : Text} (hquote : isScriptQuote quote = true) :
    apiUrl (quote :: t) = none := by
  rw [Option.eq_none_iff_forall_ne_some]
  rintro ⟨url, n⟩ hurl
  obtain ⟨tail, rest, htext, -⟩ := apiUrl_iff.1 hurl
  obtain rfl : quote = '/' := (List.cons.inj htext).1
  exact absurd hquote (by decide)

/-- What a URL leaves of the quote ends it, and begins none. -/
theorem exists_behind_kept {quote : Char} (hquote : isScriptQuote quote = true) : ∃ ended : Text,
    [quote] = kept quote ++ ended ∧ (∀ c ∈ ended.head?, isUrlChar c = false) ∧ ended.findAll apiUrl = [] := by
  unfold kept
  cases hkind : isUrlChar quote with
  | true => exact ⟨[], by simp [hkind], by simp, rfl⟩
  | false => exact ⟨[quote], by simp [hkind], by simpa using hkind, findAll_cons (apiUrl_of_quote hquote)⟩

section Quoted

variable {name : Text} {quote : Char} (hquote : isScriptQuote quote = true) (hne : name ≠ [])
  (hname : ∀ c ∈ name, endsUrl c = false ∧ isScriptQuote c = false)

include hquote hne hname

/-- The only URL in a quoted URL is this one, with what it takes of the quote. -/
theorem findAll_apiUrl_between :
    (between quote (Key.apiMark ++ name)).findAll apiUrl = [Key.apiMark ++ name ++ kept quote] := by
  have hurl : ∀ c ∈ name ++ kept quote, isUrlChar c = true := fun c hc => by
    rcases List.mem_append.1 hc with hc | hc
    · exact urlChar_iff.2 (.inl (hname c hc).1)
    · exact (List.mem_filter.1 hc).2
  obtain ⟨ended, htext, hended, hnone⟩ := exists_behind_kept hquote
  have hfound : apiUrl (Key.apiMark ++ name ++ kept quote ++ ended) =
      some (Key.apiMark ++ name ++ kept quote, (Key.apiMark ++ name ++ kept quote).length) :=
    apiUrl_iff.2 ⟨name ++ kept quote, ended, by simp, by simp [hne], hurl, hended, by simp, rfl⟩
  have hbetween : Key.apiMark ++ name ++ [quote] = Key.apiMark ++ name ++ kept quote ++ ended := by
    rw [htext, List.append_assoc, List.append_assoc, List.append_assoc]
  rw [between, findAll_cons (apiUrl_of_quote hquote), hbetween, findAll_found (by simp [Key.apiMark]) hfound, hnone]

/-- The only string in a quoted URL is the whole text. -/
theorem findAll_quotedUrl_between : (between quote (Key.apiMark ++ name)).findAll quotedUrl =
    [between quote (Key.apiMark ++ name)] := by
  have hbody : ∀ c ∈ Key.apiMark ++ name, isScriptQuote c = false := apiName_unquoted fun c hc => (hname c hc).2
  have hurl : apiUrl (Key.apiMark ++ name) = some (Key.apiMark ++ name, _) :=
    apiUrl_iff.2 ⟨name, [], by simp, hne, fun c hc => urlChar_iff.2 (.inl (hname c hc).1), by simp, rfl, rfl⟩
  have hhas : (Text.findFirst? apiUrl (Key.apiMark ++ name)).isSome = true := by
    rw [← head?_findAll, findAll_whole (by simp [Key.apiMark]) hurl]
    rfl
  have hfound : quotedUrl (between quote (Key.apiMark ++ name)) =
      some (between quote (Key.apiMark ++ name), (between quote (Key.apiMark ++ name)).length) := by
    rw [between, quotedUrl, if_pos hquote, quotedBody?_concat hbody hquote]
    dsimp only
    rw [if_pos hhas]
    simp
    omega
  exact findAll_whole (List.cons_ne_nil _ _) hfound

/-- A quoted URL gives a bare URL and that of a string, both with what the URL takes of the closing quote. So the
string gives the URL as it is written exactly if the quotes are single or double ones. -/
theorem quoted_url_exact_iff :
    urls (between quote (Key.apiMark ++ name)) =
      [⟨Key.apiMark ++ name ++ kept quote, .embeddedUrl⟩, ⟨Key.apiMark ++ name ++ kept quote, .templateUrl⟩] ∧
    (⟨Key.apiMark ++ name, .templateUrl⟩ ∈ urls (between quote (Key.apiMark ++ name)) ↔ isQuote quote = true) := by
  have hbare := findAll_apiUrl_between hquote hne hname
  have hfirst : Text.findFirst? apiUrl (between quote (Key.apiMark ++ name)) =
      some (Key.apiMark ++ name ++ kept quote) := by
    rw [← head?_findAll, hbare]
    rfl
  have hplain : ∀ c ∈ name ++ kept quote, endsUrl c = false := fun c hc => by
    rcases List.mem_append.1 hc with hc | hc
    · exact (hname c hc).1
    · exact kept_plain hquote c hc
  have hquery : dropQuery (Key.apiMark ++ name ++ kept quote) = Key.apiMark ++ name ++ kept quote := by
    have hall := @dropQuery_tail _ [] hplain (by simp) (by simp)
    rwa [List.append_nil, ← List.append_assoc] at hall
  have hurls : urls (between quote (Key.apiMark ++ name)) =
      [⟨Key.apiMark ++ name ++ kept quote, .embeddedUrl⟩, ⟨Key.apiMark ++ name ++ kept quote, .templateUrl⟩] := by
    unfold urls
    rw [hbare, findAll_quotedUrl_between hquote hne hname, List.filterMap_cons, hfirst, List.map_cons, Option.map_some,
      hquery]
    rfl
  refine ⟨hurls, ?_⟩
  rw [hurls, ← kept_eq_nil_iff hquote]
  simp

end Quoted

theorem sample_quoted_url_exact_iff :
    isScriptQuote '"' = true ∧ ("a/b" : Text) ≠ [] ∧
    (∀ c ∈ ("a/b" : Text), endsUrl c = false ∧ isScriptQuote c = false) ∧
    ⟨"/api/a/b", .templateUrl⟩ ∈ urls "\"/api/a/b\"" := by
  have hname : ∀ c ∈ ("a/b" : Text), endsUrl c = false ∧ isScriptQuote c = false := fun c hc =>
    Bool.or_eq_false_iff.1 (@none_of_any (fun c => endsUrl c || isScriptQuote c) _ (by decide) c hc)
  exact ⟨rfl, by decide, hname, (@quoted_url_exact_iff "a/b" '"' rfl (by decide) hname).2.2 rfl⟩

/-- Between template quotes the closing quote becomes a part of the URL. -/
theorem template_quote_kept :
    urls "\x60/api/x\x60" = [⟨"/api/x\x60", .embeddedUrl⟩, ⟨"/api/x\x60", .templateUrl⟩] ∧
    ⟨"/api/x", .templateUrl⟩ ∉ urls "\x60/api/x\x60" := by
  decide

end ActionSweep.Extract
