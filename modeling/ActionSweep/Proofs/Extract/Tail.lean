/-
URLs of the API with a query or a fragment behind them. A page is searched for the URL, and what stands behind
it is cut off. A script is searched for whole strings, so there the tail stays part of the reference, which then
names another key than the URL does.
-/
import ActionSweep.Proofs.Scan.Literal
import ActionSweep.Proofs.Extract.UrlFields

namespace ActionSweep

/-! ## Keys of URLs with a tail -/

namespace Key

/-- What the extension does not have stays where it is cut off. -/
theorem mem_dropExtension {c : Char} (hc : c ∉ extension) (t : Text) : c ∈ dropExtension t ↔ c ∈ t := by
  by_cases h : extension <:+ t
  · obtain ⟨u, rfl⟩ := h
    rw [dropExtension_append]
    simp [hc]
  · rw [dropExtension_of_not_suffix h]

/-- A tail that begins with a mark which the URL does not have makes the key another one. -/
theorem dropExtension_tail {url tail : Text} (htail : ∀ c ∈ tail.head?, c ∉ extension ∧ c ∉ url) :
    dropExtension (url ++ tail) = dropExtension url ↔ tail = [] := by
  constructor
  · intro h
    cases tail with
    | nil => rfl
    | cons c tail =>
      obtain ⟨hc, hurl⟩ := htail c rfl
      rw [← mem_dropExtension hc, ← h, mem_dropExtension hc] at hurl
      exact absurd (List.mem_append_right url (List.mem_cons_self ..)) hurl
  · rintro rfl
    rw [List.append_nil]

end Key

namespace Extract

open Text (dropBeginning?_append divide_unique findAll_whole findFrom_none)

/-! ## Scripts with one string -/

/-- A text with a single string in it has nothing but what stands before that string in front of any string. -/
theorem front_of_onlyString {front inside back before more rest : Text} {opening closing quote other : Char}
    (hfront : ∀ c ∈ front, isScriptQuote c = false) (hopening : isScriptQuote opening = true)
    (hinside : ∀ c ∈ inside, isScriptQuote c = false) (hclosing : isScriptQuote closing = true)
    (hback : ∀ c ∈ back, isScriptQuote c = false) (hquote : isScriptQuote quote = true) (hother : isScriptQuote other = true)
    (h : front ++ opening :: (inside ++ closing :: back) = before ++ quote :: (more ++ other :: rest)) :
    before = front := by
  have none : ∀ {t : Text}, (∀ c ∈ t, isScriptQuote c = false) → t.countP isScriptQuote = 0 := fun ht =>
    List.countP_eq_zero.2 fun c hc => by rw [ht c hc]; decide
  -- there are two quotes on the left, so there is none before these two on the right
  have hcount := congrArg (List.countP isScriptQuote) h
  simp only [List.countP_append, List.countP_cons, none hfront, none hinside, none hback, hopening, hclosing, hquote,
    hother, if_true] at hcount
  have hbefore : ∀ c ∈ before, isScriptQuote c = false := fun c hc => by
    have := List.countP_eq_zero.1 (show before.countP isScriptQuote = 0 by omega) c hc
    simpa using this
  exact (divide_unique hfront hopening hbefore hquote h).1.symm

section OneString

variable {front inside back : Text} {opening closing : Char} (hfront : ∀ c ∈ front, isScriptQuote c = false)
  (hopening : isScriptQuote opening = true) (hinside : ∀ c ∈ inside, isScriptQuote c = false)
  (hclosing : isScriptQuote closing = true) (hback : ∀ c ∈ back, isScriptQuote c = false)

include hfront hopening hinside hclosing hback

theorem noFetchCall_of_front (h : '(' ∉ front) :
    (front ++ opening :: (inside ++ closing :: back)).findAll fetchCall = [] := by
  refine findFrom_none fun u ⟨v, hv⟩ => ?_
  by_contra hcall
  obtain ⟨⟨url, n⟩, hcall⟩ := Option.ne_none_iff_exists'.1 hcall
  obtain ⟨call, rest, rfl, -, -⟩ := FetchCall.iff.1 hcall
  have htext : front ++ opening :: (inside ++ closing :: back) =
      v ++ call.front ++ call.opening :: (call.url ++ call.closing :: (call.back ++ rest)) := by
    rw [← hv]
    simp [FetchCall.text]
  have hsame := front_of_onlyString hfront hopening hinside hclosing hback call.quote_opening call.quote_closing htext
  exact h (by simp [← hsame, FetchCall.front])

theorem noUrlField_of_front (h : ':' ∉ front) :
    (front ++ opening :: (inside ++ closing :: back)).findAll urlField = [] := by
  refine findFrom_none fun u ⟨v, hv⟩ => ?_
  by_contra hfield
  obtain ⟨⟨url, n⟩, hfield⟩ := Option.ne_none_iff_exists'.1 hfield
  obtain ⟨field, other, rest, rfl, hother, -, -, -⟩ := urlField_iff.1 hfield
  have htext : front ++ opening :: (inside ++ closing :: back) =
      v ++ field.front ++ field.opening :: (field.inside ++ other :: rest) := by
    rw [← hv]
    simp [OpenField.text]
  have hsame := front_of_onlyString hfront hopening hinside hclosing hback field.quote_opening hother htext
  exact h (by simp [← hsame, OpenField.front])

end OneString

variable {url : Text}

/-- A script that fetches a URL, and nothing else. -/
def fetching (url : Text) : Text := "fetch(" ++ '\'' :: (url ++ '\'' :: [')'])

/-- A script with a url field, and nothing else. -/
def urlFieldOf (url : Text) : Text := "url: " ++ '\'' :: (url ++ ['\''])

variable {url tail : Text}

theorem script_fetching (hurl : ∀ c ∈ url, isScriptQuote c = false) (hmark : Key.apiMark <+: url) :
    script (fetching url) = [⟨url, .scriptFetchCall⟩] := by
  have hne : url ≠ [] := by
    rintro rfl
    exact absurd hmark (by decide)
  let call : FetchCall := ⟨[], [], '\'', url, '\'', [], by simp, by simp, by simp, rfl, rfl, hne, hurl⟩
  have hcall : Text.findAll fetchCall (fetching url) = [url] :=
    findAll_whole (by simp [fetching]) (FetchCall.iff.2 ⟨call, [], (List.append_nil _).symm, rfl, rfl⟩)
  have hfield : Text.findAll urlField (fetching url) = [] :=
    noUrlField_of_front (Text.none_of_any (by decide)) rfl hurl rfl (Text.none_of_any (by decide)) (by decide)
  unfold script
  rw [hcall, hfield]
  simp [hmark]

theorem script_urlFieldOf (hurl : ∀ c ∈ url, isScriptQuote c = false) (hmark : Key.apiMark <+: url) :
    script (urlFieldOf url) = [⟨url, .scriptAjaxUrl⟩] := by
  have hne : url ≠ [] := by
    rintro rfl
    exact absurd hmark (by decide)
  let field : OpenField := ⟨[], [' '], '\'', url, by simp, List.forall_mem_singleton.2 rfl, rfl, hurl⟩
  have hfield : Text.findAll urlField (urlFieldOf url) = [url] :=
    findAll_whole (by simp [urlFieldOf]) (urlField_iff.2 ⟨field, '\'', [], rfl, rfl, rfl, hne, by
      simp [urlFieldOf, field, OpenField.text, OpenField.front]⟩)
  have hcall : Text.findAll fetchCall (urlFieldOf url) = [] :=
    noFetchCall_of_front (Text.none_of_any (by decide)) rfl hurl rfl (by simp) (by decide)
  unfold script
  rw [hcall, hfield]
  simp [hmark]

/-! ## URLs with a tail -/

/-- A URL of the API, and what stands behind it in a string: a query, a fragment, or nothing. -/
structure TailedUrl (url tail : Text) : Prop where
  named : ∃ name, name ≠ [] ∧ url = Key.apiMark ++ name
  plain : ∀ c ∈ url, endsUrl c = false ∧ isScriptQuote c = false
  unquoted : ∀ c ∈ tail, isScriptQuote c = false
  marked : ∀ c ∈ tail.head?, c = '?' ∨ c = '#'

theorem TailedUrl.mem_markup (h : TailedUrl url tail) :
    ⟨url, .embeddedUrl⟩ ∈ markup ('\'' :: (url ++ tail ++ ['\''])) := by
  obtain ⟨name, hne, rfl⟩ := h.named
  have hafter : ∀ c ∈ (tail ++ ['\'']).head?, endsUrl c = true := by
    intro c hc
    cases tail with
    | nil =>
      cases hc
      decide
    | cons d tail =>
      cases hc
      rcases h.marked _ rfl with rfl | rfl <;> decide
  have hquoted : QuotesUrl ([] ++ '\'' :: (Key.apiMark ++ (name ++ (tail ++ ['\''])))) (Key.apiMark ++ name) :=
    .behind [] rfl hne (fun c hc => (h.plain c (List.mem_append_right _ hc)).1) hafter
  have hfound := hquoted.found
  unfold markup
  refine List.mem_append_right _ ?_
  simpa using hfound

/-- A URL with a tail: a script refers to the URL with its tail, a page to the URL. So the references of a script
name the key of the URL exactly if there is no tail. -/
theorem tailed_url_kept (h : TailedUrl url tail) :
    ∃ key, Key.ofReference .action url = some key ∧
      ⟨url, .embeddedUrl⟩ ∈ markup ('\'' :: (url ++ tail ++ ['\''])) ∧
      script (fetching (url ++ tail)) = [⟨url ++ tail, .scriptFetchCall⟩] ∧
      script (urlFieldOf (url ++ tail)) = [⟨url ++ tail, .scriptAjaxUrl⟩] ∧
      (Key.ofReference .action (url ++ tail) = some key ↔ tail = []) := by
  have hmark : Key.apiMark <+: url := by
    obtain ⟨name, -, rfl⟩ := h.named
    exact List.prefix_append ..
  have hmark' : Key.apiMark <+: url ++ tail := hmark.trans (List.prefix_append ..)
  have hquotes : ∀ c ∈ url ++ tail, isScriptQuote c = false := by
    intro c hc
    rcases List.mem_append.1 hc with hc | hc
    · exact (h.plain c hc).2
    · exact h.unquoted c hc
  have hkey : Key.ofReference .action url = _ := Key.ofReference_of_mark hmark
  refine ⟨_, hkey, h.mem_markup, script_fetching hquotes hmark', script_urlFieldOf hquotes hmark', ?_⟩
  rw [Key.ofReference_of_mark hmark', Option.some.injEq]
  refine Key.dropExtension_tail fun c hc => ?_
  have hends : c ∉ Key.extension ∧ endsUrl c = true := by
    rcases h.marked c hc with rfl | rfl <;> decide
  exact ⟨hends.1, fun hin => by rw [(h.plain c hin).1] at hends; cases hends.2⟩

theorem tailedUrl_query : TailedUrl "/api/a" "?b=1" where
  named := ⟨['a'], by decide, rfl⟩
  plain c hc := Bool.or_eq_false_iff.1 (Text.none_of_any (p := fun c => endsUrl c || isScriptQuote c) (by decide) c hc)
  unquoted := Text.none_of_any (by decide)
  marked := by
    rintro c ⟨⟩
    exact .inl rfl

theorem sample_tailed_url_kept :
    TailedUrl "/api/a" "?b=1" ∧ ∃ key, Key.ofReference .action "/api/a" = some key ∧
      ⟨"/api/a", .embeddedUrl⟩ ∈ markup "'/api/a?b=1'" ∧
      script "fetch('/api/a?b=1')" = [⟨"/api/a?b=1", .scriptFetchCall⟩] ∧
      script "url: '/api/a?b=1'" = [⟨"/api/a?b=1", .scriptAjaxUrl⟩] ∧
      Key.ofReference .action "/api/a?b=1" ≠ some key := by
  obtain ⟨key, hkey, hmarkup, hfetch, hfield, hiff⟩ := tailed_url_kept tailedUrl_query
  exact ⟨tailedUrl_query, key, hkey, hmarkup, hfetch, hfield, mt hiff.1 (by decide)⟩

/-- The only call of an action is a script that fetches its URL with a query. It names another key, so the action
is safe to delete. -/
theorem query_call_missed :
    TailedUrl "/api/a" "?b=1" ∧ script "fetch('/api/a?b=1')" = [⟨"/api/a?b=1", .scriptFetchCall⟩] ∧
    Key.ofReference .action "/api/a" = some "/api/a" ∧ Key.ofReference .action "/api/a?b=1" = some "/api/a?b=1" ∧
    ∃ r, (Sample.scanner.scan (Sample.namedDisk .empty (Sample.file "s.js" "fetch('/api/a?b=1')" .empty))).1 = .ok r ∧
      r.actions.map (fun a => (a.key, a.confidence)) = [(("/api/a" : Text), Confidence.safeToDelete)] ∧
      r.unresolved.map (fun u => (u.1, u.2.map Reference.original)) =
        [(("lib/b" : Text), [("b" : Text)]), (("/api/a?b=1" : Text), [("/api/a?b=1" : Text)])] :=
  ⟨tailedUrl_query, by decide, by decide, by decide, Outcome.ok_of_check (by decide +kernel)⟩

end Extract

end ActionSweep
