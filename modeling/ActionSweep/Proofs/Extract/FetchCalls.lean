/-
Fetch calls in scripts. The calls of URLs of the API that are found in a script are those that are written in it, each
once and in the order of the text: no earlier call reaches into a later one. A call is written when its bracket is
closed behind the string. A call with a second argument is therefore none, wherever it stands.
-/
import ActionSweep.Proofs.Sample
import ActionSweep.Proofs.Extract.Literal

namespace ActionSweep.Extract

open Text (divide_unique none_of_any keptAt keptAt_eq_some filter_findAll filterMap_tails_append)

/-! ## One call at a place -/

/-- A text begins with one call at most. -/
theorem FetchCall.text_unique {a b : FetchCall} {rest rest' : Text} (h : a.text ++ rest = b.text ++ rest') :
    a = b ∧ rest = rest' := by
  rw [text_append, text_append] at h
  obtain ⟨hfront, hopening, hstring⟩ :=
    divide_unique (front_unquoted a) a.quote_opening (front_unquoted b) b.quote_opening h
  obtain ⟨hurl, hclosing, hback⟩ :=
    divide_unique a.url_unquoted a.quote_closing b.url_unquoted b.quote_closing hstring
  rw [back, back, List.append_assoc, List.append_assoc] at hback
  obtain ⟨hbehindString, -, hrest⟩ :=
    divide_blanks a.blank_behindString (by decide) b.blank_behindString (by decide) hback
  obtain ⟨hbehindName, -, hbehindBracket⟩ := divide_blanks a.blank_behindName (by decide) b.blank_behindName (by decide)
    (List.append_cancel_left hfront)
  refine ⟨?_, hrest⟩
  cases a
  cases b
  simp_all

/-! ## The calls of a text -/

/-- The URL of the API that is called at the beginning of a text. -/
def callAt? : Text → Option Text := keptAt fetchCall (Key.apiMark.isPrefixOf ·)

theorem callAt?_eq_some {t url : Text} : callAt? t = some url ↔
    ∃ call : FetchCall, ∃ rest, t = call.text ++ rest ∧ url = call.url ∧ Key.apiMark <+: call.url := by
  rw [callAt?, keptAt_eq_some, List.isPrefixOf_iff_prefix]
  constructor
  · rintro ⟨⟨n, hcall⟩, hmark⟩
    obtain ⟨call, rest, rfl, rfl, -⟩ := FetchCall.iff.1 hcall
    exact ⟨call, rest, rfl, rfl, hmark⟩
  · rintro ⟨call, rest, rfl, rfl, hmark⟩
    exact ⟨⟨_, FetchCall.iff.2 ⟨call, rest, rfl, rfl, rfl⟩⟩, hmark⟩

/-- The URLs of the API that are called at the places of a text, from left to right. -/
def callsOf (t : Text) : List Text := t.tails.filterMap callAt?

/-- The references to fetch calls in a script. -/
def fetchCallReferences (t : Text) : List RawReference := (script t).filter (·.provenance = .scriptFetchCall)

/-- No call is reached over by an earlier one, so the search finds the calls at all places. -/
theorem fetchCallReferences_eq (t : Text) : fetchCallReferences t = (callsOf t).map (⟨·, .scriptFetchCall⟩) := by
  have hcalls : (t.findAll fetchCall).filter (Key.apiMark.isPrefixOf ·) = callsOf t := by
    refine filter_findAll rfl (fun {v u a b n m} hv hearlier hlater hmark => ?_) t
    obtain ⟨earlier, rest', htext, -, rfl⟩ := FetchCall.iff.1 hearlier
    obtain ⟨later, rest, rfl, rfl, -⟩ := FetchCall.iff.1 hlater
    exact FetchCall.apart hv (List.isPrefixOf_iff_prefix.1 hmark) htext
  rw [fetchCallReferences, script, hcalls]
  simp [List.filter_append, List.filter_map, Function.comp_def]

/-- A place in a text at which a call of a URL of the API is written. -/
structure CallIn (text : Text) where
  before : Text
  call : FetchCall
  after : Text
  stands : text = before ++ (call.text ++ after)
  api : Key.apiMark <+: call.url

namespace CallIn

variable {text : Text}

/-- The same call with one more character before it. -/
def behind (c : Char) (call : CallIn text) : CallIn (c :: text) :=
  ⟨c :: call.before, call.call, call.after, congrArg (c :: ·) call.stands, call.api⟩

theorem found (call : CallIn text) (h : call.before = []) : callAt? text = some call.call.url :=
  callAt?_eq_some.2 ⟨call.call, call.after, by simpa [h] using call.stands, rfl, call.api⟩

/-- Calls at the beginning of a text are the same. -/
theorem eq_of_begin {a b : CallIn text} (ha : a.before = []) (hb : b.before = []) : a = b := by
  obtain ⟨_, call, after, hstands, _⟩ := a
  obtain ⟨_, call', after', hstands', _⟩ := b
  cases ha
  cases hb
  obtain ⟨rfl, rfl⟩ := FetchCall.text_unique (hstands.symm.trans hstands')
  rfl

/-- A call stands at the beginning or behind the first character. -/
theorem begin_or_behind {c : Char} (call : CallIn (c :: text)) :
    call.before = [] ∨ ∃ later : CallIn text, call = later.behind c := by
  obtain ⟨before, call, after, hstands, api⟩ := call
  cases before with
  | nil => exact .inl rfl
  | cons d before =>
    obtain ⟨rfl, hbehind⟩ := List.cons.inj hstands
    exact .inr ⟨⟨before, call, after, hbehind, api⟩, rfl⟩

end CallIn

theorem callsOf_cons (c : Char) (t : Text) : callsOf (c :: t) = (callAt? (c :: t)).toList ++ callsOf t := by
  rw [callsOf, List.tails_cons, List.filterMap_cons]
  cases callAt? (c :: t) <;> rfl

/-- The calls that are found are, in their order, the calls that are written. -/
theorem exists_calls (t : Text) : ∃ calls : List (CallIn t),
    calls.Pairwise (fun a b => a.before.length < b.before.length) ∧ (∀ call, call ∈ calls) ∧
    callsOf t = calls.map (·.call.url) := by
  induction t with
  | nil =>
    refine ⟨[], .nil, fun call => ?_, rfl⟩
    obtain ⟨before, call, after, hstands, -⟩ := call
    simp [FetchCall.text, FetchCall.front] at hstands
  | cons c t ih =>
    obtain ⟨calls, hordered, hall, hurls⟩ := ih
    have hlater : (calls.map (CallIn.behind c)).Pairwise fun a b => a.before.length < b.before.length :=
      List.pairwise_map.2 (hordered.imp fun h => Nat.succ_lt_succ h)
    have hlaterUrls : callsOf t = (calls.map (CallIn.behind c)).map (·.call.url) := by
      rw [hurls, List.map_map]
      rfl
    have hmem : ∀ call : CallIn (c :: t), call.before ≠ [] → call ∈ calls.map (CallIn.behind c) := by
      intro call hbefore
      obtain ⟨later, rfl⟩ := call.begin_or_behind.resolve_left hbefore
      exact List.mem_map_of_mem (hall later)
    cases hfirst : callAt? (c :: t) with
    | none =>
      refine ⟨_, hlater, fun call => hmem call fun hbefore => ?_, ?_⟩
      · rw [call.found hbefore] at hfirst
        cases hfirst
      · rw [callsOf_cons, hfirst, hlaterUrls]
        rfl
    | some url =>
      obtain ⟨call, rest, hstands, rfl, api⟩ := callAt?_eq_some.1 hfirst
      let first : CallIn (c :: t) := ⟨[], call, rest, hstands, api⟩
      refine ⟨first :: calls.map (CallIn.behind c), List.pairwise_cons.2 ⟨fun later hin => ?_, hlater⟩, fun other => ?_,
        ?_⟩
      · obtain ⟨later, -, rfl⟩ := List.mem_map.1 hin
        exact Nat.succ_pos _
      · by_cases hbefore : other.before = []
        · rw [CallIn.eq_of_begin (b := first) hbefore rfl]
          exact List.mem_cons_self ..
        · exact List.mem_cons_of_mem _ (hmem other hbefore)
      · rw [callsOf_cons, hfirst, hlaterUrls]
        rfl

/-- The references to fetch calls in a text are one for each call of a URL of the API that is written in it, in the
order of the text, whatever else the text has. -/
theorem fetch_calls_exact (t : Text) : ∃ calls : List (CallIn t),
    calls.Pairwise (fun a b => a.before.length < b.before.length) ∧ (∀ call, call ∈ calls) ∧
    fetchCallReferences t = calls.map fun call => ⟨call.call.url, .scriptFetchCall⟩ := by
  obtain ⟨calls, hordered, hall, hurls⟩ := exists_calls t
  refine ⟨calls, hordered, hall, ?_⟩
  rw [fetchCallReferences_eq, hurls, List.map_map]
  rfl

/-! ## What stands behind the string -/

theorem callAt?_of_letter {c : Char} {t : Text} (h : c ≠ 'f') : callAt? (c :: t) = none := by
  rw [Option.eq_none_iff_forall_ne_some]
  intro url hurl
  obtain ⟨call, rest, htext, -, -⟩ := callAt?_eq_some.1 hurl
  exact h (List.cons.inj htext).1

/-- No call begins among characters that are not its first letter. -/
theorem callsOf_skip {t : Text} : ∀ {skipped : Text}, 'f' ∉ skipped → callsOf (skipped ++ t) = callsOf t
  | [], _ => rfl
  | c :: skipped, h => by
    rw [List.mem_cons, not_or] at h
    rw [List.cons_append, callsOf_cons, callAt?_of_letter (Ne.symm h.1), callsOf_skip h.2]
    rfl

theorem letter_ne_quote {quote : Char} (hquote : isScriptQuote quote = true) : 'f' ≠ quote := by
  rintro rfl
  exact absurd hquote (by decide)

/-- A call that begins inside a string has the end of that string for its opening quote. So if no slash follows there,
it is not a call of a URL of the API. -/
theorem callsOf_string {inside after : Text} {quote : Char} (hinside : ∀ c ∈ inside, isScriptQuote c = false)
    (hquote : isScriptQuote quote = true) (hafter : ∀ c ∈ after.head?, c ≠ '/') :
    callsOf (inside ++ quote :: after) = callsOf after := by
  induction inside with
  | nil =>
    have hskip : callsOf ([quote] ++ after) = callsOf after := callsOf_skip (by simpa using letter_ne_quote hquote)
    exact hskip
  | cons c inside ih =>
    have hnone : callAt? (c :: inside ++ quote :: after) = none := by
      rw [Option.eq_none_iff_forall_ne_some]
      intro url hurl
      obtain ⟨call, rest, htext, -, name, hname⟩ := callAt?_eq_some.1 hurl
      rw [FetchCall.text_append, ← hname] at htext
      obtain ⟨-, -, rfl⟩ :=
        divide_unique hinside hquote (FetchCall.front_unquoted call) call.quote_opening htext
      exact hafter '/' rfl rfl
    rw [List.cons_append] at hnone ⊢
    rw [callsOf_cons, hnone, ih fun d hd => hinside d (List.mem_cons_of_mem c hd)]
    rfl

/-- What is written like the beginning of a call does not change the calls before it. -/
theorem callAt?_append {v front rest : Text} {opening : Char} (hv : v ≠ [])
    (hfront : ∀ c ∈ 'f' :: front, isScriptQuote c = false) (hopening : isScriptQuote opening = true) :
    callAt? (v ++ 'f' :: (front ++ opening :: '/' :: rest)) = callAt? v := by
  ext url
  rw [callAt?_eq_some, callAt?_eq_some]
  constructor
  · rintro ⟨call, behind, htext, rfl, hmark⟩
    have hshort := FetchCall.apart_string hv hfront hopening htext
    obtain ⟨behind, rfl⟩ : call.text <+: v :=
      List.prefix_of_prefix_length_le ⟨_, htext.symm⟩ (List.prefix_append _ _) hshort
    exact ⟨call, behind, rfl, rfl, hmark⟩
  · rintro ⟨call, behind, rfl, rfl, hmark⟩
    exact ⟨call, _, List.append_assoc .., rfl, hmark⟩

/-- The fetch of a URL of the API, up to the end of its string, and what stands behind it. -/
def fetchOf (quote : Char) (name behind : Text) : Text :=
  "fetch(" ++ quote :: (Key.apiMark ++ name ++ quote :: behind)

section Fetch

variable {before name behind after : Text} {quote : Char} (hquote : isScriptQuote quote = true)
  (hname : ∀ c ∈ name, isScriptQuote c = false)

include hquote hname

theorem callsOf_fetchOf (hbehind : ∀ c ∈ behind.head?, c ≠ '/') : callsOf (before ++ fetchOf quote name behind) =
    callsOf before ++ ((callAt? (fetchOf quote name behind)).toList ++ callsOf behind) := by
  have hbefore : ∀ v, v <:+ before → v ≠ [] → callAt? (v ++ fetchOf quote name behind) = callAt? v := fun v _ hv =>
    callAt?_append hv (none_of_any (by decide)) hquote
  have hinside : callsOf ("etch(" ++ [quote] ++ (Key.apiMark ++ name ++ quote :: behind)) = callsOf behind := by
    rw [callsOf_skip, callsOf_string (apiName_unquoted hname) hquote hbehind]
    simpa using letter_ne_quote hquote
  have hfetch : fetchOf quote name behind =
      'f' :: ("etch(" ++ [quote] ++ (Key.apiMark ++ name ++ quote :: behind)) := rfl
  rw [callsOf, filterMap_tails_append rfl hbefore, ← callsOf, ← callsOf, hfetch, callsOf_cons, hinside]

/-- A fetch is a call if its bracket is closed behind the string. -/
theorem callAt?_fetchOf {url : Text} : callAt? (fetchOf quote name behind) = some url ↔
    url = Key.apiMark ++ name ∧ ∃ blanks rest, behind = blanks ++ ')' :: rest ∧ ∀ c ∈ blanks, isBlank c = true := by
  rw [callAt?_eq_some]
  constructor
  · rintro ⟨call, rest, htext, rfl, -⟩
    rw [FetchCall.text_append] at htext
    obtain ⟨-, -, hstring⟩ :=
      divide_unique (none_of_any (by decide)) hquote (FetchCall.front_unquoted call) call.quote_opening htext
    obtain ⟨hurl, -, rfl⟩ :=
      divide_unique (apiName_unquoted hname) hquote call.url_unquoted call.quote_closing hstring
    exact ⟨hurl.symm, call.behindString, rest, List.append_assoc .., call.blank_behindString⟩
  · rintro ⟨rfl, blanks, rest, rfl, hblanks⟩
    let call : FetchCall := ⟨[], [], quote, Key.apiMark ++ name, quote, blanks, by simp, by simp, hblanks, hquote,
      hquote, by simp [Key.apiMark], apiName_unquoted hname⟩
    refine ⟨call, rest, ?_, rfl, List.prefix_append ..⟩
    have hback : call.back ++ rest = blanks ++ ')' :: rest := List.append_assoc ..
    rw [FetchCall.text_append, hback]
    rfl

/-- What stands behind the string of a fetch decides, wherever the fetch stands. With a bracket it is a call, and its
URL is among the references; with a comma it is none, and the references are those before it and behind it. -/
theorem fetch_counts_if_closed :
    fetchCallReferences (before ++ fetchOf quote name (", " ++ after)) =
      fetchCallReferences before ++ fetchCallReferences after ∧
    fetchCallReferences (before ++ fetchOf quote name (")" ++ after)) =
      fetchCallReferences before ++ ⟨Key.apiMark ++ name, .scriptFetchCall⟩ :: fetchCallReferences after := by
  constructor
  · have hcomma : ∀ c ∈ (", " ++ after : Text).head?, c ≠ '/' := by
      rintro c ⟨⟩
      decide
    have hopen : callAt? (fetchOf quote name (", " ++ after)) = none := by
      rw [Option.eq_none_iff_forall_ne_some]
      intro url hurl
      obtain ⟨-, blanks, rest, htext, hblanks⟩ := (callAt?_fetchOf hquote hname).1 hurl
      cases blanks with
      | nil => cases (List.cons.inj htext).1
      | cons c blanks =>
        obtain rfl : ',' = c := (List.cons.inj htext).1
        exact absurd (hblanks ',' (List.mem_cons_self ..)) (by decide)
    rw [fetchCallReferences_eq, callsOf_fetchOf hquote hname hcomma, hopen, callsOf_skip (by decide),
      fetchCallReferences_eq, fetchCallReferences_eq, ← List.map_append]
    rfl
  · have hbracket : ∀ c ∈ (")" ++ after : Text).head?, c ≠ '/' := by
      rintro c ⟨⟩
      decide
    have hclosed : callAt? (fetchOf quote name (")" ++ after)) = some (Key.apiMark ++ name) :=
      (callAt?_fetchOf hquote hname).2 ⟨rfl, [], after, rfl, by simp⟩
    rw [fetchCallReferences_eq, callsOf_fetchOf hquote hname hbracket, hclosed, callsOf_skip (by decide),
      fetchCallReferences_eq, fetchCallReferences_eq, List.map_append]
    rfl

end Fetch

theorem sample_fetch_counts_if_closed :
    isScriptQuote '\'' = true ∧ (∀ c ∈ ("a" : Text), isScriptQuote c = false) ∧
    fetchCallReferences "f = fetch('/api/a', fetch('/api/b'))" = [⟨"/api/b", .scriptFetchCall⟩] ∧
    fetchCallReferences "f = fetch('/api/a')fetch('/api/b'))" =
      [⟨"/api/a", .scriptFetchCall⟩, ⟨"/api/b", .scriptFetchCall⟩] := by
  have hname : ∀ c ∈ ("a" : Text), isScriptQuote c = false := none_of_any (by decide)
  obtain ⟨hcomma, hbracket⟩ := @fetch_counts_if_closed "f = " "a" "fetch('/api/b'))" '\'' rfl hname
  exact ⟨rfl, hname, hcomma.trans (by decide), hbracket.trans (by decide)⟩

/-- The only call of an action fetches its URL with options, and is no reference. The action is safe to delete. -/
theorem call_with_options_missed :
    fetchOf '\'' "a" (", " ++ "\x7bmethod: 'POST'\x7d)") = ("fetch('/api/a', \x7bmethod: 'POST'\x7d)" : Text) ∧
    script "fetch('/api/a', \x7bmethod: 'POST'\x7d)" = [] ∧
    ∃ r, (Sample.scanner.scan (Sample.namedDisk .empty
        (Sample.file "s.js" "fetch('/api/a', \x7bmethod: 'POST'\x7d)" .empty))).1 = .ok r ∧
      r.actions.map (fun a => (a.key, a.confidence)) = [(("/api/a" : Text), Confidence.safeToDelete)] :=
  ⟨by decide, by decide, Outcome.ok_of_check (by decide +kernel)⟩

end ActionSweep.Extract
