/-
What a text names literally is found. A URL of the API behind a quote is among the URLs of a page, and a
fetch call of such a URL among the references of a script, whatever else the text has around them.
-/
import ActionSweep.Extract.Markup
import ActionSweep.Extract.Script
import ActionSweep.Proofs.Extract.Search
import ActionSweep.Proofs.Routes.Spelling

namespace ActionSweep.Extract

open Text (takeWhile_run dropWhile_run none_of_any exists_run divide_unique mem_findAll dropBeginning?_append
  dropBeginning?_eq_some)

/-! ## URLs behind quotes -/

theorem apiUrl_iff {t url : Text} {n : Nat} : apiUrl t = some (url, n) ↔
    ∃ tail rest, t = Key.apiMark ++ (tail ++ rest) ∧ tail ≠ [] ∧ (∀ c ∈ tail, isUrlChar c = true) ∧
      (∀ c ∈ rest.head?, isUrlChar c = false) ∧ url = Key.apiMark ++ tail ∧ n = url.length := by
  unfold apiUrl
  constructor
  · intro h
    split at h
    · cases h
    · rename_i behind hmark
      rw [dropBeginning?_eq_some] at hmark
      obtain ⟨tail, rest, rfl, htail, -, hchars, hstop⟩ := exists_run isUrlChar behind
      dsimp only at h
      rw [htail] at h
      split at h
      · cases h
      · rename_i hne
        cases h
        exact ⟨tail, rest, hmark, by simpa using hne, hchars, hstop, rfl, by rw [List.length_append]⟩
  · rintro ⟨tail, rest, rfl, hne, hchars, hstop, rfl, rfl⟩
    rw [dropBeginning?_append]
    dsimp only
    rw [takeWhile_run hchars hstop, if_neg (by simpa using hne), List.length_append]

/-- What cannot stand in a URL that is spelled out. -/
def endsUrl (c : Char) : Bool := isQuote c || c = '?' || c = '&' || c = '#' || isBlank c

/-- The characters of URLs are these and the mark of fragments. -/
theorem urlChar_iff {c : Char} : isUrlChar c = true ↔ endsUrl c = false ∨ c = '#' := by
  unfold isUrlChar endsUrl
  by_cases h : c = '#'
  · subst h
    decide
  · simp [h]

theorem apiMark_plain : ∀ c ∈ Key.apiMark, endsUrl c = false := none_of_any (by decide)

theorem unquoted_of_urlChar {c : Char} (h : isUrlChar c = true) : isQuote c = false := by
  unfold isUrlChar at h
  simp only [Bool.not_eq_true', Bool.or_eq_false_iff] at h
  exact h.1.1.1

/-- No quote is part of a URL. -/
theorem apiUrl_unquoted {t url : Text} {n : Nat} (h : apiUrl t = some (url, n)) :
    url <+: t ∧ n = url.length ∧ ∀ c ∈ url, isQuote c = false := by
  obtain ⟨tail, rest, rfl, -, hchars, -, rfl, rfl⟩ := apiUrl_iff.1 h
  refine ⟨⟨rest, List.append_assoc ..⟩, rfl, fun c hc => ?_⟩
  rcases List.mem_append.1 hc with hmark | htail
  · exact unquoted_of_urlChar (urlChar_iff.2 (.inl (apiMark_plain c hmark)))
  · exact unquoted_of_urlChar (hchars c htail)

/-- A text has a URL of the API behind a quote, up to where a URL ends. -/
inductive QuotesUrl : Text → Text → Prop
  | behind {quote : Char} {tail after : Text} (before : Text) (hquote : isQuote quote = true) (hne : tail ≠ [])
      (htail : ∀ c ∈ tail, endsUrl c = false) (hafter : ∀ c ∈ after.head?, endsUrl c = true) :
      QuotesUrl (before ++ quote :: (Key.apiMark ++ (tail ++ after))) (Key.apiMark ++ tail)

/-- What a URL has behind its tail is a fragment, and is dropped. -/
theorem dropQuery_tail {tail after : Text} (htail : ∀ c ∈ tail, endsUrl c = false)
    (hafter : ∀ c ∈ after.head?, endsUrl c = true) (hurl : ∀ c ∈ after, isUrlChar c = true) :
    dropQuery (Key.apiMark ++ (tail ++ after)) = Key.apiMark ++ tail := by
  have hplain : ∀ c ∈ Key.apiMark ++ tail, endsUrl c = false := by
    intro c hc
    rcases List.mem_append.1 hc with hmark | hc
    · exact apiMark_plain c hmark
    · exact htail c hc
  have hquery : ∀ c ∈ Key.apiMark ++ tail ++ after, decide (c ≠ '?') = true := by
    intro c hc
    have hurlChar : isUrlChar c = true := by
      rcases List.mem_append.1 hc with hc | hc
      · exact urlChar_iff.2 (.inl (hplain c hc))
      · exact hurl c hc
    exact decide_eq_true (by rintro rfl; revert hurlChar; decide)
  have hfragment : ∀ c ∈ Key.apiMark ++ tail, decide (c ≠ '#') = true := fun c hc =>
    decide_eq_true (by rintro rfl; exact absurd (hplain '#' hc) (by decide))
  unfold dropQuery
  rw [← List.append_assoc, List.takeWhile_eq_self_iff.2 hquery, takeWhile_run hfragment]
  intro c hc
  have hends := hafter c hc
  rcases urlChar_iff.1 (hurl c (List.mem_of_mem_head? hc)) with h | rfl
  · rw [h] at hends
    cases hends
  · decide

/-- An earlier URL ends before the quote, so the search gets there. -/
theorem QuotesUrl.found {text url : Text} (h : QuotesUrl text url) : ⟨url, .embeddedUrl⟩ ∈ urls text := by
  obtain ⟨before, hquote, hne, htail, hafter⟩ := h
  rename_i quote tail after
  obtain ⟨more, rest, rfl, -, -, hmore, hrest⟩ := exists_run isUrlChar after
  -- the URL that is found may go on with a fragment
  have hfind : apiUrl (Key.apiMark ++ (tail ++ (more ++ rest))) =
      some (Key.apiMark ++ (tail ++ more), (Key.apiMark ++ (tail ++ more)).length) := by
    refine apiUrl_iff.2 ⟨tail ++ more, rest, by simp, by simp [hne], fun c hc => ?_, hrest, rfl, rfl⟩
    rcases List.mem_append.1 hc with h | h
    · exact urlChar_iff.2 (.inl (htail c h))
    · exact hmore c h
  have hmem : Key.apiMark ++ (tail ++ more) ∈
      (before ++ [quote] ++ (Key.apiMark ++ (tail ++ (more ++ rest)))).findAll apiUrl := by
    refine mem_findAll hfind (by simp [Key.apiMark]) fun v hv hvne u n hu => ?_
    obtain ⟨hbegins, rfl, hplain⟩ := apiUrl_unquoted hu
    by_contra hlong
    -- the quote would be inside the URL
    obtain ⟨front, rfl⟩ : ∃ front, v = front ++ [quote] := by
      rcases List.suffix_concat_iff.1 hv with rfl | ⟨front, rfl, -⟩
      · exact absurd rfl hvne
      · exact ⟨front, rfl⟩
    have hin := List.prefix_of_prefix_length_le (List.prefix_append _ _) hbegins (by omega)
    have := hplain quote (hin.subset (by simp))
    rw [hquote] at this
    cases this
  have hcut : dropQuery (Key.apiMark ++ (tail ++ more)) = Key.apiMark ++ tail := by
    refine dropQuery_tail htail (fun c hc => ?_) hmore
    refine hafter c ?_
    obtain ⟨cs, rfl⟩ := List.head?_eq_some_iff.1 hc
    rfl
  unfold urls
  refine List.mem_append_left _ (List.mem_map.2 ⟨_, ?_, by rw [hcut]⟩)
  simpa using hmem

/-! ## Fetch calls -/

theorem pass_iff {word t rest : Text} {n : Nat} : pass word t = some (rest, n) ↔
    ∃ blanks, t = word ++ (blanks ++ rest) ∧ (∀ c ∈ blanks, isBlank c = true) ∧
      (∀ c ∈ rest.head?, isBlank c = false) ∧ n = word.length + blanks.length := by
  unfold pass
  rw [Option.map_eq_some_iff]
  constructor
  · rintro ⟨behind, hword, h⟩
    obtain ⟨blanks, rest, rfl, htake, hdrop, hblanks, hstop⟩ := exists_run isBlank behind
    rw [htake, hdrop] at h
    cases h
    exact ⟨blanks, dropBeginning?_eq_some.1 hword, hblanks, hstop, rfl⟩
  · rintro ⟨blanks, rfl, hblanks, hstop, rfl⟩
    exact ⟨blanks ++ rest, dropBeginning?_append .., by rw [takeWhile_run hblanks hstop, dropWhile_run hblanks hstop]⟩

theorem scriptString_iff {t inside rest : Text} {n : Nat} : scriptString t = some (inside, rest, n) ↔
    ∃ opening closing, t = opening :: (inside ++ closing :: rest) ∧ isScriptQuote opening = true ∧
      isScriptQuote closing = true ∧ inside ≠ [] ∧ (∀ c ∈ inside, isScriptQuote c = false) ∧
      n = inside.length + 2 := by
  constructor
  · intro h
    cases t with
    | nil => cases h
    | cons opening t =>
      unfold scriptString at h
      dsimp only at h
      split at h
      · rename_i hopening
        obtain ⟨run, behind, rfl, htake, hdrop, hrun, hstop⟩ := exists_run (!isScriptQuote ·) t
        rw [htake, hdrop] at h
        cases behind with
        | nil => cases h
        | cons closing behind =>
          dsimp only at h
          split at h
          · cases h
          · rename_i hne
            cases h
            exact ⟨opening, closing, rfl, hopening, by simpa using hstop closing rfl, by simpa using hne,
              fun c hc => by simpa using hrun c hc, rfl⟩
      · cases h
  · rintro ⟨opening, closing, rfl, hopening, hclosing, hne, hinside, rfl⟩
    have hrun : ∀ c ∈ inside, (!isScriptQuote c) = true := fun c hc => by rw [hinside c hc]; rfl
    have hstop : ∀ c ∈ (closing :: rest).head?, (!isScriptQuote c) = false := by
      rintro c ⟨⟩
      rw [hclosing]
      rfl
    unfold scriptString
    dsimp only
    rw [if_pos hopening]
    rw [takeWhile_run hrun hstop, dropWhile_run hrun hstop]
    dsimp only
    rw [if_neg (by simpa using hne)]

theorem notBlank_of_scriptQuote {c : Char} (h : isScriptQuote c = true) : isBlank c = false := by
  unfold isScriptQuote isQuote at h
  simp only [Bool.or_eq_true, decide_eq_true_eq] at h
  rcases h with (rfl | rfl) | rfl <;> decide

theorem unquoted_of_blank {c : Char} (hc : isBlank c = true) : isScriptQuote c = false := by
  by_contra h
  rw [notBlank_of_scriptQuote (by simpa using h)] at hc
  cases hc

theorem apiName_unquoted {name : Text} (hname : ∀ c ∈ name, isScriptQuote c = false) :
    ∀ c ∈ Key.apiMark ++ name, isScriptQuote c = false := by
  intro c hc
  rcases List.mem_append.1 hc with hc | hc
  · exact none_of_any (by decide) c hc
  · exact hname c hc

/-- What holds of a word, of a sign and of all blanks holds of the sign behind the word, with blanks behind both. -/
theorem forall_mem_front {p : Char → Prop} {word behindWord behindSign : Text} {sign : Char} (hword : ∀ c ∈ word, p c)
    (hsign : p sign) (hblank : ∀ {c}, isBlank c = true → p c) (hbehindWord : ∀ c ∈ behindWord, isBlank c = true)
    (hbehindSign : ∀ c ∈ behindSign, isBlank c = true) : ∀ c ∈ word ++ (behindWord ++ sign :: behindSign), p c := by
  intro c hc
  rcases List.mem_append.1 hc with h | h
  · exact hword c h
  rcases List.mem_append.1 h with h | h
  · exact hblank (hbehindWord c h)
  rcases List.mem_cons.1 h with rfl | h
  · exact hsign
  · exact hblank (hbehindSign c h)

/-- A letter is no blank. -/
theorem ne_of_blank {letter : Char} (h : isBlank letter = false) {c : Char} (hc : isBlank c = true) : letter ≠ c := by
  rintro rfl
  rw [h] at hc
  cases hc

/-- The first character that is no blank divides a text in one way only. -/
theorem divide_blanks {a b u v : Text} {x y : Char} (ha : ∀ c ∈ a, isBlank c = true) (hx : isBlank x = false)
    (hb : ∀ c ∈ b, isBlank c = true) (hy : isBlank y = false) (h : a ++ x :: u = b ++ y :: v) :
    a = b ∧ x = y ∧ u = v := by
  have blank : ∀ {t : Text}, (∀ c ∈ t, isBlank c = true) → ∀ c ∈ t, (!isBlank c) = false := fun ht c hc => by
    rw [ht c hc]
    rfl
  exact divide_unique (p := (!isBlank ·)) (blank ha) (by rw [hx]; rfl) (blank hb) (by rw [hy]; rfl) h

/-- A fetch call as it is written: a URL between script quotes, with blanks between the signs. -/
structure FetchCall where
  behindName : Text
  behindBracket : Text
  opening : Char
  url : Text
  closing : Char
  behindString : Text
  blank_behindName : ∀ c ∈ behindName, isBlank c = true
  blank_behindBracket : ∀ c ∈ behindBracket, isBlank c = true
  blank_behindString : ∀ c ∈ behindString, isBlank c = true
  quote_opening : isScriptQuote opening = true
  quote_closing : isScriptQuote closing = true
  url_nonempty : url ≠ []
  url_unquoted : ∀ c ∈ url, isScriptQuote c = false

namespace FetchCall

/-- What precedes the string. -/
def front (call : FetchCall) : Text := "fetch" ++ (call.behindName ++ '(' :: call.behindBracket)

/-- What follows the string. -/
def back (call : FetchCall) : Text := call.behindString ++ [')']

def text (call : FetchCall) : Text := call.front ++ call.opening :: (call.url ++ call.closing :: call.back)

theorem text_append (call : FetchCall) (rest : Text) :
    call.text ++ rest = call.front ++ call.opening :: (call.url ++ call.closing :: (call.back ++ rest)) := by
  simp [text]

/-- The calls that are found are the calls that are written. -/
theorem iff {t url : Text} {n : Nat} : fetchCall t = some (url, n) ↔
    ∃ call : FetchCall, ∃ rest, t = call.text ++ rest ∧ url = call.url ∧ n = call.text.length := by
  unfold fetchCall
  constructor
  · intro h
    simp only [Option.bind_eq_bind, Option.bind_eq_some_iff, Prod.exists, pass_iff, scriptString_iff] at h
    obtain ⟨t₁, a, ⟨b₁, rfl, hb₁, -, rfl⟩, t₂, b, ⟨b₂, rfl, hb₂, -, rfl⟩, inside, t₃, c,
      ⟨opening, closing, rfl, hopening, hclosing, hne, hinside, rfl⟩, h⟩ := h
    obtain ⟨b₃, behind, rfl, htake, hdrop, hb₃, -⟩ := exists_run isBlank t₃
    rw [htake, hdrop] at h
    cases behind with
    | nil => cases h
    | cons c rest =>
      by_cases hc : c = ')'
      · subst hc
        cases h
        refine ⟨⟨b₁, b₂, opening, url, closing, b₃, hb₁, hb₂, hb₃, hopening, hclosing, hne, hinside⟩, rest, ?_, rfl, ?_⟩
        · rw [text_append, front, back, List.append_assoc, List.append_assoc, List.append_assoc]
          rfl
        · simp [text, front, back]
          omega
      · split at h
        · rename_i he
          exact absurd (List.cons.inj he).1 hc
        · cases h
  · rintro ⟨call, rest, rfl, rfl, rfl⟩
    obtain ⟨b₁, b₂, opening, url, closing, b₃, hb₁, hb₂, hb₃, hopening, hclosing, hne, hinside⟩ := call
    have hname : pass "fetch" (text ⟨b₁, b₂, opening, url, closing, b₃, hb₁, hb₂, hb₃, hopening, hclosing, hne,
        hinside⟩ ++ rest) = some ('(' :: (b₂ ++ opening :: (url ++ closing :: (b₃ ++ ')' :: rest))), _) :=
      pass_iff.2 ⟨b₁, by rw [text_append, front, back, List.append_assoc, List.append_assoc, List.append_assoc]; rfl, hb₁,
        by rintro c ⟨⟩; decide, rfl⟩
    have hbracket : pass "(" ('(' :: (b₂ ++ opening :: (url ++ closing :: (b₃ ++ ')' :: rest)))) =
        some (opening :: (url ++ closing :: (b₃ ++ ')' :: rest)), _) :=
      pass_iff.2 ⟨b₂, by simp, hb₂, by rintro c ⟨⟩; exact notBlank_of_scriptQuote hopening, rfl⟩
    have hstring : scriptString (opening :: (url ++ closing :: (b₃ ++ ')' :: rest))) =
        some (url, b₃ ++ ')' :: rest, _) :=
      scriptString_iff.2 ⟨opening, closing, rfl, hopening, hclosing, hne, hinside, rfl⟩
    have hstop : ∀ c ∈ (')' :: rest).head?, isBlank c = false := by
      rintro c ⟨⟩
      decide
    simp only [hname, hbracket, hstring, Option.bind_eq_bind, Option.bind_some, takeWhile_run hb₃ hstop,
      dropWhile_run hb₃ hstop]
    simp [text, front, back]
    omega

theorem mem_back {call : FetchCall} {c : Char} (h : c ∈ call.back) : isBlank c = true ∨ c = ')' := by
  rcases List.mem_append.1 h with h | h
  · exact .inl (call.blank_behindString c h)
  · exact .inr (List.mem_singleton.1 h)

theorem front_unquoted (call : FetchCall) : ∀ c ∈ call.front, isScriptQuote c = false :=
  forall_mem_front (none_of_any (by decide)) rfl unquoted_of_blank call.blank_behindName call.blank_behindBracket

/-- The letter with which a call begins comes a second time inside its string only. -/
theorem letter_not_mem_front (call : FetchCall) : 'f' ∉ call.front.tail := by
  have hother : ∀ c ∈ "etch" ++ (call.behindName ++ '(' :: call.behindBracket), 'f' ≠ c :=
    forall_mem_front (List.forall_mem_ne.2 (by decide)) (by decide) (ne_of_blank rfl) call.blank_behindName
      call.blank_behindBracket
  exact List.forall_mem_ne.1 hother

theorem letter_not_mem_back (call : FetchCall) : 'f' ∉ call.closing :: call.back := by
  intro h
  rcases List.mem_cons.1 h with h | h
  · exact absurd call.quote_closing (by rw [← h]; decide)
  · rcases mem_back h with h | h
    · exact absurd h (by decide)
    · exact absurd h (by decide)

theorem letter_ne_opening (call : FetchCall) : call.opening ≠ 'f' := fun h =>
  absurd call.quote_opening (by rw [h]; decide)

/-- Nothing that is written like the beginning of a call, with a slash at the beginning of its string, begins inside
an earlier call: the string of the earlier one would end where this string begins, and no slash may follow there. -/
theorem apart_string {call : FetchCall} {v front rest rest' : Text} {opening : Char} (hv : v ≠ [])
    (hfront : ∀ c ∈ 'f' :: front, isScriptQuote c = false) (hopening : isScriptQuote opening = true)
    (h : v ++ 'f' :: (front ++ opening :: '/' :: rest) = call.text ++ rest') : call.text.length ≤ v.length := by
  by_contra hlong
  obtain ⟨w, hw, hrest⟩ : ∃ w, call.text = v ++ 'f' :: w ∧ front ++ opening :: '/' :: rest = w ++ rest' := by
    rcases List.append_eq_append_iff.1 h with ⟨w, htext, hrest⟩ | ⟨w, rfl, -⟩
    · cases w with
      | nil => rw [htext, List.append_nil] at hlong; omega
      | cons c w =>
        obtain ⟨rfl, hbehind⟩ := List.cons.inj hrest
        exact ⟨w, htext, hbehind⟩
    · rw [List.length_append] at hlong
      omega
  unfold text at hw
  rcases List.append_eq_append_iff.1 hw with ⟨u, rfl, hu⟩ | ⟨u, hname, hu⟩
  · -- the letter is not before the string of the call
    cases u with
    | nil => exact letter_ne_opening call (List.cons.inj hu).1
    | cons c u =>
      obtain ⟨-, hu⟩ := List.cons.inj hu
      rcases List.append_eq_append_iff.1 hu with ⟨x, -, hx⟩ | ⟨x, hurl, hx⟩
      · exact letter_not_mem_back call (by rw [hx]; simp)
      · -- it is inside the string, so the next quote ends the one string and begins the other
        have hquotes : 'f' :: front ++ opening :: '/' :: rest = x ++ call.closing :: (call.back ++ rest') := by
          rw [List.cons_append, hrest, ← List.cons_append, hx, List.append_assoc, List.cons_append]
        obtain ⟨-, -, hbehind⟩ := divide_unique hfront hopening
          (fun c hc => call.url_unquoted c (by rw [hurl]; exact List.mem_append_right _ hc)) call.quote_closing hquotes
        obtain ⟨c, back, hback⟩ := List.exists_cons_of_ne_nil (show call.back ≠ [] by simp [back])
        rw [hback] at hbehind
        obtain rfl : '/' = c := (List.cons.inj hbehind).1
        have hback : '/' ∈ call.back := hback ▸ List.mem_cons_self ..
        rcases mem_back hback with h | h
        · exact absurd h (by decide)
        · exact absurd h (by decide)
  · cases u with
    | nil => exact letter_ne_opening call (List.cons.inj hu).1.symm
    | cons c u =>
      obtain rfl : 'f' = c := (List.cons.inj hu).1
      obtain ⟨d, v, rfl⟩ := List.exists_cons_of_ne_nil hv
      exact letter_not_mem_front call (by rw [hname]; simp)

/-- A call of a URL of the API does not begin inside an earlier call. -/
theorem apart {a b : FetchCall} {v rest rest' : Text} (hv : v ≠ []) (hmark : Key.apiMark <+: b.url)
    (h : v ++ (b.text ++ rest) = a.text ++ rest') : a.text.length ≤ v.length := by
  obtain ⟨name, hname⟩ := hmark
  have hstring : b.text ++ rest =
      'f' :: (b.front.tail ++ b.opening :: '/' :: ("api/" ++ (name ++ b.closing :: (b.back ++ rest)))) := by
    rw [text_append, ← hname, List.append_assoc]
    rfl
  exact apart_string hv (front_unquoted b) b.quote_opening (hstring ▸ h)

end FetchCall

/-- A text has a fetch call of a URL of the API. -/
inductive Fetches : Text → Text → Prop
  | call (before : Text) (call : FetchCall) (after : Text) (hmark : Key.apiMark <+: call.url) :
    Fetches (before ++ (call.text ++ after)) call.url

theorem Fetches.found {text url : Text} (h : Fetches text url) : ⟨url, .scriptFetchCall⟩ ∈ script text := by
  obtain ⟨before, call, after, hmark⟩ := h
  have hmem : call.url ∈ (before ++ (call.text ++ after)).findAll fetchCall := by
    refine mem_findAll (FetchCall.iff.2 ⟨call, after, rfl, rfl, rfl⟩) (by simp [FetchCall.text]) fun v _ hv u n hu => ?_
    obtain ⟨earlier, rest, htext, -, rfl⟩ := FetchCall.iff.1 hu
    exact FetchCall.apart hv hmark htext
  unfold script
  refine List.mem_append_left _ (List.mem_map.2 ⟨_, List.mem_filter.2 ⟨hmem, ?_⟩, rfl⟩)
  rwa [List.isPrefixOf_iff_prefix]

end ActionSweep.Extract
