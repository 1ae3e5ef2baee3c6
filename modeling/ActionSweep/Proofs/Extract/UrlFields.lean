/-
Url fields in scripts. Any of the script quotes may end the string of a field, and a search that found a string goes
on behind it, also if the string does not name the API. So where `url:` stands right before the last quote in front of
a field, as at the end of another string, that quote can be taken for the beginning of a field whose string ends at the
opening quote of the field that follows, and this one is lost. It is found exactly if the places of this kind right
before it come in pairs, in each of which the first takes away the second.
-/
import ActionSweep.Proofs.Extract.Literal

namespace ActionSweep.Extract

open Text (divide_unique none_of_any exists_run findAll_found findAll_concat)

/-- A url field as it is written, up to a place in its string. -/
structure OpenField where
  behindName : Text
  behindColon : Text
  opening : Char
  inside : Text
  blank_behindName : ∀ c ∈ behindName, isBlank c = true
  blank_behindColon : ∀ c ∈ behindColon, isBlank c = true
  quote_opening : isScriptQuote opening = true
  inside_unquoted : ∀ c ∈ inside, isScriptQuote c = false

namespace OpenField

/-- What precedes the string. -/
def front (field : OpenField) : Text := "url" ++ (field.behindName ++ ':' :: field.behindColon)

def text (field : OpenField) : Text := field.front ++ field.opening :: field.inside

theorem length_pos (field : OpenField) : 0 < field.text.length := Nat.succ_pos _

theorem length_lt (before : Text) (field : OpenField) : before.length < (before ++ field.text).length := by
  rw [List.length_append]
  exact Nat.lt_add_of_pos_right field.length_pos

end OpenField

/-- The url fields that are found are those that are written and closed. -/
theorem urlField_iff {t url : Text} {n : Nat} : urlField t = some (url, n) ↔
    ∃ field : OpenField, ∃ closing rest, t = field.text ++ closing :: rest ∧ isScriptQuote closing = true ∧
      url = field.inside ∧ url ≠ [] ∧ n = field.text.length + 1 := by
  unfold urlField
  constructor
  · intro h
    simp only [Option.bind_eq_bind, Option.bind_eq_some_iff, Prod.exists, pass_iff, scriptString_iff] at h
    obtain ⟨t₁, a, ⟨b₁, rfl, hb₁, -, rfl⟩, t₂, b, ⟨b₂, rfl, hb₂, -, rfl⟩, inside, t₃, c,
      ⟨opening, closing, rfl, hopening, hclosing, hne, hinside, rfl⟩, h⟩ := h
    cases h
    refine ⟨⟨b₁, b₂, opening, url, hb₁, hb₂, hopening, hinside⟩, closing, t₃, ?_, hclosing, rfl, hne, ?_⟩
    · simp [OpenField.text, OpenField.front]
    · simp [OpenField.text, OpenField.front]
      omega
  · rintro ⟨⟨b₁, b₂, opening, inside, hb₁, hb₂, hopening, hinside⟩, closing, rest, rfl, hclosing, rfl, hne, rfl⟩
    have hname : pass "url" (OpenField.text ⟨b₁, b₂, opening, url, hb₁, hb₂, hopening, hinside⟩ ++ closing :: rest) =
        some (':' :: (b₂ ++ opening :: (url ++ closing :: rest)), _) :=
      pass_iff.2 ⟨b₁, by simp [OpenField.text, OpenField.front], hb₁, by rintro c ⟨⟩; decide, rfl⟩
    have hcolon : pass ":" (':' :: (b₂ ++ opening :: (url ++ closing :: rest))) =
        some (opening :: (url ++ closing :: rest), _) :=
      pass_iff.2 ⟨b₂, rfl, hb₂, by rintro c ⟨⟩; exact notBlank_of_scriptQuote hopening, rfl⟩
    have hstring : scriptString (opening :: (url ++ closing :: rest)) = some (url, rest, _) :=
      scriptString_iff.2 ⟨opening, closing, rfl, hopening, hclosing, hne, hinside, rfl⟩
    simp only [hname, hcolon, hstring, Option.bind_eq_bind, Option.bind_some]
    simp [OpenField.text, OpenField.front]
    omega

/-! ## Fields that reach over the beginning of another -/

namespace OpenField

theorem front_unquoted (field : OpenField) : ∀ c ∈ field.front, isScriptQuote c = false :=
  forall_mem_front (none_of_any (by decide)) rfl unquoted_of_blank field.blank_behindName field.blank_behindColon

/-- The letter with which a field begins does not come again before its string. -/
theorem letter_not_mem_front (field : OpenField) : 'u' ∉ field.front.tail := by
  have hother : ∀ c ∈ "rl" ++ (field.behindName ++ ':' :: field.behindColon), 'u' ≠ c :=
    forall_mem_front (List.forall_mem_ne.2 (by decide)) (by decide) (ne_of_blank rfl) field.blank_behindName
      field.blank_behindColon
  exact List.forall_mem_ne.1 hother

theorem text_append (field : OpenField) (rest : Text) :
    field.text ++ rest = field.front ++ field.opening :: (field.inside ++ rest) := by
  simp [text]

/-- A field that reaches over the place at which another one is written has begun its string before that place, and
has the name and the colon of the other one in it. -/
theorem reaches {a b : OpenField} {v rest rest' : Text} {closing : Char} (hv : v ≠ [])
    (hclosing : isScriptQuote closing = true) (h : v ++ (b.text ++ rest) = a.text ++ closing :: rest')
    (hlong : v.length < a.text.length + 1) :
    ∃ inside, a.inside = inside ++ b.front ∧ v = a.front ++ a.opening :: inside := by
  rw [text_append, text_append] at h
  obtain ⟨run, behind, rfl, -, -, hrun, hstop⟩ := exists_run (!isScriptQuote ·) v
  have hrun : ∀ c ∈ run, isScriptQuote c = false := fun c hc => by simpa using hrun c hc
  cases behind with
  | nil =>
    -- there is no quote before the place, so its letter is in front of the string
    exfalso
    rw [List.append_nil] at hv h
    have hplain : ∀ c ∈ run ++ b.front, isScriptQuote c = false := fun c hc => by
      rcases List.mem_append.1 hc with hc | hc
      · exact hrun c hc
      · exact front_unquoted b c hc
    rw [← List.append_assoc] at h
    obtain ⟨hfront, -, -⟩ := divide_unique hplain b.quote_opening (front_unquoted a) a.quote_opening h
    obtain ⟨c, run, rfl⟩ := List.exists_cons_of_ne_nil hv
    refine letter_not_mem_front a ?_
    rw [← hfront]
    simp [front]
  | cons quote inside =>
    have hquote : isScriptQuote quote = true := by simpa using hstop quote rfl
    rw [List.append_assoc, List.cons_append] at h
    obtain ⟨rfl, rfl, hstring⟩ := divide_unique hrun hquote (front_unquoted a) a.quote_opening h
    have hshort : inside.length ≤ a.inside.length := by
      simp only [text, List.length_append, List.length_cons] at hlong
      omega
    obtain ⟨more, hmore⟩ : inside <+: a.inside :=
      List.prefix_of_prefix_length_le ⟨_, hstring⟩ (List.prefix_append _ _) hshort
    rw [← hmore, List.append_assoc] at hstring
    obtain ⟨rfl, -, -⟩ := divide_unique (front_unquoted b) b.quote_opening
      (fun c hc => a.inside_unquoted c (by rw [← hmore]; exact List.mem_append_right _ hc)) hclosing
      (List.append_cancel_left hstring)
    exact ⟨inside, hmore.symm, rfl⟩

end OpenField

/-- The text ends in the string of what is written like a url field. -/
def EndsOpen (t : Text) : Prop := ∃ before, ∃ field : OpenField, t = before ++ field.text

theorem not_endsOpen_of_unquoted {t : Text} (h : ∀ c ∈ t, isScriptQuote c = false) : ¬ EndsOpen t := by
  rintro ⟨before, field, rfl⟩
  have hquote := h field.opening (by simp [OpenField.text])
  rw [field.quote_opening] at hquote
  cases hquote

theorem urlField_fits {t url : Text} {n : Nat} (h : urlField t = some (url, n)) : n ≤ t.length := by
  obtain ⟨field, closing, rest, rfl, -, -, -, rfl⟩ := urlField_iff.1 h
  simp

/-- What is written like a field changes what is found before it only if a string is open there. -/
theorem urlField_append {v rest : Text} {field : OpenField} (hv : v ≠ []) (hopen : ∀ a : OpenField, v ≠ a.text) :
    urlField (v ++ (field.text ++ rest)) = urlField v := by
  ext ⟨url, n⟩
  rw [urlField_iff, urlField_iff]
  constructor
  · rintro ⟨a, closing, behind, htext, hclosing, rfl, hne, rfl⟩
    by_cases hlong : v.length < a.text.length + 1
    · obtain ⟨inside, hinside, hv⟩ := OpenField.reaches hv hclosing htext hlong
      have hplain : ∀ c ∈ inside, isScriptQuote c = false := fun c hc =>
        a.inside_unquoted c (by rw [hinside]; exact List.mem_append_left _ hc)
      exact absurd hv (hopen { a with inside, inside_unquoted := hplain })
    · have hwhole : a.text ++ [closing] ++ behind = v ++ (field.text ++ rest) := by
        rw [htext, List.append_assoc]
        rfl
      have hfield : (a.text ++ [closing]) <+: v :=
        List.prefix_of_prefix_length_le ⟨behind, hwhole⟩ (List.prefix_append ..) (by simpa using hlong)
      obtain ⟨behind, rfl⟩ := hfield
      exact ⟨a, closing, behind, List.append_assoc .., hclosing, rfl, hne, rfl⟩
  · rintro ⟨a, closing, behind, rfl, hclosing, rfl, hne, rfl⟩
    exact ⟨a, closing, behind ++ (field.text ++ rest), List.append_assoc .., hclosing, rfl, hne, rfl⟩

theorem findAll_append_of_not_endsOpen {before : Text} (h : ¬ EndsOpen before) (field : OpenField) (rest : Text) :
    (before ++ (field.text ++ rest)).findAll urlField =
      before.findAll urlField ++ (field.text ++ rest).findAll urlField :=
  findAll_concat urlField_fits fun _ ⟨front, hv⟩ hne => urlField_append hne fun a ha => h ⟨front, a, by rw [← hv, ha]⟩

/-- Of two fields, one in the string of the other, the first one is found, up to the quote of the second. The search
goes on in the string of the second. -/
theorem findAll_pair (a b : OpenField) (rest : Text) : (a.text ++ (b.text ++ rest)).findAll urlField =
    (a.inside ++ b.front) :: (b.inside ++ rest).findAll urlField := by
  have hplain : ∀ c ∈ a.inside ++ b.front, isScriptQuote c = false := fun c hc => by
    rcases List.mem_append.1 hc with hc | hc
    · exact a.inside_unquoted c hc
    · exact b.front_unquoted c hc
  let both : OpenField := { a with inside := a.inside ++ b.front, inside_unquoted := hplain }
  have htext : a.text ++ (b.text ++ rest) = both.text ++ [b.opening] ++ (b.inside ++ rest) := by
    simp [both, OpenField.text, OpenField.front]
  have hfound : urlField (both.text ++ [b.opening] ++ (b.inside ++ rest)) =
      some (both.inside, (both.text ++ [b.opening]).length) := by
    refine urlField_iff.2 ⟨both, b.opening, b.inside ++ rest, by simp, b.quote_opening, rfl, ?_, by simp⟩
    simp [both, OpenField.front]
  rw [htext]
  exact findAll_found (by simp) hfound

/-! ## Where the search stands -/

/-- The search for url fields has no string open at the end of a text: none is written open there, or two are, one
behind the other, of which the first takes away the second. -/
inductive Clear : Text → Prop
  | plain {t : Text} (h : ¬ EndsOpen t) : Clear t
  | pair {t : Text} (h : Clear t) (a b : OpenField) : Clear (t ++ (a.text ++ b.text))

/-- The search has the string of the last open field open. -/
def Covered (t : Text) : Prop := ∃ before, ∃ field : OpenField, Clear before ∧ t = before ++ field.text

/-- An open field, read from its end. -/
theorem reverse_append_text (before : Text) (field : OpenField) :
    (before ++ field.text).reverse = field.inside.reverse ++ field.opening :: (field.behindColon.reverse ++
      ':' :: (field.behindName.reverse ++ 'l' :: 'r' :: 'u' :: before.reverse)) := by
  simp [OpenField.text, OpenField.front]

theorem forall_reverse {p : Char → Prop} {t : Text} (h : ∀ c ∈ t, p c) : ∀ c ∈ t.reverse, p c := fun c hc =>
  h c (List.mem_reverse.1 hc)

/-- No string is open as a field if the last quote stands behind something else than a colon. -/
theorem not_endsOpen_of_last_quote {front inside : Text} {c quote : Char} (hcolon : c ≠ ':')
    (hblank : isBlank c = false) (hquote : isScriptQuote quote = true) (hinside : ∀ d ∈ inside, isScriptQuote d = false) :
    ¬ EndsOpen (front ++ c :: quote :: inside) := by
  rintro ⟨before, field, h⟩
  replace h := congrArg List.reverse h
  rw [reverse_append_text, List.reverse_append, List.reverse_cons, List.reverse_cons, List.append_assoc,
    List.append_assoc, List.singleton_append] at h
  obtain ⟨-, -, h⟩ := divide_unique (forall_reverse hinside) hquote (forall_reverse field.inside_unquoted)
    field.quote_opening h
  cases hblanks : field.behindColon.reverse with
  | nil =>
    rw [hblanks] at h
    exact hcolon (List.cons.inj h).1
  | cons d blanks =>
    rw [hblanks] at h
    obtain rfl : c = d := (List.cons.inj h).1
    rw [field.blank_behindColon c (List.mem_reverse.1 (hblanks ▸ List.mem_cons_self ..))] at hblank
    cases hblank

/-- What precedes the open field at the end of a text. -/
theorem before_unique {s t : Text} {a b : OpenField} (h : s ++ a.text = t ++ b.text) : s = t := by
  replace h := congrArg List.reverse h
  rw [reverse_append_text, reverse_append_text] at h
  obtain ⟨-, -, h⟩ := divide_unique (forall_reverse a.inside_unquoted) a.quote_opening
    (forall_reverse b.inside_unquoted) b.quote_opening h
  obtain ⟨-, -, h⟩ := divide_blanks (forall_reverse a.blank_behindColon) (by decide)
    (forall_reverse b.blank_behindColon) (by decide) h
  obtain ⟨-, -, h⟩ := divide_blanks (forall_reverse a.blank_behindName) (by decide)
    (forall_reverse b.blank_behindName) (by decide) h
  exact List.reverse_injective (List.cons.inj (List.cons.inj h).2).2

theorem EndsOpen.covered_or {t : Text} (h : EndsOpen t) (ih : ∀ s : Text, s.length < t.length → Clear s ∨ Covered s) :
    Clear t ∨ Covered t := by
  obtain ⟨before, field, rfl⟩ := h
  rcases ih before (OpenField.length_lt ..) with hclear | ⟨front, first, hclear, rfl⟩
  · exact .inr ⟨before, field, hclear, rfl⟩
  · rw [List.append_assoc]
    exact .inl (hclear.pair first field)

theorem clear_or_covered (t : Text) : Clear t ∨ Covered t := by
  induction hn : t.length using Nat.strongRecOn generalizing t with
  | ind n ih =>
    by_cases h : EndsOpen t
    · exact h.covered_or fun s hs => ih s.length (hn ▸ hs) s rfl
    · exact .inl (.plain h)

theorem Clear.not_covered {t : Text} (h : Clear t) : ¬ Covered t := by
  induction hn : t.length using Nat.strongRecOn generalizing t with
  | ind n ih =>
    rintro ⟨before, field, hbefore, rfl⟩
    generalize htext : before ++ field.text = t at h
    cases h with
    | plain hopen => exact hopen ⟨before, field, htext.symm⟩
    | pair hfront a b =>
      rename_i front
      rw [← List.append_assoc] at htext
      -- what precedes the last field is covered by the first of the pair
      obtain rfl := before_unique htext
      exact ih _ (hn ▸ OpenField.length_lt ..) hbefore rfl ⟨front, a, hfront, rfl⟩

/-- Where no string is open, the search begins anew. -/
theorem Clear.findAll {before : Text} (h : Clear before) : ∀ (field : OpenField) (rest : Text),
    (before ++ (field.text ++ rest)).findAll urlField =
      before.findAll urlField ++ (field.text ++ rest).findAll urlField := by
  induction h with
  | plain h => exact findAll_append_of_not_endsOpen h
  | @pair front _ a b ih =>
    intro field rest
    have hinside : (b.inside ++ (field.text ++ rest)).findAll urlField =
        b.inside.findAll urlField ++ (field.text ++ rest).findAll urlField :=
      findAll_append_of_not_endsOpen (not_endsOpen_of_unquoted b.inside_unquoted) field rest
    have halone := ih a b.text
    have hpair := findAll_pair a b []
    rw [List.append_nil, List.append_nil] at hpair
    rw [List.append_assoc, List.append_assoc, ih a, findAll_pair, hinside, halone, hpair, List.append_assoc]
    rfl

/-- Where a string is open, the search goes on behind the quote with which the next field begins its own. -/
theorem Covered.findAll {before : Text} (h : Covered before) (field : OpenField) (rest : Text) :
    (before ++ (field.text ++ rest)).findAll urlField =
      (before ++ (field.front ++ [field.opening])).findAll urlField ++ (field.inside ++ rest).findAll urlField := by
  obtain ⟨front, first, hfront, rfl⟩ := h
  let empty : OpenField := { field with inside := [], inside_unquoted := by simp }
  have hempty : field.front ++ [field.opening] = empty.text ++ [] := by simp [empty, OpenField.text, OpenField.front]
  have hcut : (first.text ++ (empty.text ++ [])).findAll urlField = [first.inside ++ field.front] :=
    findAll_pair first empty []
  rw [List.append_assoc, hfront.findAll, findAll_pair, hempty, List.append_assoc, hfront.findAll, hcut,
    List.append_assoc, List.singleton_append]

/-! ## The references of fields -/

/-- The references to url fields in a script. -/
def urlFieldReferences (t : Text) : List RawReference := (script t).filter (·.provenance = .scriptAjaxUrl)

theorem urlFieldReferences_eq (t : Text) : urlFieldReferences t =
    ((t.findAll urlField).filter (Key.apiMark.isPrefixOf ·)).map (⟨·, .scriptAjaxUrl⟩) := by
  rw [urlFieldReferences, script]
  simp [List.filter_append, List.filter_map, Function.comp_def]

/-- A url field with a URL of the API, and what stands behind it. -/
def fieldOf (quote : Char) (name behind : Text) : Text := "url: " ++ quote :: (Key.apiMark ++ name ++ quote :: behind)

section Field

variable {before name after : Text} {quote : Char} (hquote : isScriptQuote quote = true)
  (hname : ∀ c ∈ name, isScriptQuote c = false)

include hquote hname

/-- A field with a URL of the API is found, whatever stands behind it, if no string is open in front of it. Otherwise
its opening quote closes that string, and the text is searched as if it were cut there. -/
theorem url_field_found_if_clear :
    (Clear before → urlFieldReferences (before ++ fieldOf quote name after) =
      urlFieldReferences before ++ ⟨Key.apiMark ++ name, .scriptAjaxUrl⟩ :: urlFieldReferences after) ∧
    (¬ Clear before → urlFieldReferences (before ++ fieldOf quote name after) =
      urlFieldReferences (before ++ ("url: " ++ [quote])) ++
        urlFieldReferences (Key.apiMark ++ name ++ quote :: after)) := by
  have hblank : ∀ c ∈ [' '], isBlank c = true := List.forall_mem_singleton.2 rfl
  let field : OpenField := ⟨[], [' '], quote, Key.apiMark ++ name, by simp, hblank, hquote, apiName_unquoted hname⟩
  have htext : fieldOf quote name after = field.text ++ quote :: after := by
    rw [OpenField.text_append]
    rfl
  constructor
  · intro h
    have hfound : urlField (field.text ++ [quote] ++ after) =
        some (Key.apiMark ++ name, (field.text ++ [quote]).length) :=
      urlField_iff.2 ⟨field, quote, after, by simp, hquote, rfl, by simp [Key.apiMark], by simp⟩
    have hown : (field.text ++ quote :: after).findAll urlField = (Key.apiMark ++ name) :: after.findAll urlField := by
      rw [← findAll_found (by simp) hfound, List.append_assoc]
      rfl
    have hmark : Key.apiMark.isPrefixOf (Key.apiMark ++ name) = true :=
      List.isPrefixOf_iff_prefix.2 (List.prefix_append ..)
    rw [urlFieldReferences_eq, htext, h.findAll, hown, urlFieldReferences_eq, urlFieldReferences_eq, List.filter_append,
      List.filter_cons_of_pos hmark, List.map_append, List.map_cons]
  · intro h
    have hcovered := (clear_or_covered before).resolve_left h
    have hfound : (before ++ fieldOf quote name after).findAll urlField =
        (before ++ ("url: " ++ [quote])).findAll urlField ++
          (Key.apiMark ++ name ++ quote :: after).findAll urlField := by
      rw [htext]
      exact hcovered.findAll field (quote :: after)
    rw [urlFieldReferences_eq, hfound, urlFieldReferences_eq, urlFieldReferences_eq, List.filter_append,
      List.map_append]

end Field

theorem sample_url_field_found_if_clear :
    isScriptQuote '\'' = true ∧ (∀ c ∈ ("a" : Text), isScriptQuote c = false) ∧
    Clear "log('a'); ajax(\x7b" ∧
    urlFieldReferences "log('a'); ajax(\x7burl: '/api/a'\x7d)" = [⟨"/api/a", .scriptAjaxUrl⟩] ∧
    ¬ Clear "log('url:'); ajax(\x7b" ∧ urlFieldReferences "log('url:'); ajax(\x7burl: '/api/a'\x7d)" = [] := by
  have hname : ∀ c ∈ ("a" : Text), isScriptQuote c = false := none_of_any (by decide)
  have hclear : Clear "log('a'); ajax(\x7b" :=
    .plain (@not_endsOpen_of_last_quote "log('" "); ajax(\x7b" 'a' '\'' (by decide) rfl rfl (none_of_any (by decide)))
  have hfront : Clear "log('" := .plain (@not_endsOpen_of_last_quote "log" [] '(' '\'' (by decide) rfl rfl (by simp))
  -- the end of the first string and what follows it are written like a field
  let label : OpenField := ⟨[], [], '\'', "); ajax(\x7b", by simp, by simp, rfl, none_of_any (by decide)⟩
  have hcovered : ¬ Clear "log('url:'); ajax(\x7b" := fun h => h.not_covered ⟨_, label, hfront, rfl⟩
  exact ⟨rfl, hname, hclear, ((@url_field_found_if_clear _ "a" "\x7d)" '\'' rfl hname).1 hclear).trans (by decide),
    hcovered, ((@url_field_found_if_clear _ "a" "\x7d)" '\'' rfl hname).2 hcovered).trans (by decide)⟩

/-- A field behind a string that ends in the name of such a field is no reference. -/
theorem field_behind_label_missed :
    ("log('url:'); ajax(\x7b" ++ fieldOf '\'' "a" "\x7d)" : Text) = "log('url:'); ajax(\x7burl: '/api/a'\x7d)" ∧
    ⟨"/api/a", .scriptAjaxUrl⟩ ∉ script "log('url:'); ajax(\x7burl: '/api/a'\x7d)" := by
  decide

end ActionSweep.Extract
