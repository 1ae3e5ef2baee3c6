/-
References read as keys. How a reference begins decides how it is read, so the references that name the action of a
file can be listed: a URL of the API has its full spellings, with and without the folder of declarations, and a library
action may also be named without the mark, unless the name alone would be read in another way. The extension may be
missing as long as the name itself does not end in it.
-/
import ActionSweep.Proofs.Files.Path
import ActionSweep.Proofs.Routes.Spelling

namespace ActionSweep

namespace Key

/-! ## Readings -/

/-- A relative text that is read as the name of a library action without the mark. -/
structure Bare (raw : Text) : Prop where
  notBlank : raw.allBlank = false
  noFragment : ¬ ['#'] <+: raw
  noSlash : ¬ ['/'] <+: raw
  noMark : ¬ libMark <+: raw

/-- The key that a reference is read as. -/
inductive Reads : Text → Text → Prop
  | appApi (rest : Text) : Reads (appFolder ++ (apiMark ++ rest)) (apiMark ++ dropExtension rest)
  | slash (rest : Text) (happ : ¬ appFolder ++ apiMark <+: '/' :: rest) :
      Reads ('/' :: rest) ('/' :: dropExtension rest)
  | lib (rest : Text) : Reads (libMark ++ rest) (libMark ++ dropExtension rest)
  | bare {raw : Text} (h : Bare raw) : Reads raw (libMark ++ dropExtension raw)

/-- Texts with a slash in front are looked up as they are spelled, but for URLs behind the folder of declarations. -/
theorem ofReference_slash (lookup : Lookup) {t : Text} (happ : ¬ appFolder ++ apiMark <+: '/' :: t) :
    ofReference lookup ('/' :: t) = some ('/' :: dropExtension t) := by
  have hdrop : dropExtension ('/' :: t) = '/' :: dropExtension t := dropExtension_slash [] t
  unfold ofReference
  rw [if_neg (by simp [Text.allBlank, isBlank, blankRanges])]
  split
  · rw [hdrop]
  · rw [if_neg (by simpa using happ), if_neg (by simp), hdrop]

/-- Relative texts without the mark get it. -/
theorem ofReference_relative {raw : Text} (hslash : ¬ ['/'] <+: raw) (hlib : ¬ libMark <+: raw) :
    ofReference .action raw =
      if raw.allBlank || ['#'].isPrefixOf raw then none else some (libMark ++ dropExtension raw) := by
  have hmark : ∀ mark, ['/'] <+: mark → ¬ mark.isPrefixOf raw = true := fun mark hbegins hmark =>
    hslash (hbegins.trans (List.isPrefixOf_iff_prefix.1 hmark))
  have hdrop : dropExtension (libMark ++ raw) = libMark ++ dropExtension raw := dropExtension_slash ['l', 'i', 'b'] raw
  rw [← List.isPrefixOf_iff_prefix, Bool.not_eq_true] at hslash hlib
  unfold ofReference
  refine if_congr Iff.rfl rfl ?_
  rw [if_neg (hmark apiMark (by decide)), if_neg (hmark (appFolder ++ apiMark) (by decide)),
    if_pos (by rw [hslash, hlib]; rfl), hdrop]

theorem ofReference_bare {raw : Text} (h : Bare raw) :
    ofReference .action raw = some (libMark ++ dropExtension raw) := by
  rw [ofReference_relative h.noSlash h.noMark, if_neg]
  rw [Bool.or_eq_true, not_or, Bool.not_eq_true, List.isPrefixOf_iff_prefix]
  exact ⟨h.notBlank, h.noFragment⟩

/-- A reference has the key that it is read as, and no other text has a key. -/
theorem ofReference_iff {raw key : Text} : ofReference .action raw = some key ↔ Reads raw key := by
  constructor
  · intro h
    by_cases hslash : ['/'] <+: raw
    · obtain ⟨t, rfl⟩ := hslash
      by_cases happ : appFolder ++ apiMark <+: '/' :: t
      · obtain ⟨rest, hrest⟩ := happ
        rw [List.append_assoc] at hrest
        rw [List.singleton_append, ← hrest] at h ⊢
        rw [ofReference_app_api] at h
        cases h
        exact .appApi rest
      · rw [List.singleton_append, ofReference_slash _ happ] at h
        cases h
        exact .slash t happ
    by_cases hlib : libMark <+: raw
    · obtain ⟨rest, rfl⟩ := hlib
      rw [ofReference_lib] at h
      cases h
      exact .lib rest
    · rw [ofReference_relative hslash hlib] at h
      split at h
      · cases h
      · rename_i hnot
        rw [Bool.or_eq_true, not_or, Bool.not_eq_true, List.isPrefixOf_iff_prefix] at hnot
        cases h
        exact .bare ⟨hnot.1, hnot.2, hslash, hlib⟩
  · intro h
    cases h with
    | appApi rest => exact ofReference_app_api .action rest
    | slash rest happ => exact ofReference_slash .action happ
    | lib rest => exact ofReference_lib .action rest
    | bare h => exact ofReference_bare h

/-! ## Spellings -/

/-- The references to the action that is declared under a name below `app/api`. -/
inductive ApiSpelling (name : Text) : Text → Prop
  | full : ApiSpelling name (apiMark ++ (name ++ extension))
  | appFull : ApiSpelling name (appFolder ++ (apiMark ++ (name ++ extension)))
  | short (h : ¬ extension <:+ name) : ApiSpelling name (apiMark ++ name)
  | appShort (h : ¬ extension <:+ name) : ApiSpelling name (appFolder ++ (apiMark ++ name))

/-- The references to the action that is declared under a name below `app/lib`. -/
inductive LibSpelling (name : Text) : Text → Prop
  | full : LibSpelling name (libMark ++ (name ++ extension))
  | bareFull (hmark : ¬ libMark <+: name) (hfragment : ¬ ['#'] <+: name) : LibSpelling name (name ++ extension)
  | short (h : ¬ extension <:+ name) : LibSpelling name (libMark ++ name)
  | bareShort (h : ¬ extension <:+ name) (hblank : name.allBlank = false) (hmark : ¬ libMark <+: name)
      (hfragment : ¬ ['#'] <+: name) : LibSpelling name name

/-- A name with the extension is never blank, and it begins as the name does. -/
theorem bare_extension_iff {name : Text} :
    Bare (name ++ extension) ↔ ¬ ['#'] <+: name ∧ ¬ ['/'] <+: name ∧ ¬ libMark <+: name := by
  constructor
  · rintro ⟨-, hfragment, hslash, hmark⟩
    rw [begins_extension_iff (by decide)] at hfragment hslash hmark
    exact ⟨hfragment, hslash, hmark⟩
  · rintro ⟨hfragment, hslash, hmark⟩
    refine ⟨allBlank_extension name, ?_, ?_, ?_⟩ <;> rwa [begins_extension_iff (by decide)]

theorem names_api_iff {name raw : Text} :
    ofReference .action raw = some (apiMark ++ name) ↔ ApiSpelling name raw := by
  constructor
  · rw [ofReference_iff]
    generalize hkey : apiMark ++ name = key
    intro h
    cases h with
    | appApi rest =>
      rcases dropExtension_eq_iff.1 (List.append_cancel_left hkey).symm with rfl | ⟨rfl, h⟩
      · exact .appFull
      · exact .appShort h
    | slash rest happ =>
      have hdrop : dropExtension ('/' :: rest) = apiMark ++ name := (dropExtension_slash [] rest).trans hkey.symm
      rcases dropExtension_eq_iff.1 hdrop with he | ⟨he, h⟩
      · rw [he, List.append_assoc]
        exact .full
      · rw [he] at h ⊢
        exact .short fun hname => h (hname.trans (List.suffix_append ..))
    | lib rest => cases hkey
    | bare h => cases hkey
  · intro h
    cases h with
    | full => rw [ofReference_api, dropExtension_append]
    | appFull => rw [ofReference_app_api, dropExtension_append]
    | short h => rw [ofReference_api, dropExtension_of_not_suffix h]
    | appShort h => rw [ofReference_app_api, dropExtension_of_not_suffix h]

theorem names_lib_iff {name raw : Text} (hslash : ¬ ['/'] <+: name) :
    ofReference .action raw = some (libMark ++ name) ↔ LibSpelling name raw := by
  constructor
  · rw [ofReference_iff]
    generalize hkey : libMark ++ name = key
    intro h
    cases h with
    | appApi rest => cases hkey
    | slash rest happ => cases hkey
    | lib rest =>
      rcases dropExtension_eq_iff.1 (List.append_cancel_left hkey).symm with rfl | ⟨rfl, h⟩
      · exact .full
      · exact .short h
    | bare h =>
      rcases dropExtension_eq_iff.1 (List.append_cancel_left hkey).symm with rfl | ⟨rfl, hext⟩
      · obtain ⟨hfragment, -, hmark⟩ := bare_extension_iff.1 h
        exact .bareFull hmark hfragment
      · exact .bareShort hext h.notBlank h.noMark h.noFragment
  · intro h
    cases h with
    | full => rw [ofReference_lib, dropExtension_append]
    | bareFull hmark hfragment =>
      rw [ofReference_bare (bare_extension_iff.2 ⟨hfragment, hslash, hmark⟩), dropExtension_append]
    | short h => rw [ofReference_lib, dropExtension_of_not_suffix h]
    | bareShort h hblank hmark hfragment =>
      rw [ofReference_bare ⟨hblank, hfragment, hslash, hmark⟩, dropExtension_of_not_suffix h]

/-- What keeps an action alive: the references that name what a file below one of the folders declares are the
spellings of its name, and no other text is one. -/
theorem references_are_spellings {file : Text} (hplain : (Path.ofText file).text = file) (name raw : Text) :
    (file = "app/api/" ++ (name ++ extension) →
      (ofReference .action raw = some (ofDeclaration file) ↔ ApiSpelling name raw)) ∧
    (file = "app/lib/" ++ (name ++ extension) →
      (ofReference .action raw = some (ofDeclaration file) ↔ LibSpelling name raw)) := by
  constructor
  · rintro rfl
    rw [Home.api.ofDeclaration_eq hplain, names_api_iff]
  · rintro rfl
    have hslash : ¬ ['/'] <+: name := by
      rintro ⟨t, rfl⟩
      exact Path.no_double_slash (a := "app/lib") hplain rfl rfl
    rw [Home.lib.ofDeclaration_eq hplain, names_lib_iff hslash]

/-- A name that looks like a fragment is not read without the mark, and an extension that belongs to the name is not
left out. -/
theorem sample_spellings :
    ofReference .action "mail.json" = some (ofDeclaration "app/lib/mail.json") ∧
      ofReference .action "#mail" ≠ some (ofDeclaration "app/lib/#mail.json") ∧
      ofReference .action "/app/api/a.json" ≠ some (ofDeclaration "app/api/a.json.json") := by
  refine ⟨?_, fun h => ?_, fun h => ?_⟩
  · exact ((references_are_spellings (by decide) "mail" "mail.json").2 rfl).2 (.bareFull (by decide) (by decide))
  · generalize hraw : ("#mail" : Text) = raw at h
    cases ((references_are_spellings (by decide) "#mail" raw).2 rfl).1 h with
    | full => cases hraw
    | bareFull hmark hfragment => exact hfragment (by decide)
    | short h => cases hraw
    | bareShort h hblank hmark hfragment => exact hfragment (by decide)
  · generalize hraw : ("/app/api/a.json" : Text) = raw at h
    cases ((references_are_spellings (by decide) "a.json" raw).1 rfl).1 h with
    | full => cases hraw
    | appFull => cases hraw
    | short h => cases hraw
    | appShort hname => exact hname (by decide)

end Key

end ActionSweep
