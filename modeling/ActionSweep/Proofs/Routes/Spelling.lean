/-
The two ways to read an exec entry: as a key in the index of actions, and as the file that the routing
table expects. They agree on execs that begin with the mark of the API or of the library, if the file is
spelled plainly, so the key of a declaration file leads back to the file; only a name that has the
extension twice loses one on the way.
-/
import ActionSweep.Key
import ActionSweep.Proofs.Texts

namespace ActionSweep

namespace Key

/-! ## Extensions -/

theorem dropExtension_append (t : Text) : dropExtension (t ++ extension) = t := by
  unfold dropExtension
  rw [Text.dropEnding?_eq_some.2 rfl]
  rfl

theorem dropExtension_of_not_suffix {t : Text} (h : ¬ extension <:+ t) : dropExtension t = t := by
  unfold dropExtension
  cases he : Text.dropEnding? extension t with
  | none => rfl
  | some u => exact absurd ⟨u, (Text.dropEnding?_eq_some.1 he).symm⟩ h

theorem dropExtension_eq_iff {t u : Text} : dropExtension t = u ↔ t = u ++ extension ∨ t = u ∧ ¬ extension <:+ t := by
  constructor
  · rintro rfl
    by_cases h : extension <:+ t
    · obtain ⟨v, rfl⟩ := h
      exact .inl (by rw [dropExtension_append])
    · exact .inr ⟨(dropExtension_of_not_suffix h).symm, h⟩
  · rintro (rfl | ⟨rfl, h⟩)
    · exact dropExtension_append u
    · exact dropExtension_of_not_suffix h

theorem dropExtension_eq_self_iff {t : Text} : dropExtension t = t ↔ ¬ extension <:+ t := by
  rw [dropExtension_eq_iff]
  simp [extension]

/-- The extension is looked for behind the last slash only. -/
theorem dropExtension_slash (u t : Text) : dropExtension (u ++ '/' :: t) = u ++ '/' :: dropExtension t := by
  by_cases h : extension <:+ t
  · obtain ⟨v, rfl⟩ := h
    rw [dropExtension_append, ← List.cons_append, ← List.append_assoc, dropExtension_append]
  · rw [dropExtension_of_not_suffix h, dropExtension_of_not_suffix]
    intro hs
    -- the extension would begin at the slash or before it, but it has no slash
    rcases List.suffix_or_suffix_of_suffix hs (List.suffix_append u ('/' :: t)) with hext | hslash
    · rcases List.suffix_cons_iff.1 hext with he | hext
      · cases he
      · exact h hext
    · exact absurd (hslash.subset (List.mem_cons_self ..)) (by decide)

theorem extension_behind_slash (u t : Text) : extension <:+ u ++ '/' :: t ↔ extension <:+ t := by
  rw [← not_iff_not, ← dropExtension_eq_self_iff, ← dropExtension_eq_self_iff, dropExtension_slash,
    List.append_cancel_left_eq, List.cons.injEq]
  exact and_iff_right rfl

theorem dropExtension_begins (t : Text) : dropExtension t <+: t := by
  by_cases h : extension <:+ t
  · obtain ⟨u, rfl⟩ := h
    rw [dropExtension_append]
    exact List.prefix_append ..
  · rw [dropExtension_of_not_suffix h]

/-- A mark without a dot that stands at the beginning of a text with the extension ends before the extension. -/
theorem begins_of_extension {mark t : Text} (hdot : '.' ∉ mark) (h : mark <+: t ++ extension) : mark <+: t := by
  rcases List.prefix_or_prefix_of_prefix h (List.prefix_append t extension) with h' | ⟨u, rfl⟩
  · exact h'
  · cases u with
    | nil => rw [List.append_nil]
    | cons c u =>
      obtain ⟨rfl, -⟩ := List.cons_prefix_cons.1 ((List.prefix_append_right_inj t).1 h)
      exact absurd (List.mem_append_right t (List.mem_cons_self ..)) hdot

theorem begins_extension_iff {mark t : Text} (hdot : '.' ∉ mark) : mark <+: t ++ extension ↔ mark <+: t :=
  ⟨begins_of_extension hdot, fun h => h.trans (List.prefix_append ..)⟩

theorem allBlank_extension (t : Text) : Text.allBlank (t ++ extension) = false := by
  simp [Text.allBlank, extension, isBlank, blankRanges]

/-! ## Marks -/

theorem ofReference_api (lookup : Lookup) (rest : Text) :
    ofReference lookup (apiMark ++ rest) = some (apiMark ++ dropExtension rest) := by
  have hdrop : dropExtension (apiMark ++ rest) = apiMark ++ dropExtension rest :=
    dropExtension_slash ['/', 'a', 'p', 'i'] rest
  unfold ofReference
  rw [if_neg (by simp [apiMark, Text.allBlank, isBlank, blankRanges]), if_pos (by simp), hdrop]

theorem ofReference_app_api (lookup : Lookup) (rest : Text) :
    ofReference lookup (appFolder ++ (apiMark ++ rest)) = some (apiMark ++ dropExtension rest) := by
  have hdrop : dropExtension (apiMark ++ rest) = apiMark ++ dropExtension rest :=
    dropExtension_slash ['/', 'a', 'p', 'i'] rest
  unfold ofReference
  rw [if_neg (by simp [appFolder, Text.allBlank, isBlank, blankRanges]), if_neg (by simp [appFolder, apiMark]),
    if_pos (by simp [appFolder, apiMark]), List.drop_left, hdrop]

theorem ofReference_lib (lookup : Lookup) (rest : Text) :
    ofReference lookup (libMark ++ rest) = some (libMark ++ dropExtension rest) := by
  have hdrop : dropExtension (libMark ++ rest) = libMark ++ dropExtension rest :=
    dropExtension_slash ['l', 'i', 'b'] rest
  unfold ofReference
  rw [if_neg (by simp [libMark, Text.allBlank, isBlank, blankRanges]), if_neg (by simp [libMark, apiMark]),
    if_neg (by simp [libMark, apiMark, appFolder]), if_neg (by simp [libMark]), hdrop]

/-- How an exec has to begin to be read as one key everywhere. -/
inductive Marked : Text → Prop
  | api (rest : Text) : Marked (apiMark ++ rest)
  | appApi (rest : Text) : Marked (appFolder ++ (apiMark ++ rest))
  | lib (rest : Text) : Marked (libMark ++ rest)

theorem ofDeclaration_app_api {rest : Text} (h : (Path.ofText ("app/api/" ++ rest : Text)).text = "app/api/" ++ rest) :
    ofDeclaration ("app/api/" ++ rest) = apiMark ++ dropExtension rest := by
  unfold ofDeclaration
  simp only [h]
  rw [Text.dropBeginning?_append]

theorem ofDeclaration_app_lib {rest : Text} (h : (Path.ofText ("app/lib/" ++ rest : Text)).text = "app/lib/" ++ rest) :
    ofDeclaration ("app/lib/" ++ rest) = libMark ++ dropExtension rest := by
  unfold ofDeclaration
  simp only [h]
  rw [Text.dropBeginning?_eq_none (by decide) (by decide), Text.dropBeginning?_append]

/-- What is declared elsewhere than below the two folders has its path as key. -/
theorem ofDeclaration_elsewhere {file : Text} (hplain : (Path.ofText file).text = file) (hapi : ¬ "app/api/" <+: file)
    (hlib : ¬ "app/lib/" <+: file) : ofDeclaration file = dropExtension file := by
  unfold ofDeclaration
  simp only [hplain]
  split
  · rename_i rest hrest
    exact absurd ⟨rest, (Text.dropBeginning?_eq_some.1 hrest).symm⟩ hapi
  · split
    · rename_i rest hrest
      exact absurd ⟨rest, (Text.dropBeginning?_eq_some.1 hrest).symm⟩ hlib
    · rfl

/-- The file below one of the two folders of declarations that a name stands for, with the key of what is declared
in it. -/
inductive Home (name : Text) : Text → Text → Prop
  | api : Home name ("app/api/" ++ (name ++ extension)) (apiMark ++ name)
  | lib : Home name ("app/lib/" ++ (name ++ extension)) (libMark ++ name)

namespace Home

variable {name file key : Text}

theorem ofDeclaration_eq (h : Home name file key) (hplain : (Path.ofText file).text = file) :
    ofDeclaration file = key := by
  cases h with
  | api => rw [ofDeclaration_app_api hplain, dropExtension_append]
  | lib => rw [ofDeclaration_app_lib hplain, dropExtension_append]

/-- Below these folders there is one file for each key. -/
theorem file_eq_iff (h : Home name file key) {name' file' key' : Text} (h' : Home name' file' key') :
    file = file' ↔ key = key' := by
  cases h <;> cases h' <;> simp [apiMark, libMark]

/-- Keys of these files are spelled as references are. -/
theorem marked (h : Home name file key) : Marked key := by
  cases h with
  | api => exact .api name
  | lib => exact .lib name

/-- A key that is looked up as a reference loses an extension that the name of its file has twice. -/
theorem ofReference_key_iff (h : Home name file key) (lookup : Lookup) :
    ofReference lookup key = some key ↔ ¬ extension <:+ name := by
  cases h with
  | api => rw [ofReference_api, Option.some_inj, List.append_cancel_left_eq, dropExtension_eq_self_iff]
  | lib => rw [ofReference_lib, Option.some_inj, List.append_cancel_left_eq, dropExtension_eq_self_iff]

end Home

/-- An exec with a mark has one key in every lookup. The routing table expects the file that has this key. -/
theorem Marked.home {exec : Text} (h : Marked exec) : ∃ name file key, Home name file key ∧
    routeFile exec = some file ∧ ∀ lookup, ofReference lookup exec = some key := by
  cases h with
  | api rest =>
    refine ⟨dropExtension rest, _, _, .api, ?_, fun lookup => ofReference_api lookup rest⟩
    unfold routeFile
    rw [ofReference_api]
    simp [apiMark]
  | appApi rest =>
    refine ⟨dropExtension rest, _, _, .api, ?_, fun lookup => ofReference_app_api lookup rest⟩
    unfold routeFile
    rw [ofReference_app_api]
    simp [apiMark]
  | lib rest =>
    refine ⟨dropExtension rest, _, _, .lib, ?_, fun lookup => ofReference_lib lookup rest⟩
    unfold routeFile
    rw [ofReference_lib]
    simp [libMark]

/-- An exec with a mark is routed to a file exactly if it names the key of that file. -/
theorem Marked.routeFile_iff {exec name file key : Text} (h : Marked exec) (hhome : Home name file key) :
    routeFile exec = some file ↔ ofReference .action exec = some key := by
  obtain ⟨name', file', key', hhome', hroute, hkey⟩ := h.home
  rw [hroute, hkey, Option.some_inj, Option.some_inj]
  exact hhome'.file_eq_iff hhome

/-- An exec with a mark names in the index what is declared in the file that the routing table expects. -/
theorem Marked.agrees {exec file : Text} (h : Marked exec) (hfile : routeFile exec = some file)
    (hplain : (Path.ofText file).text = file) : ofReference .action exec = some (ofDeclaration file) := by
  obtain ⟨name, file', key, hhome, hroute, hkey⟩ := h.home
  obtain rfl : file' = file := Option.some.inj (hroute.symm.trans hfile)
  rw [hkey, hhome.ofDeclaration_eq hplain]

/-! ## There and back -/

/-- The key of a file leads back to the file unless the name has the extension twice, and an exec with a mark leads to
the file exactly if it names this key. -/
theorem routeFile_inverts_ofDeclaration {file name : Text} (hplain : (Path.ofText file).text = file)
    (hfile : file = "app/api/" ++ (name ++ extension) ∨ file = "app/lib/" ++ (name ++ extension)) :
    (routeFile (ofDeclaration file) = some file ↔ ¬ extension <:+ name) ∧
      ∀ exec, Marked exec → (routeFile exec = some file ↔ ofReference .action exec = some (ofDeclaration file)) := by
  obtain ⟨key, hhome⟩ : ∃ key, Home name file key := by
    rcases hfile with rfl | rfl
    · exact ⟨_, .api⟩
    · exact ⟨_, .lib⟩
  rw [hhome.ofDeclaration_eq hplain]
  refine ⟨?_, fun exec hexec => hexec.routeFile_iff hhome⟩
  rw [hhome.marked.routeFile_iff hhome, hhome.ofReference_key_iff]

theorem sample_routeFile_inverts :
    routeFile (ofDeclaration "app/lib/mail/send.json") = some ("app/lib/mail/send.json" : Text) ∧
      routeFile (ofDeclaration "app/api/a.json.json") ≠ some ("app/api/a.json.json" : Text) ∧
      ofReference .action "/app/api/a.json" ≠ some (ofDeclaration "app/api/a.json.json") := by
  have hlib := @routeFile_inverts_ofDeclaration "app/lib/mail/send.json" "mail/send" (by decide) (.inr rfl)
  have hapi := @routeFile_inverts_ofDeclaration "app/api/a.json.json" "a.json" (by decide) (.inl rfl)
  refine ⟨hlib.1.2 (by decide), fun h => hapi.1.1 h (by decide), fun h => ?_⟩
  -- the exec is routed to the file whose name has the extension once
  exact absurd ((hapi.2 _ (.appApi "a.json")).2 h) (by decide)

end Key

end ActionSweep
