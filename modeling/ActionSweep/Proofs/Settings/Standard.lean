/-
The standard settings: which files they look at, and as what. A file below `views` or `public` that ends
like a page is one, and so is whatever lies in a folder that does; a JSON file below `app` is a document,
and a script is a script unless a folder on its path is named like a page; whatever lies in `node_modules` or `.git` is left out. In a project
without links every other file of these is a candidate, if it is text.
-/
import ActionSweep.Settings.Scan
import ActionSweep.Proofs.Pattern.Matching
import ActionSweep.Proofs.Scan.ActionFiles
import ActionSweep.Proofs.Scan.Walk

namespace ActionSweep

namespace ScanSettings

/-- The patterns of files with some endings below some folders. -/
def filesBelow (shapes : List (String × String)) : PatternSet :=
  ⟨shapes.map fun s => ⟨true, .path (Piece.below s.1 s.2)⟩⟩

/-- Where pages lie, and how they end. -/
def pages : List (String × String) :=
  [("views", ".html"), ("views", ".ejs"), ("public", ".html"), ("public", ".ejs")]

def standardRules : CandidateRules where
  markup := filesBelow pages
  structured := filesBelow [("app", ".json")]
  script := filesBelow [("public", ".js"), ("views", ".js"), ("extensions", ".js")]
  exclude := ⟨[⟨true, .path (Piece.inside "node_modules")⟩, ⟨true, .path (Piece.inside ".git")⟩]⟩
  bases := .ok ["app", "extensions", "public", "views"]

def standardConfig : ScanConfig := ⟨.ok ["app/api", "app/lib"], standardRules, .ok .standard⟩

theorem standard_config : standard.config = .ok standardConfig := rfl

end ScanSettings

/-! ## Sets of patterns -/

namespace PatternSet

/-- A text that starts with a part of a path is seen as it is. -/
theorem relative_append {part : Text} (hpart : Path.IsPart part) (u : Text) : relative (part ++ u) = part ++ u := by
  obtain ⟨c, cs, rfl⟩ := List.exists_cons_of_ne_nil hpart.nonempty
  have hc : c ≠ '/' := fun h => hpart.noSlash (h ▸ List.mem_cons_self ..)
  cases cs with
  | nil =>
    have hdot : c ≠ '.' := fun h => hpart.noDot (by rw [h])
    unfold relative
    split
    · rename_i he; exact absurd (List.cons.inj he).1 hc
    · rename_i he; exact absurd (List.cons.inj he).1 hdot
    · rfl
  | cons d cs =>
    have hd : d ≠ '/' := fun h => hpart.noSlash (by simp [h])
    unfold relative
    split
    · rename_i he; exact absurd (List.cons.inj he).1 hc
    · rename_i he; exact absurd (List.cons.inj (List.cons.inj he).2).1 hd
    · rfl

/-- If no pattern takes back, a path is in the set exactly if some pattern matches it. -/
theorem contains_iff {s : PatternSet} (hs : ∀ p ∈ s.patterns, p.includes = true) {path : Text}
    (hpath : relative path = path) : s.contains path = true ↔ ∃ p ∈ s.patterns, p.isMatch path = true := by
  have hfold : ∀ (ps : List Pattern) (b : Bool), (∀ p ∈ ps, p.includes = true) →
      (ps.foldl (fun found p => if p.isMatch path then p.includes else found) b = true ↔
        b = true ∨ ∃ p ∈ ps, p.isMatch path = true) := by
    intro ps
    induction ps with
    | nil => simp
    | cons p ps ih =>
      intro b h
      rw [List.foldl_cons, ih _ fun q hq => h q (List.mem_cons_of_mem p hq)]
      by_cases hm : p.isMatch path = true
      · simp [hm, h p (List.mem_cons_self ..)]
      · simp [hm]
  unfold contains
  rw [hpath]
  simpa using hfold s.patterns false hs

end PatternSet

namespace ScanSettings

open ActionSweep.Path (IsPart)

/-! ## What is left out -/

theorem filesBelow_iff {shapes : List (String × String)} {path : Text} (hpath : PatternSet.relative path = path) :
    (filesBelow shapes).contains path = true ↔ ∃ s ∈ shapes, Piece.matchAll (Piece.below s.1 s.2) path = true := by
  have hincludes : ∀ p ∈ (filesBelow shapes).patterns, p.includes = true := by
    intro p hp
    obtain ⟨s, -, rfl⟩ := List.mem_map.1 hp
    rfl
  rw [PatternSet.contains_iff hincludes hpath]
  constructor
  · rintro ⟨p, hp, hm⟩
    obtain ⟨s, hs, rfl⟩ := List.mem_map.1 hp
    exact ⟨s, hs, hm⟩
  · rintro ⟨s, hs, hm⟩
    exact ⟨_, List.mem_map_of_mem hs, hm⟩

/-- The names of folders whose content is left out. -/
def leftOut : List Text := ["node_modules", ".git"]

theorem relative_join {parts : List Text} (hne : parts ≠ []) (hparts : ∀ p ∈ parts, IsPart p) (u : Text) :
    PatternSet.relative (Text.join "/" parts ++ u) = Text.join "/" parts ++ u := by
  obtain ⟨p, ps, rfl⟩ := List.exists_cons_of_ne_nil hne
  have hp := hparts p (List.mem_cons_self ..)
  by_cases hps : ps = []
  · subst hps
    exact PatternSet.relative_append hp u
  · rw [Text.join_cons hps, List.append_assoc, List.append_assoc]
    exact PatternSet.relative_append hp _

theorem exclude_contains {t : Text} (hrel : PatternSet.relative t = t) (h : standardRules.exclude.contains t = true) :
    ∃ name ∈ leftOut, name ∈ (t.split '/').dropLast := by
  rw [PatternSet.contains_iff (by decide) hrel] at h
  obtain ⟨p, hp, hm⟩ := h
  simp only [standardRules, List.mem_cons, List.not_mem_nil, or_false] at hp
  rcases hp with rfl | rfl
  · exact ⟨"node_modules", by decide, Piece.of_matchAll_inside (by decide) hm⟩
  · exact ⟨".git", by decide, Piece.of_matchAll_inside (by decide) hm⟩

/-- A file is not left out if no folder on its path is. -/
theorem file_not_excluded {parts : List Text} (hne : parts ≠ []) (hparts : ∀ p ∈ parts, IsPart p)
    (hclean : ∀ p ∈ parts.dropLast, p ∉ leftOut) :
    standardRules.isExcluded (Text.join "/" parts) false = false := by
  rw [Bool.eq_false_iff]
  intro h
  have hrel := relative_join hne hparts []
  rw [List.append_nil] at hrel
  obtain ⟨name, hname, hmem⟩ := exclude_contains hrel h
  rw [show Text.join "/" parts = Text.join ['/'] parts from rfl,
    Text.split_join hne fun p hp => (hparts p hp).noSlash] at hmem
  exact hclean name hmem hname

/-- A folder is entered if neither it nor a folder on its path is left out. -/
theorem folder_not_excluded {parts : List Text} (hne : parts ≠ []) (hparts : ∀ p ∈ parts, IsPart p)
    (hclean : ∀ p ∈ parts, p ∉ leftOut) : standardRules.isExcluded (Text.join "/" parts) true = false := by
  rw [Bool.eq_false_iff]
  intro h
  have htrim : (Text.join "/" parts).trimRight (· = '/') = Text.join "/" parts := by
    obtain ⟨front, l, rfl⟩ := List.eq_nil_or_concat parts |>.resolve_left hne
    have hl : IsPart l := hparts l (by simp)
    obtain ⟨u, hu⟩ := Text.join_concat "/" front l
    rw [List.concat_eq_append, hu]
    obtain ⟨c, cs, hc⟩ := List.exists_cons_of_ne_nil (List.reverse_ne_nil_iff.2 hl.nonempty)
    have hslash : c ≠ '/' := fun he => hl.noSlash (List.mem_reverse.1 (hc ▸ he ▸ List.mem_cons_self ..))
    unfold Text.trimRight
    rw [List.reverse_append, hc, List.cons_append, List.dropWhile_cons_of_neg (by simpa using hslash),
      ← List.cons_append, ← hc, ← List.reverse_append, List.reverse_reverse]
  obtain ⟨name, hname, hmem⟩ := exclude_contains (relative_join hne hparts ['/']) (by
    unfold CandidateRules.isExcluded at h
    rwa [if_pos rfl, htrim] at h)
  rw [show Text.join "/" parts = Text.join ['/'] parts from rfl, Text.split_append,
    Text.split_join hne fun p hp => (hparts p hp).noSlash, show Text.split '/' [] = [[]] from rfl,
    List.dropLast_concat] at hmem
  exact hclean name hmem hname

/-- Where the actions of a project lie. -/
def standardDirs : List Text := ["app/api", "app/lib"]

theorem standardDirs_lead_down : ∀ dir ∈ standardDirs, Path.anchorOf dir = .here ∧ Path.Descends (Path.partsOf dir) := by
  unfold Path.Descends
  decide

/-- Where the walks of a scan start. -/
def standardBases : List Text := ["app", "extensions", "public", "views"]

theorem parts_standardBases : ∀ base ∈ standardBases, Path.partsOf base = [base] := by decide

theorem standardBases_lead_down :
    ∀ base ∈ standardBases, Path.anchorOf base = .here ∧ Path.Descends (Path.partsOf base) := by
  unfold Path.Descends
  decide

theorem mem_candidates {disk : Disk} {project : Path} {place : List Text} {tree : Dir}
    (hp : disk.HasProject project place tree) {candidates : List (Text × Category)}
    (hall : Candidate.all standardRules disk project = .ok candidates) {file base : Text} {names : List Text}
    {category : Category} (hfile : IsProjectFile tree file) (hparts : Path.partsOf file = base :: names)
    (hne : names ≠ []) (hbase : base ∈ standardBases)
    (hclean : ∀ folder ∈ (Path.partsOf file).dropLast, folder ∉ leftOut)
    (hcategory : standardRules.classify file = some category)
    (htext : FileKind.isTextFile disk (project.under file).text = true) : (file, category) ∈ candidates := by
  obtain ⟨b, hb⟩ := hfile.stands
  have hpart : ∀ p ∈ base :: names, IsPart p := fun p hp => (hfile.descends p (hparts ▸ hp)).1
  rw [hparts] at hb hclean
  obtain rfl : file = Text.join "/" (base :: names) := by
    have htext := hfile.text_eq
    rwa [hparts, Path.text_of_parts_ne_nil (List.cons_ne_nil _ _)] at htext
  have hbaseParts := parts_standardBases base hbase
  refine (Candidate.mem_all_iff hp hall rfl standardBases_lead_down).2 ⟨⟨hcategory, htext⟩, base, hbase, names, ?_, ?_⟩
  swap
  · rw [hbaseParts]
    rfl
  rw [hbaseParts]
  refine ⟨hne, ⟨b, hb⟩, fun front back he _ hback => ?_⟩
  have hfront : ∀ p ∈ base :: front, p ∈ (base :: names).dropLast := by
    intro p hp
    rw [he, ← List.cons_append, List.dropLast_append_of_ne_nil hback]
    exact List.mem_append_left _ hp
  exact folder_not_excluded (List.cons_ne_nil _ _) (fun p hp => hpart p (List.dropLast_subset _ (hfront p hp)))
    fun p hp => hclean p (hfront p hp)

/-! ## What a file is looked at as -/

theorem prefix_join {part : Text} {parts : List Text} : part <+: Text.join "/" (part :: parts) := by
  by_cases h : parts = []
  · subst h
    exact List.prefix_refl part
  · rw [Text.join_cons h, List.append_assoc]
    exact List.prefix_append ..

/-- The text of a path is that of a part, with what stands before and behind it. -/
theorem join_part (base : Text) (front : List Text) (part : Text) (back : List Text) :
    ∃ after, Piece.matchAll [.partEnd] after = true ∧
      Text.join "/" (base :: (front ++ part :: back)) =
        if front = [] then base ++ '/' :: (part ++ after)
        else base ++ '/' :: (Text.join "/" front ++ '/' :: (part ++ after)) := by
  obtain ⟨after, hafter, hjoin⟩ : ∃ after, Piece.matchAll [.partEnd] after = true ∧
      Text.join "/" (part :: back) = part ++ after := by
    by_cases hback : back = []
    · subst hback
      exact ⟨[], Piece.matchAll_partEnd.2 (.inl rfl), (List.append_nil part).symm⟩
    · refine ⟨'/' :: Text.join "/" back, Piece.matchAll_partEnd.2 (.inr (.inr ⟨_, rfl⟩)), ?_⟩
      rw [Text.join_cons hback]
      simp
  refine ⟨after, hafter, ?_⟩
  rw [Text.join_cons (by simp)]
  split
  · rename_i hfront
    rw [hfront, List.nil_append, hjoin]
    simp
  · rename_i hfront
    rw [Text.join_append (List.cons_ne_nil part back) hfront, hjoin]
    simp

/-- A path with a part that has an ending, below a folder, is in the set if the ending and folder are. -/
theorem contains_below {shapes : List (String × String)} {base : String} (ending : String)
    (h : (base, ending) ∈ shapes) {front back : List Text} {part : Text}
    (hparts : ∀ p ∈ base.toList :: (front ++ part :: back), IsPart p)
    (hline : '\n' ∉ Text.join "/" (base.toList :: (front ++ part :: back))) (hend : ending.toList <:+ part) :
    (filesBelow shapes).contains (Text.join "/" (base.toList :: (front ++ part :: back))) = true := by
  have hrel := relative_join (List.cons_ne_nil _ _) hparts []
  rw [List.append_nil] at hrel
  refine (filesBelow_iff hrel).2 ⟨(base, ending), h, ?_⟩
  obtain ⟨stem, rfl⟩ := hend
  have hstem : '/' ∉ stem := fun hm => (hparts (stem ++ ending.toList) (by simp)).noSlash (List.mem_append_left _ hm)
  obtain ⟨after, hafter, hjoin⟩ := join_part base.toList front (stem ++ ending.toList) back
  rw [hjoin, List.append_assoc] at hline ⊢
  split at hline
  · rename_i hfront
    rw [if_pos hfront]
    exact Piece.matchAll_below_direct _ _ hstem hafter
  · rename_i hfront
    rw [if_neg hfront]
    refine Piece.matchAll_below_deep _ _ (fun hnil => ?_) (fun hm => hline ?_) hstem hafter
    · -- a folder has a name, so the text of the folders is not empty
      obtain ⟨f, fs, rfl⟩ := List.exists_cons_of_ne_nil hfront
      have hpre : f <+: [] := hnil ▸ prefix_join
      exact (hparts f (by simp)).nonempty (List.prefix_nil.1 hpre)
    · exact List.mem_append_right _ (List.mem_cons_of_mem _ (List.mem_append_left _ hm))

/-- A file in the set lies below one of the folders. -/
theorem begins_of_contains_below {shapes : List (String × String)} {base : Text} {parts : List Text}
    (hparts : ∀ p ∈ base :: parts, IsPart p) (h : (filesBelow shapes).contains (Text.join "/" (base :: parts)) = true) :
    ∃ s ∈ shapes, s.1.toList <+: base ∨ base <+: s.1.toList := by
  have hrel := relative_join (List.cons_ne_nil _ _) hparts []
  rw [List.append_nil] at hrel
  obtain ⟨s, hs, hm⟩ := (filesBelow_iff hrel).1 h
  exact ⟨s, hs, List.prefix_or_prefix_of_prefix (Piece.begins_of_matchAll_below hm) prefix_join⟩

/-- A file in the set has, below its first folder, a part with the ending. -/
theorem of_contains_below {shapes : List (String × String)} (hshapes : ∀ s ∈ shapes, '/' ∉ s.2.toList) {base : Text}
    {parts : List Text} (hparts : ∀ p ∈ base :: parts, IsPart p) (hline : '\n' ∉ Text.join "/" (base :: parts))
    (h : (filesBelow shapes).contains (Text.join "/" (base :: parts)) = true) :
    ∃ s ∈ shapes, (s.1.toList <+: base ∨ base <+: s.1.toList) ∧ ∃ part ∈ parts, s.2.toList <:+ part := by
  have hrel := relative_join (List.cons_ne_nil _ _) hparts []
  rw [List.append_nil] at hrel
  obtain ⟨s, hs, hm⟩ := (filesBelow_iff hrel).1 h
  obtain ⟨part, hpart, hend⟩ := Piece.of_matchAll_below (hshapes s hs) hline hm
  rw [show Text.join "/" (base :: parts) = Text.join ['/'] (base :: parts) from rfl,
    Text.split_join (List.cons_ne_nil _ _) fun p hp => (hparts p hp).noSlash] at hpart
  exact ⟨s, hs, List.prefix_or_prefix_of_prefix (Piece.begins_of_matchAll_below hm) prefix_join, part, hpart, hend⟩

variable {base name : Text} {folders : List Text}

theorem classify_of_not_excluded {parts : List Text} (hne : parts ≠ []) (hparts : ∀ p ∈ parts, IsPart p)
    (hclean : ∀ p ∈ parts.dropLast, p ∉ leftOut) :
    standardRules.classify (Text.join "/" parts) =
      if standardRules.markup.contains (Text.join "/" parts) then some .markup
      else if standardRules.structured.contains (Text.join "/" parts) then some .structured
      else if standardRules.script.contains (Text.join "/" parts) then some .script
      else none := by
  unfold CandidateRules.classify
  rw [file_not_excluded hne hparts hclean, if_neg (by decide)]

/-- Pages below `views` and `public`, and whatever lies in a folder that is named like one. -/
theorem classify_page {base ending : String} {front back : List Text} {part : Text}
    (hbase : base = "views" ∨ base = "public") (hending : ending = ".html" ∨ ending = ".ejs")
    (hparts : ∀ p ∈ base.toList :: (front ++ part :: back), IsPart p)
    (hclean : ∀ p ∈ (base.toList :: (front ++ part :: back)).dropLast, p ∉ leftOut)
    (hline : '\n' ∉ Text.join "/" (base.toList :: (front ++ part :: back))) (hend : ending.toList <:+ part) :
    standardRules.classify (Text.join "/" (base.toList :: (front ++ part :: back))) = some .markup := by
  rw [classify_of_not_excluded (List.cons_ne_nil _ _) hparts hclean, if_pos]
  refine contains_below ending ?_ hparts hline hend
  rcases hbase with rfl | rfl <;> rcases hending with rfl | rfl <;> decide

/-- JSON files below `app`. -/
theorem classify_json (hparts : ∀ p ∈ "app".toList :: (folders ++ [name]), IsPart p)
    (hclean : ∀ p ∈ folders, p ∉ leftOut)
    (hline : '\n' ∉ Text.join "/" ("app".toList :: (folders ++ [name]))) (hend : ".json".toList <:+ name) :
    standardRules.classify (Text.join "/" ("app".toList :: (folders ++ [name]))) = some .structured := by
  rw [classify_of_not_excluded (List.cons_ne_nil _ _) hparts (by
    rw [← List.cons_append, List.dropLast_concat]
    intro p hp
    rcases List.mem_cons.1 hp with rfl | hp
    · decide
    · exact hclean p hp), if_neg, if_pos]
  · exact contains_below ".json" (by decide) hparts hline hend
  · intro h
    obtain ⟨s, hs, hpre, -⟩ := of_contains_below (by decide) hparts hline h
    revert hpre
    revert s
    decide

/-- Files below `app` are looked at as documents, if at all. -/
theorem structured_of_app {parts : List Text} (hparts : ∀ p ∈ "app".toList :: parts, IsPart p) {category : Category}
    (h : standardRules.classify (Text.join "/" ("app".toList :: parts)) = some category) : category = .structured := by
  have hpages : ∀ s ∈ pages, ¬ (s.1.toList <+: "app".toList ∨ "app".toList <+: s.1.toList) := by decide
  have hscripts : ∀ s ∈ ([("public", ".js"), ("views", ".js"), ("extensions", ".js")] : List (String × String)),
      ¬ (s.1.toList <+: "app".toList ∨ "app".toList <+: s.1.toList) := by decide
  unfold CandidateRules.classify at h
  split at h
  · cases h
  split at h
  · rename_i hm
    obtain ⟨s, hs, hpre⟩ := begins_of_contains_below hparts hm
    exact absurd hpre (hpages s hs)
  split at h
  · exact (Option.some.inj h).symm
  split at h
  · rename_i hm
    obtain ⟨s, hs, hpre⟩ := begins_of_contains_below hparts hm
    exact absurd hpre (hscripts s hs)
  · cases h

theorem pages_endings : ∀ s ∈ pages, s.2 = ".html" ∨ s.2 = ".ejs" := by decide

theorem pages_not_extensions :
    ∀ s ∈ pages, ¬ (s.1.toList <+: "extensions".toList ∨ "extensions".toList <+: s.1.toList) := by
  decide

/-- Scripts, if no folder on the path is named like a page. -/
theorem classify_script {base : String} (hbase : base = "public" ∨ base = "views" ∨ base = "extensions")
    (hparts : ∀ p ∈ base.toList :: (folders ++ [name]), IsPart p)
    (hclean : ∀ p ∈ base.toList :: folders, p ∉ leftOut)
    (hline : '\n' ∉ Text.join "/" (base.toList :: (folders ++ [name]))) (hend : ".js".toList <:+ name)
    (hpages : base ≠ "extensions" → ∀ f ∈ folders, ¬ ".html".toList <:+ f ∧ ¬ ".ejs".toList <:+ f) :
    standardRules.classify (Text.join "/" (base.toList :: (folders ++ [name]))) = some .script := by
  rw [classify_of_not_excluded (List.cons_ne_nil _ _) hparts (by
    rwa [← List.cons_append, List.dropLast_concat]), if_neg, if_neg, if_pos]
  · refine contains_below ".js" ?_ hparts hline hend
    rcases hbase with rfl | rfl | rfl <;> decide
  · intro h
    obtain ⟨s, hs, hpre, -⟩ := of_contains_below (by decide) hparts hline h
    obtain rfl : s = ("app", ".json") := by simpa using hs
    rcases hbase with rfl | rfl | rfl <;> revert hpre <;> decide
  -- a page pattern would match at a folder or at the name, which ends like a script
  · intro h
    obtain ⟨s, hs, hpre, part, hpart, hsuffix⟩ := of_contains_below (by decide) hparts hline h
    have hkind : s.2 = ".html" ∨ s.2 = ".ejs" := pages_endings s hs
    have hname : ¬ s.2.toList <:+ name := by
      intro hs'
      rcases List.suffix_or_suffix_of_suffix hend hs' with h' | h' <;>
        rcases hkind with hk | hk <;> rw [hk] at h' <;> revert h' <;> decide
    rcases List.mem_append.1 hpart with hpart | hpart
    · have hext : base ≠ "extensions" := by
        rintro rfl
        exact pages_not_extensions s hs hpre
      rcases hkind with hk | hk <;> rw [hk] at hsuffix
      · exact (hpages hext part hpart).1 hsuffix
      · exact (hpages hext part hpart).2 hsuffix
    · rw [List.mem_singleton] at hpart
      exact hname (hpart ▸ hsuffix)

end ScanSettings

/-- A JSON file in one of the standard action folders. -/
def IsActionFile (tree : Dir) (file : Text) : Prop :=
  IsJsonFile tree file ∧ ∃ dir ∈ (["app/api", "app/lib"] : List Text), ∃ more, more ≠ [] ∧
    Path.partsOf file = Path.partsOf dir ++ more

end ActionSweep
