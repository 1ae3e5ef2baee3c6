/-
Which files are candidates, for settings whose patterns are lines of text. The walks start in the folders
of the first parts of the lines, or in the project if some line starts with a wildcard. So they reach every
file that has a category if all lines are of the kind that matches below its folder only; then the
candidates are the text files with a category that lie in no folder that is left out, each once.
-/
import ActionSweep.Settings.Scan
import ActionSweep.Proofs.Pattern.Anchored
import ActionSweep.Proofs.Sample

namespace ActionSweep

open Outcome (bind_ok map_ok mapM_ok)
open ActionSweep.Path (IsPart)

/-! ## Patterns of lines -/

/-- What is in a set of patterns is matched by one that takes in. -/
theorem PatternSet.of_contains {s : PatternSet} {path : Text} (h : s.contains path = true) :
    ∃ p ∈ s.patterns, p.includes = true ∧ p.isMatch (relative path) = true := by
  have hfold : ∀ (ps : List Pattern) (b : Bool),
      ps.foldl (fun found p => if p.isMatch (relative path) then p.includes else found) b = true →
      b = true ∨ ∃ p ∈ ps, p.includes = true ∧ p.isMatch (relative path) = true := by
    intro ps
    induction ps with
    | nil => exact fun b h => .inl h
    | cons p ps ih =>
      intro b h
      rcases ih _ h with h | ⟨q, hq, h⟩
      · dsimp only at h
        split at h
        · rename_i hm
          exact .inr ⟨p, List.mem_cons_self .., h, hm⟩
        · exact .inl h
      · exact .inr ⟨q, List.mem_cons_of_mem p hq, h⟩
  exact (hfold s.patterns false h).resolve_left (by decide)

namespace ScanSettings

variable {s : ScanSettings} {rules : CandidateRules} {markup structured script : List Text}

/-- The patterns of the categories are given as lists of lines. -/
structure HasLines (s : ScanSettings) (markup structured script : List Text) : Prop where
  markup_eq : s.markup = .list (markup.map .text)
  structured_eq : s.structured = .list (structured.map .text)
  script_eq : s.script = .list (script.map .text)

theorem patterns_of_lines {lines : List Text} {set : PatternSet} (h : patterns (lines.map .text) = .ok set) :
    ∀ p ∈ set.patterns, ∃ line ∈ lines, Pattern.ofLine line = .ok (some p) := by
  intro p hp
  obtain ⟨found, hfound, rfl⟩ := map_ok.1 h
  obtain ⟨o, ho, rfl⟩ := List.mem_filterMap.1 hp
  obtain ⟨v, hv, hpattern⟩ := forall₂_mem_right (mapM_ok.1 hfound) ho
  obtain ⟨line, hline, rfl⟩ := List.mem_map.1 (List.mem_filter.1 hv).1
  refine ⟨line, hline, ?_⟩
  unfold pattern at hpattern
  simp only at hpattern
  cases hof : Pattern.ofLine line with
  | error e => rw [hof] at hpattern; cases hpattern
  | ok q =>
    rw [hof] at hpattern
    cases hpattern
    rfl

theorem bases_of_lines (lines : List Text) : bases (lines.map .text) = .ok (CandidateRules.basesOf lines) := by
  have htexts : (lines.map Value.text).mapM (Value.asText "lstrip") = .ok lines := by
    rw [mapM_ok, List.forall₂_map_left_iff, List.forall₂_same]
    exact fun line _ => rfl
  unfold bases
  rw [htexts]
  rfl

/-- The rules that settings with lines give: the patterns come from the lines, and so do the bases. -/
theorem HasLines.rules_ok (h : s.HasLines markup structured script) (hrules : s.rules = .ok rules) :
    patterns (markup.map .text) = .ok rules.markup ∧ patterns (structured.map .text) = .ok rules.structured ∧
      patterns (script.map .text) = .ok rules.script ∧
      rules.bases = .ok (CandidateRules.basesOf (markup ++ structured ++ script)) := by
  unfold ScanSettings.rules at hrules
  rw [h.markup_eq, h.structured_eq, h.script_eq] at hrules
  simp only [Value.items, Except.mapError] at hrules
  obtain ⟨_, ⟨⟩, hrules⟩ := bind_ok.1 hrules
  obtain ⟨_, ⟨⟩, hrules⟩ := bind_ok.1 hrules
  obtain ⟨_, ⟨⟩, hrules⟩ := bind_ok.1 hrules
  obtain ⟨m, hm, hrules⟩ := bind_ok.1 hrules
  obtain ⟨d, hd, hrules⟩ := bind_ok.1 hrules
  obtain ⟨c, hc, hrules⟩ := bind_ok.1 hrules
  obtain ⟨x, hx, hrules⟩ := bind_ok.1 hrules
  cases hrules
  refine ⟨hm, hd, hc, ?_⟩
  rw [← bases_of_lines, List.map_append, List.map_append]

/-- A file with a category is taken in by some line. -/
theorem HasLines.line_of_classify (h : s.HasLines markup structured script) (hrules : s.rules = .ok rules)
    {file : Text} {category : Category} (hcategory : rules.classify file = some category) :
    ∃ line ∈ markup ++ structured ++ script, ∃ p, Pattern.ofLine line = .ok (some p) ∧ p.includes = true ∧
      p.isMatch (PatternSet.relative file) = true := by
  obtain ⟨hmarkup, hstructured, hscript, -⟩ := h.rules_ok hrules
  have hline : ∀ {lines : List Text} {set : PatternSet}, patterns (lines.map .text) = .ok set →
      set.contains file = true → ∃ line ∈ lines, ∃ p, Pattern.ofLine line = .ok (some p) ∧ p.includes = true ∧
        p.isMatch (PatternSet.relative file) = true := by
    intro lines set hset hcontains
    obtain ⟨p, hp, hincludes, hm⟩ := PatternSet.of_contains hcontains
    obtain ⟨line, hline, hof⟩ := patterns_of_lines hset p hp
    exact ⟨line, hline, p, hof, hincludes, hm⟩
  unfold CandidateRules.classify at hcategory
  split at hcategory
  · cases hcategory
  split at hcategory
  · rename_i hcontains
    obtain ⟨line, hmem, h⟩ := hline hmarkup hcontains
    exact ⟨line, by simp [hmem], h⟩
  split at hcategory
  · rename_i hcontains
    obtain ⟨line, hmem, h⟩ := hline hstructured hcontains
    exact ⟨line, by simp [hmem], h⟩
  split at hcategory
  · rename_i hcontains
    obtain ⟨line, hmem, h⟩ := hline hscript hcontains
    exact ⟨line, by simp [hmem], h⟩
  · cases hcategory

end ScanSettings

/-! ## Bases of lines -/

namespace CandidateRules

theorem slash_not_mem_baseOf (line : Text) : '/' ∉ baseOf line := by
  unfold baseOf
  dsimp only
  split
  · simp
  · intro h
    simpa using List.mem_takeWhile_imp h

/-- The bases of lines name folders of the project, or the project; the folder above it is one only if some
line says so. -/
theorem bases_lead_down {lines : List Text} (h : [] ∈ lines.map baseOf ∨ ∀ line ∈ lines, baseOf line ≠ ['.', '.']) :
    ∀ base ∈ basesOf lines, Path.anchorOf base = .here ∧ Path.Descends (Path.partsOf base) ∧
      (Path.partsOf base = [] ∨ Path.partsOf base = [base]) := by
  have hname : ∀ base : Text, '/' ∉ base → base ≠ ['.', '.'] → Path.anchorOf base = .here ∧
      Path.Descends (Path.partsOf base) ∧ (Path.partsOf base = [] ∨ Path.partsOf base = [base]) := by
    intro base hslash hup
    refine ⟨Path.anchorOf_here.2 ?_, ?_⟩
    · rintro u rfl
      exact hslash (List.mem_cons_self ..)
    · unfold Path.partsOf Path.Descends
      rw [Text.split_of_not_mem hslash]
      by_cases hpart : base = [] ∨ base = ['.']
      · rcases hpart with rfl | rfl <;> simp
      · rw [not_or] at hpart
        simp [hpart.1, hpart.2, hup]
        exact ⟨hpart.1, hpart.2, hslash⟩
  intro base hbase
  unfold basesOf at hbase
  simp only at hbase
  split at hbase
  · rw [List.mem_singleton] at hbase
    subst hbase
    exact hname [] (by simp) (by simp)
  · rename_i hwhole
    rw [Text.mem_sort, List.mem_eraseDups] at hbase
    obtain ⟨line, hline, rfl⟩ := List.mem_map.1 hbase
    rw [List.contains_iff_mem] at hwhole
    exact hname _ (slash_not_mem_baseOf line) (h.resolve_left hwhole line hline)

theorem mem_basesOf {lines : List Text} (h : [] ∉ lines.map baseOf) {line : Text} (hline : line ∈ lines) :
    baseOf line ∈ basesOf lines := by
  unfold basesOf
  simp only [List.contains_iff_mem, h, if_false]
  rw [Text.mem_sort, List.mem_eraseDups]
  exact List.mem_map_of_mem hline

theorem basesOf_whole {lines : List Text} (h : [] ∈ lines.map baseOf) : basesOf lines = [[]] := by
  unfold basesOf
  simp only [List.contains_iff_mem, h, if_true]

end CandidateRules

/-! ## The candidates -/

namespace ScanSettings

variable {disk : Disk} {project : Path} {place : List Text} {tree : Dir} {s : ScanSettings} {rules : CandidateRules}
  {markup structured script : List Text}

open CandidateRules (baseOf basesOf)

/-- The walks for some lines reach all that the lines take in: they start in the project, or every line
takes in only what lies below its folder. -/
def WalksReach (lines : List Text) : Prop :=
  [] ∈ lines.map baseOf ∨ ∀ line ∈ lines, Pattern.Covered line ∧ baseOf line ≠ ['.', '.']

/-- A file with a category lies below some base. -/
theorem base_of_classify (hlines : s.HasLines markup structured script) (hrules : s.rules = .ok rules)
    (hreach : WalksReach (markup ++ structured ++ script)) {file : Text} (hfile : IsProjectFile tree file)
    {category : Category} (hcategory : rules.classify file = some category) :
    ∃ base ∈ basesOf (markup ++ structured ++ script), ∃ names, names ≠ [] ∧
      Path.partsOf file = Path.partsOf base ++ names := by
  by_cases hwhole : [] ∈ (markup ++ structured ++ script).map baseOf
  · rw [CandidateRules.basesOf_whole hwhole]
    exact ⟨[], List.mem_singleton_self _, Path.partsOf file, hfile.nonempty, rfl⟩
  obtain ⟨line, hline, p, hof, hincludes, hm⟩ := hlines.line_of_classify hrules hcategory
  have hparts : ∀ part ∈ Path.partsOf file, IsPart part := fun part hp => (hfile.descends part hp).1
  have htext : file = Text.join "/" (Path.partsOf file) := hfile.text_eq.trans (Path.text_here hfile.nonempty)
  have hrel : PatternSet.relative file = file := by
    have h := relative_join hfile.nonempty hparts []
    rwa [List.append_nil, ← htext] at h
  rw [hrel] at hm
  obtain ⟨head, rest, hpath, hbase⟩ := (hreach.resolve_left hwhole line hline).1.below hof hincludes hm
  have hhead : head ≠ [] := by
    -- the text of a path of the project does not begin with a slash
    rintro rfl
    obtain ⟨c, t, hjoin, hc⟩ := Path.join_head hparts hfile.nonempty
    rw [← htext, hpath] at hjoin
    exact hc (List.cons.inj hjoin).1.symm
  have hslash : '/' ∉ head := hbase hhead ▸ CandidateRules.slash_not_mem_baseOf line
  have hmem : head ∈ Path.partsOf file := by
    have hsplit := congrArg (Text.split '/') hpath
    rw [Text.split_append, Text.split_of_not_mem hslash, htext,
      show Text.join "/" (Path.partsOf file) = Text.join ['/'] (Path.partsOf file) from rfl,
      Text.split_join hfile.nonempty fun part hp => (hparts part hp).noSlash] at hsplit
    rw [hsplit]
    simp
  have hfirst : Path.partsOf file = head :: Path.partsOf rest := by
    rw [hpath, Path.partsOf_append, Path.partsOf_of_isPart (hparts head hmem), List.singleton_append]
  refine ⟨head, hbase hhead ▸ CandidateRules.mem_basesOf hwhole hline, Path.partsOf rest, fun hnil => ?_, ?_⟩
  · -- if the head were all parts of the file, its text would have no slash
    rw [hfirst, hnil] at htext
    have hmem : '/' ∈ file := by rw [hpath]; simp
    rw [htext] at hmem
    exact hslash hmem
  · rw [hfirst, Path.partsOf_of_isPart (hparts head hmem), List.singleton_append]

/-- What makes a file of a project a candidate: its category, its content, and folders that are not left out. -/
structure IsCandidate (rules : CandidateRules) (disk : Disk) (project : Path) (tree : Dir) (file : Text)
    (category : Category) : Prop where
  isFile : IsProjectFile tree file
  classified : rules.classify file = some category
  text : FileKind.isTextFile disk (project.under file).text = true
  entered : ∀ front back, Path.partsOf file = front ++ back → front ≠ [] → back ≠ [] →
    rules.isExcluded (Text.join "/" front) true = false

/-- If the walks for the lines reach all that the lines take in, and nothing below a base that is left out has a
category, exactly what makes a candidate is one. -/
theorem mem_all_iff_isCandidate (hlines : s.HasLines markup structured script) (hrules : s.rules = .ok rules)
    (hp : disk.HasProject project place tree) (hreach : WalksReach (markup ++ structured ++ script))
    (hleft : ∀ base ∈ basesOf (markup ++ structured ++ script), rules.isExcluded base true = true →
      ∀ file, IsProjectFile tree file → (Path.partsOf file).head? = some base → rules.classify file = none)
    {cs : List (Text × Category)} (hall : Candidate.all rules disk project = .ok cs) {file : Text} {category : Category} :
    (file, category) ∈ cs ↔ IsCandidate rules disk project tree file category := by
  obtain ⟨-, -, -, hbases⟩ := hlines.rules_ok hrules
  have hnames := CandidateRules.bases_lead_down (hreach.imp_right fun h line hline => (h line hline).2)
  rw [Candidate.mem_all_iff hp hall hbases fun base hbase => ⟨(hnames base hbase).1, (hnames base hbase).2.1⟩]
  constructor
  · rintro ⟨⟨hcategory, htext⟩, base, hbase, names, hshown, he⟩
    simp only at hcategory htext he
    have hfile : IsProjectFile tree file := he ▸ hshown.isProjectFile hp.tree_wellFormed
    have hparts : Path.partsOf file = Path.partsOf base ++ names := by
      obtain ⟨b, hb⟩ := hshown.stands
      rw [he, Path.partsOf_join fun p hm => ((hp.tree_wellFormed.find? hb).1 p hm).part]
    refine ⟨hfile, hcategory, htext, fun front back hfront hne hback => ?_⟩
    rcases (hnames base hbase).2.2 with hbase' | hbase'
    · rw [hbase'] at hparts hshown
      exact hshown.entered front back (hparts.symm.trans hfront) hne hback
    · rw [hbase'] at hparts hshown
      obtain ⟨first, mid, rfl⟩ := List.exists_cons_of_ne_nil hne
      obtain ⟨rfl, hmid⟩ := List.cons.inj (hparts.symm.trans hfront)
      by_cases hnil : mid = []
      · subst hnil
        rw [Bool.eq_false_iff]
        intro hex
        have hnone := hleft base hbase hex file hfile (by rw [hparts]; rfl)
        rw [hcategory] at hnone
        cases hnone
      · exact hshown.entered mid back hmid hnil hback
  · rintro ⟨hfile, hcategory, htext, hentered⟩
    obtain ⟨base, hbase, names, hne, hparts⟩ := base_of_classify hlines hrules hreach hfile hcategory
    obtain ⟨b, hb⟩ := hfile.stands
    refine ⟨⟨hcategory, htext⟩, base, hbase, names, ⟨hne, ⟨b, hparts ▸ hb⟩, fun mid back he hmid hback => ?_⟩, ?_⟩
    · refine hentered (Path.partsOf base ++ mid) back ?_ (by simp [hmid]) hback
      rw [hparts, he, List.append_assoc]
    · rw [← hparts]
      exact hfile.text_eq.trans (Path.text_here hfile.nonempty)

/-- If the walks for the lines reach all that the lines take in, the candidates of a project are its text files with
a category that lie in no folder that is left out, each once. A base that is left out is entered all the
same, so nothing below it may have a category. -/
theorem candidates_cover (hlines : s.HasLines markup structured script) (hrules : s.rules = .ok rules)
    (hp : disk.HasProject project place tree) (hreach : WalksReach (markup ++ structured ++ script))
    (hasks : ∀ base ∈ basesOf (markup ++ structured ++ script), ∃ b, disk.isFolder (project.under base).text = .ok b)
    (hleft : ∀ base ∈ basesOf (markup ++ structured ++ script), rules.isExcluded base true = true →
      ∀ file, IsProjectFile tree file → (Path.partsOf file).head? = some base → rules.classify file = none) :
    ∃ cs, Candidate.all rules disk project = .ok cs ∧ (cs.map (·.1)).Nodup ∧
      ∀ file category, (file, category) ∈ cs ↔ IsCandidate rules disk project tree file category := by
  obtain ⟨-, -, -, hbases⟩ := hlines.rules_ok hrules
  obtain ⟨cs, hall⟩ := Candidate.all_runs hbases hasks
  exact ⟨cs, hall, Candidate.nodup_all hall, fun file category =>
    mem_all_iff_isCandidate hlines hrules hp hreach hleft hall⟩

/-! ## The standard settings -/

def standardMarkup : List Text := ["views/**/*.html", "views/**/*.ejs", "public/**/*.html", "public/**/*.ejs"]

def standardStructured : List Text := ["app/**/*.json"]

def standardScript : List Text := ["public/**/*.js", "views/**/*.js", "extensions/**/*.js"]

theorem standard_hasLines : standard.HasLines standardMarkup standardStructured standardScript := ⟨rfl, rfl, rfl⟩

/-- The walks of the standard settings reach all that their patterns take in. -/
theorem standard_walksReach : WalksReach (standardMarkup ++ standardStructured ++ standardScript) := by
  have hinner : ∀ head rest : Text, (head ≠ [] ∧ '/' ∉ head ∧ Pattern.Plain head ∧ (rest.any fun c => !isBlank c) = true) →
      Pattern.Covered (head ++ '/' :: rest) := by
    rintro head rest ⟨hne, hslash, hplain, hany⟩
    obtain ⟨c, hc, hblank⟩ := List.any_eq_true.1 hany
    exact .inner hne hslash hplain ⟨c, hc, by simpa using hblank⟩ rfl
  have hcovered : ∀ line ∈ standardMarkup ++ standardStructured ++ standardScript, Pattern.Covered line := by
    intro line hline
    simp only [standardMarkup, standardStructured, standardScript, List.mem_append, List.mem_cons, List.not_mem_nil, or_false] at hline
    rcases hline with (((rfl | rfl | rfl | rfl) | rfl) | (rfl | rfl | rfl))
    · exact hinner "views" "**/*.html" (by decide)
    · exact hinner "views" "**/*.ejs" (by decide)
    · exact hinner "public" "**/*.html" (by decide)
    · exact hinner "public" "**/*.ejs" (by decide)
    · exact hinner "app" "**/*.json" (by decide)
    · exact hinner "public" "**/*.js" (by decide)
    · exact hinner "views" "**/*.js" (by decide)
    · exact hinner "extensions" "**/*.js" (by decide)
  have hup : ∀ line ∈ standardMarkup ++ standardStructured ++ standardScript, baseOf line ≠ ['.', '.'] := by decide
  exact .inr fun line hline => ⟨hcovered line hline, hup line hline⟩

theorem standard_bases : basesOf (standardMarkup ++ standardStructured ++ standardScript) = standardBases := by
  decide

theorem standardBases_not_excluded : ∀ base ∈ standardBases, standardRules.isExcluded base true = false := by
  decide

/-- Under the standard settings, exactly what makes a candidate is one. -/
theorem standard_mem_all_iff (hp : disk.HasProject project place tree) {cs : List (Text × Category)}
    (hall : Candidate.all standardRules disk project = .ok cs) {file : Text} {category : Category} :
    (file, category) ∈ cs ↔ IsCandidate standardRules disk project tree file category := by
  have hrules : standard.rules = .ok standardRules := rfl
  refine mem_all_iff_isCandidate standard_hasLines hrules hp standard_walksReach ?_ hall
  rw [standard_bases]
  intro base hbase hex
  rw [standardBases_not_excluded base hbase] at hex
  cases hex

/-- The candidates of a sample project under the standard settings. -/
theorem sample_candidates_cover : ∃ cs, Candidate.all standardRules Sample.grownDisk Sample.project = .ok cs ∧
    cs = [(("app/api/a.json" : Text), Category.structured), (("app/lib/b.json" : Text), Category.structured),
      (("views/p.html" : Text), Category.markup)] ∧
    (cs.map (·.1)).Nodup ∧ ∀ file category, (file, category) ∈ cs ↔
      IsCandidate standardRules Sample.grownDisk Sample.project Sample.grownTree file category := by
  have hp : Sample.grownDisk.HasProject Sample.project ["p"] Sample.grownTree :=
    ⟨by decide +kernel, by decide, rfl, by decide⟩
  have hrun : ∃ cs, Candidate.all standardRules Sample.grownDisk Sample.project = .ok cs ∧
      cs = [(("app/api/a.json" : Text), Category.structured), (("app/lib/b.json" : Text), Category.structured),
        (("views/p.html" : Text), Category.markup)] :=
    Outcome.ok_of_check (by decide +kernel)
  obtain ⟨cs, hcs, hlist⟩ := hrun
  obtain ⟨cs', hcs', hnodup, hmem⟩ := candidates_cover standard_hasLines (show standard.rules = .ok standardRules from rfl) hp standard_walksReach
    (standard_bases ▸ by
      intro base hbase
      simp only [standardBases, List.mem_cons, List.not_mem_nil, or_false] at hbase
      rcases hbase with rfl | rfl | rfl | rfl
      · exact ⟨true, rfl⟩
      · exact ⟨false, rfl⟩
      · exact ⟨false, rfl⟩
      · exact ⟨true, rfl⟩)
    (standard_bases ▸ fun base hbase hex => by rw [standardBases_not_excluded base hbase] at hex; cases hex)
  obtain rfl := Except.ok.inj (hcs.symm.trans hcs')
  exact ⟨cs, hcs, hlist, hnodup, hmem⟩

/-- Settings whose only pattern is the bare name of a page. -/
def bareName : ScanSettings :=
  { standard with markup := texts ["p.html"], structured := texts [], script := texts [] }

def bareNameRules : CandidateRules where
  markup := ⟨[⟨true, .path (.leadingFolders :: ("p.html" : Text).map .literal ++ [.partEnd])⟩]⟩
  structured := ⟨[]⟩
  script := ⟨[]⟩
  exclude := standardRules.exclude
  bases := .ok ["p.html"]

/-- A bare name matches at any level, but the walk for it starts in a folder of that name: a page that has the
name, and all that makes a candidate, is not found. -/
theorem bare_name_missed : bareName.rules = .ok bareNameRules ∧
    Candidate.all bareNameRules Sample.grownDisk Sample.project = .ok [] ∧
    IsCandidate bareNameRules Sample.grownDisk Sample.project Sample.grownTree "views/p.html" .markup := by
  have hdescends : Path.Descends (Path.partsOf "views/p.html") := by
    unfold Path.Descends
    decide
  refine ⟨rfl, rfl, isProjectFile_text (by decide) hdescends rfl, by decide, by decide +kernel, ?_⟩
  intro front back he hfront _
  have hpart : ∀ part ∈ front, part ∈ Path.partsOf "views/p.html" := fun part hm => he ▸ List.mem_append_left back hm
  have hclean : ∀ part ∈ Path.partsOf "views/p.html", part ∉ leftOut := by decide
  exact folder_not_excluded hfront (fun part hm => (hdescends part (hpart part hm)).1) fun part hm =>
    hclean part (hpart part hm)

end ScanSettings

end ActionSweep
