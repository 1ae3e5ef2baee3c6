/-
The candidates of a scan: what the walks from the base folders meet, as far as it fits a category and is
text. A walk starts at the folder that its base names, and meets what lies below it under names that
lead there.
-/
import ActionSweep.Proofs.Files.Listing
import ActionSweep.Proofs.Files.Project
import ActionSweep.Proofs.Lists
import ActionSweep.Proofs.Outcome

namespace ActionSweep

open Outcome (bind_ok mapM_ok)
open ActionSweep.Path (IsPart)

variable {disk : Disk} {project : Path}

namespace Candidate

open CandidateRules (joined)

/-- The path of what a walk meets leads on from the folder where the walk is. -/
theorem under_met (project : Path) : ∀ (names : List Text) (path : Text), (∀ n ∈ names, IsPart n) →
    (project.under (met path names)).Alike
      ⟨(project.under path).anchor, (project.under path).parts ++ names⟩
  | [], path, _ => ⟨rfl, (List.append_nil _).symm⟩
  | n :: names, path, h => by
    have hn := Path.under_joined project path (h n (List.mem_cons_self ..))
    have ih := under_met project names (joined path n) fun m hm => h m (List.mem_cons_of_mem n hm)
    refine ⟨ih.absolute.trans hn.absolute, ih.parts.trans ?_⟩
    show (project.under (joined path n)).parts ++ names = _
    rw [hn.parts, List.append_assoc]
    rfl

/-- The name under which the walk from a base starts. -/
def startName (project : Path) (base : Text) : Text :=
  match Path.relativeTo? project (project.under base) with
  | some p => if p.parts.isEmpty then [] else p.text
  | none => base

/-- The name of the start names the start. -/
theorem under_startName {project : Path} (hproject : project.Normal) (base : Text) :
    project.under (startName project base) = project.under base := by
  unfold startName
  split
  · rename_i q hq
    obtain ⟨hpath, hhere⟩ := Path.relativeTo?_eq_some.1 hq
    have hnormal : q.Normal := fun part hpart =>
      hproject.under base part (by rw [hpath]; exact List.mem_append_right _ hpart)
    split
    · rename_i hnil
      rw [List.isEmpty_iff] at hnil
      rw [Path.under_nil, hpath, hnil, List.append_nil]
    · rw [Path.under_text hnormal hhere, hpath]
  · rfl

theorem filesFrom_ok {rules : CandidateRules} {base : Text} {files : List Text} :
    filesFrom rules disk project base = .ok files ↔
      (disk.isFolder (project.under base).text = .ok false ∧ files = []) ∨
        ∃ d, disk.isFolder (project.under base).text = .ok true ∧ disk.list (project.under base).text = .ok d ∧
          files = walk (fun p => disk.leadsToFolder (project.under p).text) (fun p => !rules.isExcluded p true)
            (startName project base) d := by
  unfold filesFrom
  simp only [bind_ok]
  constructor
  · rintro ⟨b, hb, h⟩
    cases b with
    | false =>
      cases h
      exact .inl ⟨hb, rfl⟩
    | true =>
      obtain ⟨d, hd, h⟩ := bind_ok.1 h
      cases h
      exact .inr ⟨d, hb, hd, rfl⟩
  · rintro (⟨hb, rfl⟩ | ⟨d, hb, hd, rfl⟩)
    · exact ⟨false, hb, rfl⟩
    · exact ⟨true, hb, bind_ok.2 ⟨d, hd, rfl⟩⟩

/-- The candidate that a file is, if it is one. -/
def candidate? (rules : CandidateRules) (disk : Disk) (project : Path) (path : Text) : Option (Text × Category) := do
  let category ← rules.classify path
  if FileKind.isTextFile disk (project.under path).text then some (path, category) else none

theorem candidate?_eq_some {rules : CandidateRules} {path : Text} {c : Text × Category} :
    candidate? rules disk project path = some c ↔ c.1 = path ∧ rules.classify path = some c.2 ∧
      FileKind.isTextFile disk (project.under path).text = true := by
  obtain ⟨file, category⟩ := c
  unfold candidate?
  rw [Option.bind_eq_bind, Option.bind_eq_some_iff]
  simp only [Option.ite_none_right_eq_some, Option.some.injEq, Prod.mk.injEq]
  constructor
  · rintro ⟨category, hcategory, htext, rfl, rfl⟩
    exact ⟨rfl, hcategory, htext⟩
  · rintro ⟨rfl, hcategory, htext⟩
    exact ⟨category, hcategory, htext, rfl, rfl⟩

theorem all_ok {rules : CandidateRules} {cs : List (Text × Category)} :
    all rules disk project = .ok cs ↔ ∃ bases lists, rules.bases = .ok bases ∧
      bases.mapM (filesFrom rules disk project) = .ok lists ∧
      cs = lists.flatten.eraseDups.filterMap (candidate? rules disk project) := by
  unfold all filesMet
  simp only [bind_ok]
  constructor
  · rintro ⟨_, ⟨bases, hbases, lists, hlists, h⟩, h'⟩
    cases h
    cases h'
    exact ⟨bases, lists, hbases, hlists, rfl⟩
  · rintro ⟨bases, lists, hbases, hlists, rfl⟩
    exact ⟨_, ⟨bases, hbases, lists, hlists, rfl⟩, rfl⟩

/-- The walks end well if every base can be asked about. -/
theorem all_runs {rules : CandidateRules} {bases : List Text} (hbases : rules.bases = .ok bases)
    (hasks : ∀ base ∈ bases, ∃ b, disk.isFolder (project.under base).text = .ok b) :
    ∃ cs, all rules disk project = .ok cs := by
  have hfiles : ∀ base ∈ bases, ∃ files, filesFrom rules disk project base = .ok files := by
    intro base hbase
    obtain ⟨b, hb⟩ := hasks base hbase
    cases b with
    | false => exact ⟨[], filesFrom_ok.2 (.inl ⟨hb, rfl⟩)⟩
    | true =>
      obtain ⟨d, hd⟩ := Disk.list_of_isFolder hb
      exact ⟨_, filesFrom_ok.2 (.inr ⟨d, hb, hd, rfl⟩)⟩
  obtain ⟨lists, hlists⟩ := Outcome.mapM_runs hfiles
  exact ⟨_, all_ok.2 ⟨bases, lists, hbases, hlists, rfl⟩⟩

/-- No file is a candidate twice. -/
theorem nodup_all {rules : CandidateRules} {cs : List (Text × Category)} (h : all rules disk project = .ok cs) : (cs.map (·.1)).Nodup := by
  obtain ⟨bases, lists, -, -, rfl⟩ := all_ok.1 h
  refine List.Nodup.sublist ?_ (nodup_eraseDups lists.flatten)
  generalize lists.flatten.eraseDups = l
  induction l with
  | nil => simp
  | cons file l ih =>
    rw [List.filterMap_cons]
    split
    · exact ih.cons file
    · rename_i c hc
      rw [List.map_cons, (candidate?_eq_some.1 hc).1]
      exact ih.cons_cons file

theorem met_eq_join : ∀ {names : List Text} {path : Text}, path ≠ [] →
    met path names = Text.join "/" (path :: names)
  | [], _, _ => rfl
  | n :: names, path, h => by
    have hjoined : joined path n = path ++ ("/" : Text) ++ n := by
      unfold joined
      rw [if_neg (by rwa [List.isEmpty_iff])]
      simp
    rw [show met path (n :: names) = met (joined path n) names from rfl,
      met_eq_join (by rw [hjoined]; simp), hjoined, Text.join_cons (List.cons_ne_nil n names)]
    by_cases hnames : names = []
    · subst hnames
      rfl
    · rw [Text.join_cons hnames, Text.join_cons hnames]
      simp only [List.append_assoc]

end Candidate

end ActionSweep
