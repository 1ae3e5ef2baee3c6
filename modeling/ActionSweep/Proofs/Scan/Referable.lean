/-
Actions that references can name. The key of a reference begins with a slash or with the mark of library actions. An
action declared elsewhere than below the folders of API and library actions has its path as key, which no reference
names, so it is safe to delete whatever the files of the project say.
-/
import ActionSweep.Proofs.Scan.ActionFiles
import ActionSweep.Proofs.Key.Canonical
import ActionSweep.Proofs.Sample

namespace ActionSweep

open ActionSweep.Path (Descends IsPart)

namespace Key

/-! ## Keys of references -/

/-- Whether there is a reference that names a key. -/
def Nameable (key : Text) : Prop := ∃ raw, ofReference .action raw = some key

/-- A key that references name begins with a slash, but not with the folder of declarations in front of a URL, or
with the mark of library actions. -/
theorem nameable_iff {key : Text} :
    Nameable key ↔ ['/'] <+: key ∧ ¬ appFolder ++ apiMark <+: key ∨ libMark <+: key :=
  exists_reference_iff.trans canonical_iff

/-! ## Keys of declarations -/

/-- Whether a file has a key that is the URL or the library name of an action. -/
inductive Placed : Text → Prop
  | api (rest : Text) : Placed ("app/api/" ++ rest)
  | appLib (rest : Text) : Placed ("app/lib/" ++ rest)
  | lib (rest : Text) : Placed ("lib/" ++ rest)

/-- What is declared elsewhere has its path as key. -/
theorem ofDeclaration_of_not_placed {file : Text} (hplain : (Path.ofText file).text = file) (h : ¬ Placed file) :
    ofDeclaration file = dropExtension file := by
  refine ofDeclaration_elsewhere hplain ?_ ?_
  · rintro ⟨rest, rfl⟩
    exact h (.api rest)
  · rintro ⟨rest, rfl⟩
    exact h (.appLib rest)

/-- References can name what is declared in a file if it lies below one of these folders, and not otherwise. -/
theorem nameable_ofDeclaration {file : Text} (hplain : (Path.ofText file).text = file) (hhere : ¬ ['/'] <+: file) :
    Nameable (ofDeclaration file) ↔ Placed file := by
  constructor
  · intro hname
    by_contra hplaced
    rw [ofDeclaration_of_not_placed hplain hplaced, nameable_iff] at hname
    rcases hname with ⟨hslash, -⟩ | hlib
    · exact hhere (hslash.trans (dropExtension_begins file))
    · obtain ⟨rest, rfl⟩ := hlib.trans (dropExtension_begins file)
      exact hplaced (.lib rest)
  · rintro (rest | rest | rest)
    · rw [ofDeclaration_app_api hplain]
      exact ⟨_, ofReference_api .action rest⟩
    · rw [ofDeclaration_app_lib hplain]
      exact ⟨_, ofReference_lib .action rest⟩
    · refine nameable_iff.2 (.inr ?_)
      rw [ofDeclaration_elsewhere hplain (by simp [List.cons_prefix_cons]) (by simp [List.cons_prefix_cons])]
      show libMark <+: dropExtension (libMark ++ rest)
      rw [show dropExtension (libMark ++ rest) = libMark ++ dropExtension rest from dropExtension_slash ['l', 'i', 'b'] rest]
      exact List.prefix_append ..

end Key

namespace Scan

variable {disk : Disk} {project : Path}

/-! ## Keys of actions -/

/-- An action file is listed by the text of a path relative to the project. -/
theorem normal_of_mem_actionPaths (hroot : disk.root.WellFormed) (hproject : project.Normal) {dirs : List Text}
    {file : Text} (h : file ∈ actionPaths dirs disk project) :
    ∃ q : Path, q.Normal ∧ q.anchor = .here ∧ file = q.text := by
  obtain ⟨dir, -, d, parts, e, p, hd, hmem, hjson, q, hq, rfl⟩ := mem_actionPaths h
  obtain ⟨top, hresolve⟩ := Disk.list_ok.1 hd
  have hnormal := hproject.under dir
  have hp := normal_of_jsonFileAt? hnormal (Disk.wellFormed_of_resolve hroot hnormal hresolve) hmem hjson
  obtain ⟨rfl, hhere⟩ := Path.relativeTo?_eq_some.1 hq
  exact ⟨q, fun part hpart => hp part (List.mem_append_right _ hpart), hhere, rfl⟩

theorem slash_of_here {q : Path} (hq : q.Normal) (hhere : q.anchor = .here) : ¬ ['/'] <+: q.text := by
  obtain ⟨anchor, parts⟩ := q
  obtain rfl : anchor = .here := hhere
  by_cases hnil : parts = []
  · subst hnil
    decide
  · obtain ⟨c, t, hjoin, hc⟩ := Path.join_head hq hnil
    rw [Path.text_here hnil, hjoin]
    exact fun h => hc (List.cons_prefix_cons.1 h).1.symm

/-- References can name what an action file declares if the file lies below one of the folders. -/
theorem nameable_of_mem_actionPaths (hroot : disk.root.WellFormed) (hproject : project.Normal) {dirs : List Text}
    {file : Text} (h : file ∈ actionPaths dirs disk project) :
    Key.Nameable (Key.ofDeclaration file) ↔ Key.Placed file := by
  obtain ⟨q, hq, hhere, rfl⟩ := normal_of_mem_actionPaths hroot hproject h
  exact Key.nameable_ofDeclaration (by rw [Path.ofText_text hq]) (slash_of_here hq hhere)

end Scan

/-- An action with a reference can be named. -/
theorem Scanner.nameable_of_reference {s : Scanner} {disk : Disk} {r : ScanResult} (hscan : (s.scan disk).1 = .ok r)
    {a : Action} (ha : a ∈ r.actions) (hne : a.references ≠ []) : Key.Nameable a.key := by
  obtain ⟨dirs, candidates, folders, -, hactions, -, -, -⟩ := scan_ok hscan
  rw [hactions, mem_rank] at ha
  rw [(Scan.declared_fresh dirs disk s.project).references ha] at hne
  obtain ⟨x, hx⟩ := List.exists_mem_of_ne_nil _ hne
  obtain ⟨f, -, hkey, -⟩ := Finding.mem_naming.1 hx
  exact ⟨_, hkey⟩

variable {s : Scanner} {disk : Disk} {r : ScanResult} {a : Action}

/-- References can name an action exactly if its file lies below the folders of API or library actions. Every other
action is safe to delete, whatever the files of the project say. -/
theorem action_nameable (hroot : disk.root.WellFormed) (hproject : s.project.Normal) (hscan : (s.scan disk).1 = .ok r)
    (ha : a ∈ r.actions) :
    (Key.Nameable a.key ↔ Key.Placed a.file) ∧ (¬ Key.Placed a.file → a.confidence = .safeToDelete) := by
  obtain ⟨dirs, candidates, folders, hdone, -⟩ := Scanner.scan_ok hscan
  obtain ⟨b, hb, hfile, hkey, -⟩ := Scanner.declared_of_mem hscan hdone.discoverable.dirs_eq ha
  obtain ⟨hmem, -, hdeclared⟩ := Scan.file_of_mem_declared hb
  have hiff : Key.Nameable a.key ↔ Key.Placed a.file := by
    rw [← hkey, ← hdeclared, ← hfile]
    exact Scan.nameable_of_mem_actionPaths hroot hproject hmem
  refine ⟨hiff, fun hplaced => Action.safe_iff.2 ?_⟩
  by_contra hne
  exact hplaced (hiff.1 (Scanner.nameable_of_reference hscan ha hne))

theorem sample_action_nameable :
    ∃ r, (Sample.scanner.scan Sample.disk).1 = .ok r ∧ r.actions.map (·.file) = ["app/api/a.json", "app/lib/b.json"] ∧
      ∀ a ∈ r.actions, Key.Nameable a.key := by
  have hrun : ∃ r, (Sample.scanner.scan Sample.disk).1 = .ok r ∧
      r.actions.map (·.file) = (["app/api/a.json", "app/lib/b.json"] : List Text) :=
    Outcome.ok_of_check (by decide +kernel)
  obtain ⟨r, hr, hfiles⟩ := hrun
  refine ⟨r, hr, hfiles, fun a ha => ?_⟩
  refine (action_nameable (by decide +kernel) (by decide) hr ha).1.2 ?_
  have hfile := List.mem_map_of_mem (f := Action.file) ha
  rw [hfiles] at hfile
  rcases List.mem_cons.1 hfile with h | h
  · rw [h]
    exact .api "a.json"
  · rw [List.mem_singleton.1 h]
    exact .appLib "b.json"

/-- An action in a folder that the settings name, and a file that names it by its path. No reference names its key. -/
theorem placed_elsewhere_missed :
    ∃ r, (Sample.elsewhereScanner.scan Sample.elsewhereDisk).1 = .ok r ∧
      r.actions.map (fun a => (a.key, a.confidence)) = [(("server/api/a" : Text), Confidence.safeToDelete)] ∧
      r.unresolved.map (·.1) = [("lib/server/api/a" : Text), ("/server/api/a" : Text)] ∧
      ∀ a ∈ r.actions, ¬ Key.Nameable a.key := by
  have hrun : ∃ r, (Sample.elsewhereScanner.scan Sample.elsewhereDisk).1 = .ok r ∧
      r.actions.map (fun a => (a.key, a.confidence)) = [(("server/api/a" : Text), Confidence.safeToDelete)] ∧
      r.unresolved.map (·.1) = [("lib/server/api/a" : Text), ("/server/api/a" : Text)] :=
    Outcome.ok_of_check (by decide +kernel)
  obtain ⟨r, hr, hactions, hunresolved⟩ := hrun
  refine ⟨r, hr, hactions, hunresolved, fun a ha => ?_⟩
  have hkey := List.mem_map_of_mem (f := fun a : Action => (a.key, a.confidence)) ha
  rw [hactions, List.mem_singleton] at hkey
  rw [(Prod.mk.inj hkey).1, Key.nameable_iff]
  decide

end ActionSweep
