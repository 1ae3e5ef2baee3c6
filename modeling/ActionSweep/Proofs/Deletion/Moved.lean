/-
The tree after some listed files were moved into a folder for copies, in a file tree without links and with that folder
apart from the listed files. A copy stands at the place of the copy of every deleted file, folders lead to it, and
elsewhere everything is as it was.
-/
import ActionSweep.Proofs.Files.Copying

namespace ActionSweep

open ActionSweep.Path (goes goes_append goes_concat goes_below Descends)

theorem dropLast_append_begins {α : Type} (l m : List α) : (l ++ m).dropLast <+: l ++ m.dropLast := by
  by_cases hm : m = []
  · rw [hm, List.append_nil, List.dropLast_nil, List.append_nil]
    exact List.dropLast_prefix l
  · rw [List.dropLast_append_of_ne_nil hm]

/-- Folders stand above what stands below a folder. -/
theorem Dir.folderAt_above {d : Dir} {place rel front : List Text} {e : Entry} (hplace : d.FolderAt place)
    (he : d.find? (place ++ rel) = some e) (hfront : front <+: rel.dropLast) : d.FolderAt (place ++ front) := by
  rcases List.eq_nil_or_concat' rel with rfl | ⟨init, n, rfl⟩
  · rwa [List.prefix_nil.1 hfront, List.append_nil]
  rw [List.dropLast_concat] at hfront
  obtain ⟨more, rfl⟩ := hfront
  rw [show place ++ (front ++ more ++ [n]) = place ++ front ++ (more ++ [n]) by simp] at he
  exact folderAt_of_append (by simp) he

namespace Deletion

open Disk (Below Plain Made)

variable {disk now moment : Disk} {project backup : Path} {place : List Text} {paths gone : List Text} {path : Text} {b : Bytes}

/-! ## What is listed -/

/-- A path that can be listed: relative to the project, without two dots, and short enough to be asked about. -/
structure Listable (project : Path) (path : Text) : Prop where
  relative : Path.anchorOf path = .here
  noDots : (['.', '.'] : Text) ∉ Path.partsOf path
  shortNames : ∀ n ∈ Path.partsOf path, (Utf8.encode n).length ≤ Disk.nameLimit
  short : (Utf8.encode (project.under path).text).length ≤ Disk.pathLimit

/-- The place of the copy of a file. -/
def copyPlace (disk : Disk) (backup : Path) (path : Text) : List Text := disk.spot backup ++ Path.partsOf path

/-- A folder for copies apart from listed files. -/
structure Apart (disk : Disk) (place : List Text) (backup : Path) (paths : List Text) : Prop where
  /-- No listed path lies inside it. -/
  outside : ∀ path ∈ paths, ∀ more, more ≠ [] → place ++ Path.partsOf path ≠ disk.spot backup ++ more
  /-- No folder stands where a copy goes. -/
  free : ∀ path ∈ paths, ¬ disk.root.FolderAt (copyPlace disk backup path)
  /-- The path of the folder does not make a detour over a place where a copy goes. -/
  clear : ∀ path ∈ paths, ∀ b, disk.root.find? (place ++ Path.partsOf path) = some (.file b) →
    ¬ disk.Passes backup (copyPlace disk backup path)

/-- A project, a folder for copies and listed paths. -/
structure Setting (disk : Disk) (project backup : Path) (place : List Text) (paths : List Text) : Prop where
  plain : disk.Plain
  projectNormal : project.Normal
  way : disk.root.Way (disk.start project) project.parts
  place_eq : place = disk.spot project
  backupNormal : backup.Normal
  noZero : '\x00' ∉ backup.text
  listable : ∀ path ∈ paths, Listable project path
  apart : Apart disk place backup paths

/-- Nothing stands in the way of a copy: no file where a folder is needed, and no name that is too long. -/
structure Copyable (disk : Disk) (backup : Path) (path : Text) : Prop where
  noFile : ∀ front, front <+: backup.parts ++ (Path.partsOf path).dropLast → ∀ b,
    disk.root.find? (goes (disk.start backup) front) ≠ some (.file b)
  shortNames : ∀ n ∈ backup.parts, (Utf8.encode n).length ≤ Disk.nameLimit
  short : (Utf8.encode (backup.under path).text).length ≤ Disk.pathLimit

/-! ## The tree after some files were moved -/

/-- What stands after some files were copied and deleted. -/
structure Progress (disk now : Disk) (backup : Path) (place : List Text) (gone : List Text) : Prop where
  disk_eq : now = disk.setRoot now.root
  plain : now.Plain
  sources : ∀ g ∈ gone, Copyable disk backup g ∧ ∃ b, disk.root.find? (place ++ Path.partsOf g) = some (.file b)
  /-- The files are the copies, and what stood where nothing was copied or deleted. -/
  files : ∀ q b, now.root.find? q = some (.file b) ↔
    (∃ g ∈ gone, q = copyPlace disk backup g ∧ disk.root.find? (place ++ Path.partsOf g) = some (.file b)) ∨
      disk.root.find? q = some (.file b) ∧ ∀ g ∈ gone, q ≠ place ++ Path.partsOf g ∧ q ≠ copyPlace disk backup g
  folders : ∀ q, disk.root.FolderAt q → now.root.FolderAt q
  /-- New folders are on the way to the folder for copies, or below it like folders of the project. -/
  fresh : ∀ q, now.root.FolderAt q → disk.root.FolderAt q ∨ disk.Passes backup q ∨
    ∃ rel, rel ≠ [] ∧ q = disk.spot backup ++ rel ∧ now.root.FolderAt (place ++ rel)
  /-- The folders of the copies are there. -/
  ready : ∀ g ∈ gone, now.root.Way (disk.start backup) (backup.parts ++ (Path.partsOf g).dropLast)

theorem Progress.start (h : Progress disk now backup place gone) (p : Path) : now.start p = disk.start p := by
  rw [h.disk_eq]
  rfl

theorem Progress.spot (h : Progress disk now backup place gone) (p : Path) : now.spot p = disk.spot p := by
  rw [h.disk_eq]
  rfl

theorem progress_refl (h : disk.Plain) (backup : Path) (place : List Text) : Progress disk disk backup place [] where
  disk_eq := rfl
  plain := h
  sources := by simp
  files := by simp
  folders _ hq := hq
  fresh _ hq := .inl hq
  ready := by simp

/-- What is on the way to the folder of a copy is on the way to the folder for copies, or below it. -/
theorem passes_copy {front rel : List Text} (hrel : (['.', '.'] : Text) ∉ rel) (h : front <+: backup.parts ++ rel) :
    disk.Passes backup (goes (disk.start backup) front) ∨
      ∃ more, more ≠ [] ∧ more <+: rel ∧ goes (disk.start backup) front = disk.spot backup ++ more := by
  rcases List.prefix_or_prefix_of_prefix h (List.prefix_append backup.parts rel) with hf | ⟨more, rfl⟩
  · exact .inl ⟨front, hf, rfl⟩
  · have hmore : more <+: rel := (List.prefix_append_right_inj _).1 h
    by_cases hnil : more = []
    · exact .inl ⟨backup.parts, List.prefix_refl _, by rw [hnil, List.append_nil]⟩
    · exact .inr ⟨more, hnil, hmore, goes_below (fun hmem => hrel (hmore.subset hmem)) _ _⟩

section

variable (hs : Setting disk project backup place paths)

include hs

theorem Setting.place_folder : disk.root.FolderAt place := hs.place_eq ▸ hs.way.folderAt

theorem Setting.nonempty (hfile : disk.root.find? (place ++ Path.partsOf path) = some (.file b)) : Path.partsOf path ≠ [] := by
  intro hnil
  obtain ⟨d, hd⟩ := hs.place_folder
  rw [hnil, List.append_nil, hd] at hfile
  cases hfile

theorem Setting.descends (hpath : path ∈ paths) : Descends (Path.partsOf path) := fun _ hn =>
  ⟨Path.isPart_of_mem_partsOf hn, fun he => (hs.listable path hpath).noDots (he ▸ hn)⟩

theorem Setting.notUp (hpath : path ∈ paths) : (['.', '.'] : Text) ∉ (Path.partsOf path).dropLast :=
  fun hmem => (hs.listable path hpath).noDots (List.mem_of_mem_dropLast hmem)

/-- No copy stands where a listed file stood. -/
theorem Setting.source_ne_copy {other : Text} (hpath : path ∈ paths)
    (hfile : disk.root.find? (place ++ Path.partsOf other) = some (.file b)) :
    place ++ Path.partsOf path ≠ copyPlace disk backup other := hs.apart.outside path hpath _ (hs.nonempty hfile)

variable (h : Progress disk now backup place gone) (hgone : ∀ g ∈ gone, g ∈ paths) (hpath : path ∈ paths)

include h hpath

/-- A listed file still stands if it was not deleted. -/
theorem Progress.source_iff : now.root.find? (place ++ Path.partsOf path) = some (.file b) ↔
    disk.root.find? (place ++ Path.partsOf path) = some (.file b) ∧
      ∀ g ∈ gone, place ++ Path.partsOf path ≠ place ++ Path.partsOf g := by
  rw [h.files]
  constructor
  · rintro (⟨g, -, hq, hfile⟩ | ⟨hfile, hother⟩)
    · exact absurd hq (hs.source_ne_copy hpath hfile)
    · exact ⟨hfile, fun g hg => (hother g hg).1⟩
  · rintro ⟨hfile, hother⟩
    refine .inr ⟨hfile, fun g hg => ⟨hother g hg, ?_⟩⟩
    obtain ⟨-, c, hc⟩ := h.sources g hg
    exact hs.source_ne_copy hpath hc

include hgone

/-- Where a copy could be made at the start, no file stands on its way now. -/
theorem Progress.noFile (hcopy : Copyable disk backup path)
    (hfile : now.root.find? (place ++ Path.partsOf path) = some (.file b)) {front : List Text}
    (hfront : front <+: backup.parts ++ (Path.partsOf path).dropLast) (c : Bytes) :
    now.root.find? (goes (disk.start backup) front) ≠ some (.file c) := by
  intro hc
  rcases (h.files _ c).1 hc with ⟨g, hg, hq, hgfile⟩ | ⟨hc, -⟩
  · -- a copy on the way is that of a file where the project has a folder
    rcases passes_copy (hs.notUp hpath) hfront with hpass | ⟨more, hne, hmore, hgo⟩
    · exact hs.apart.clear g (hgone g hg) c hgfile (hq ▸ hpass)
    · obtain rfl := List.append_cancel_left (hgo.symm.trans hq)
      obtain ⟨d, hd⟩ := Dir.folderAt_above hs.place_folder ((h.source_iff hs hpath).1 hfile).1 hmore
      cases hd.symm.trans hgfile
  · exact hcopy.noFile front hfront c hc

omit hgone in
/-- No folder stands where the copy of a file goes. -/
theorem Progress.free (hfile : now.root.find? (place ++ Path.partsOf path) = some (.file b)) :
    ¬ now.root.FolderAt (copyPlace disk backup path) := by
  intro hfolder
  rcases h.fresh _ hfolder with hbefore | hpass | ⟨rel, -, hq, ⟨d, hd⟩⟩
  · exact hs.apart.free path hpath hbefore
  · exact hs.apart.clear path hpath b ((h.source_iff hs hpath).1 hfile).1 hpass
  · rw [← List.append_cancel_left hq, hfile] at hd
    cases hd

/-- Once the folders of a copy are there, nothing stood in its way but the length of its name. -/
theorem Progress.copyable (hway : now.root.Way (disk.start backup) (backup.parts ++ (Path.partsOf path).dropLast))
    (hshort : (Utf8.encode (backup.under path).text).length ≤ Disk.pathLimit) : Copyable disk backup path where
  noFile front hfront c hc := by
    have hfolder := hway front hfront
    have hno : ∀ d, now.root.find? (goes (disk.start backup) front) ≠ some (.file d) := by
      rintro d hd
      obtain ⟨inside, hinside⟩ := hfolder
      cases hd.symm.trans hinside
    -- a file that stood there was deleted, and then its own copy went the same way
    have hgoes : ∃ g ∈ gone, goes (disk.start backup) front = place ++ Path.partsOf g := by
      by_contra hnone
      push Not at hnone
      by_cases hcopy : ∃ g ∈ gone, goes (disk.start backup) front = copyPlace disk backup g
      · obtain ⟨g, hg, hq⟩ := hcopy
        obtain ⟨-, d, hd⟩ := h.sources g hg
        exact hno d ((h.files _ d).2 (.inl ⟨g, hg, hq, hd⟩))
      · push Not at hcopy
        exact hno c ((h.files _ c).2 (.inr ⟨hc, fun g hg => ⟨hnone g hg, hcopy g hg⟩⟩))
    obtain ⟨g, hg, hq⟩ := hgoes
    obtain ⟨hcopy, d, hd⟩ := h.sources g hg
    rcases passes_copy (hs.notUp hpath) hfront with ⟨other, hother, hgo⟩ | ⟨more, hne, -, hgo⟩
    · exact hcopy.noFile other (hother.trans (List.prefix_append _ _)) d (hgo ▸ hq ▸ hd)
    · exact hs.apart.outside g (hgone g hg) more hne (hq ▸ hgo)
  shortNames n hn := by
    rcases hway.names h.plain.wellFormed n (List.mem_append_left _ hn) with rfl | hname
    · decide
    · exact hname.short
  short := hshort

omit hgone in
/-- Making the folders of a copy. -/
theorem Progress.made (hmade : now.Made moment (backup.under path).parent) {e : Entry}
    (he : now.root.find? (place ++ Path.partsOf path) = some e) : Progress disk moment backup place gone where
  disk_eq := by
    rw [hmade.disk_eq, h.disk_eq]
    rfl
  plain := hmade.plain
  sources := h.sources
  files q b := hmade.gains.file_iff.trans (h.files q b)
  folders q hq := hmade.gains.folderAt (h.folders q hq)
  fresh q hq := by
    rcases hmade.gains.folder_cases hq with hq | ⟨front, hfront, hgo⟩
    · refine (h.fresh q hq).imp_right (Or.imp_right ?_)
      rintro ⟨rel, hne, hrel, hfolder⟩
      exact ⟨rel, hne, hrel, hmade.gains.folderAt hfolder⟩
    · rw [Path.under_relative (hs.listable path hpath).relative] at hfront hgo
      replace hgo : q = goes (disk.start backup) front := by rw [hgo, h.start]; rfl
      rcases passes_copy (hs.notUp hpath) (hfront.trans (dropLast_append_begins _ _)) with hpass | ⟨more, hne, hmore, hmoved⟩
      · exact .inr (.inl (hgo ▸ hpass))
      · exact .inr (.inr ⟨more, hne, hgo.trans hmoved,
          hmade.gains.folderAt (Dir.folderAt_above (h.folders _ hs.place_folder) he hmore)⟩)
  ready g hg := (h.ready g hg).mono fun _ => hmade.gains.folderAt

omit hgone in
/-- Writing the copy of a file, once its folder is there. -/
theorem Progress.sets_copy (hfile : now.root.find? (place ++ Path.partsOf path) = some (.file b))
    (hway : now.root.Way (disk.start backup) (backup.parts ++ (Path.partsOf path).dropLast)) :
    Dir.Sets (copyPlace disk backup path) (some b) now.root (now.root.putAt (copyPlace disk backup path) (.file b)) := by
  have hfree := h.free hs hpath hfile
  have hfolder := hway.folderAt
  rw [goes_below (hs.notUp hpath)] at hfolder
  obtain ⟨front, n, hrel⟩ := List.eq_nil_or_concat' (Path.partsOf path) |>.resolve_left
    (hs.nonempty ((h.source_iff hs hpath).1 hfile).1)
  rw [hrel, List.dropLast_concat] at hfolder
  rw [copyPlace, hrel, ← List.append_assoc] at hfree ⊢
  exact Dir.sets_putAt h.plain.wellFormed hfolder ((h.plain.wellFormed.find? hfile).1 n (by simp [hrel])) hfree b

omit hgone in
/-- Moving a file to its copy. -/
theorem Progress.moved (hfile : now.root.find? (place ++ Path.partsOf path) = some (.file b)) (hcopy : Copyable disk backup path)
    (hway : now.root.Way (disk.start backup) (backup.parts ++ (Path.partsOf path).dropLast)) :
    Progress disk (now.setRoot ((now.root.putAt (copyPlace disk backup path) (.file b)).eraseAt (place ++ Path.partsOf path)))
      backup place (gone ++ [path]) := by
  obtain ⟨hbefore, hother⟩ := (h.source_iff hs hpath).1 hfile
  have hne := hs.source_ne_copy hpath hbefore
  have hapart : ∀ g ∈ gone, place ++ Path.partsOf path ≠ copyPlace disk backup g := fun g hg => by
    obtain ⟨-, c, hc⟩ := h.sources g hg
    exact hs.source_ne_copy hpath hc
  have hcopies : ∀ g ∈ gone, copyPlace disk backup path ≠ copyPlace disk backup g :=
    fun g hg he => hother g hg (by rw [List.append_cancel_left he])
  have hput := h.sets_copy hs hpath hfile hway
  have hkept : (now.root.putAt (copyPlace disk backup path) (.file b)).find? (place ++ Path.partsOf path) = some (.file b) :=
    (hput.files _ _).2 (.inr ⟨hne, hfile⟩)
  have herase := Dir.sets_eraseAt (hput.wellFormed h.plain.wellFormed) hkept
  have hfolders := fun q => (herase.folders q).trans (hput.folders q)
  constructor
  case disk_eq =>
    rw [h.disk_eq]
    rfl
  case plain => exact ⟨herase.wellFormed (hput.wellFormed h.plain.wellFormed), herase.unlinked (hput.unlinked h.plain.unlinked),
      (hfolders _).2 h.plain.grounded⟩
  case sources =>
    intro g hg
    rcases List.mem_append.1 hg with hg | hg
    · exact h.sources g hg
    · obtain rfl := List.mem_singleton.1 hg
      exact ⟨hcopy, b, hbefore⟩
  case files =>
    intro q c
    refine (herase.files q c).trans ?_
    rw [hput.files, h.files]
    constructor
    · rintro (⟨-, ⟨⟩⟩ | ⟨hsource, ⟨rfl, ⟨⟩⟩ | ⟨htarget, ⟨g, hg, hq, hfile'⟩ | ⟨hfile', hothers⟩⟩⟩)
      · exact .inl ⟨path, by simp, rfl, hbefore⟩
      · exact .inl ⟨g, List.mem_append_left _ hg, hq, hfile'⟩
      · refine .inr ⟨hfile', fun g hg => ?_⟩
        rcases List.mem_append.1 hg with hg | hg
        · exact hothers g hg
        · obtain rfl := List.mem_singleton.1 hg
          exact ⟨hsource, htarget⟩
    · rintro (⟨g, hg, rfl, hfile'⟩ | ⟨hfile', hothers⟩)
      · rcases List.mem_append.1 hg with hg | hg
        · exact .inr ⟨(hapart g hg).symm, .inr ⟨(hcopies g hg).symm, .inl ⟨g, hg, rfl, hfile'⟩⟩⟩
        · obtain rfl := List.mem_singleton.1 hg
          exact .inr ⟨hne.symm, .inl ⟨rfl, by simpa [eq_comm] using hfile'.symm.trans hbefore⟩⟩
      · obtain ⟨hsource, htarget⟩ := hothers path (by simp)
        exact .inr ⟨hsource, .inr ⟨htarget, .inr ⟨hfile', fun g hg => hothers g (List.mem_append_left _ hg)⟩⟩⟩
  case folders => exact fun q hq => (hfolders q).2 (h.folders q hq)
  case fresh =>
    intro q hq
    refine (h.fresh q ((hfolders q).1 hq)).imp_right (Or.imp_right ?_)
    rintro ⟨rel, hne, hrel, hfolder⟩
    exact ⟨rel, hne, hrel, (hfolders _).2 hfolder⟩
  case ready =>
    intro g hg
    have hstays : ∀ q, now.root.FolderAt q → _ := fun q => (hfolders q).2
    rcases List.mem_append.1 hg with hg | hg
    · exact (h.ready g hg).mono hstays
    · obtain rfl := List.mem_singleton.1 hg
      exact hway.mono hstays

end

end Deletion

end ActionSweep
