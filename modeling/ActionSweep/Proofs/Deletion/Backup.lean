/-
Deleting files after a copy of each was made, in a file tree without links and with the folder for copies apart from
the listed files. Every listed path is accounted for once; a file goes only when its copy stands; and no other file
changes. Whether a copy can be made depends on what stood at the start alone, so what failed once is never deleted.
-/
import ActionSweep.Proofs.Deletion.Moved
import ActionSweep.Proofs.Sample

namespace ActionSweep

open ActionSweep.Path (goes goes_append goes_concat goes_below Descends)

/-- The paths of which a report says what became of them. -/
def DeletionReport.entries (r : DeletionReport) : List Text := r.deleted ++ r.missing ++ r.errors.map (·.1)

namespace Deletion

open Disk (Below Plain Made)

variable {disk now moment : Disk} {project backup : Path} {place : List Text} {paths gone : List Text} {path : Text} {b : Bytes}

/-! ## One file -/

theorem backUp_eq (source target : Path) (disk : Disk) : backUp source target disk =
    match FileWork.ensureFolder target.parent disk with
    | .ok () moment => FileWork.copy source target moment
    | .error f moment => .error f moment := by
  unfold backUp
  show EStateM.bind _ _ _ = _
  unfold EStateM.bind
  cases FileWork.ensureFolder target.parent disk <;> rfl

section

variable {folder : Path} {f : Fault} {disk' : Disk}

theorem deleteOne_absent {backup : Option Path} {dryRun : Bool} (h : disk.present (project.under path).text = .ok false) :
    deleteOne project backup dryRun path disk = .ok .missing disk := by
  simp only [deleteOne, bind, EStateM.bind, FileWork.ask, h]
  rfl

theorem deleteOne_unsaved (h : disk.present (project.under path).text = .ok true) (hf : f.isFile = true)
    (hcopy : backUp (project.under path) (folder.under path) disk = .error f disk') :
    deleteOne project (some folder) false path disk = .ok (.backupFailed f) disk' := by
  simp only [deleteOne, bind, EStateM.bind, FileWork.ask, h, Bool.not_true, Bool.false_eq_true, if_false, noting, hcopy, hf, if_true]
  rfl

theorem deleteOne_saved (h : disk.present (project.under path).text = .ok true)
    (hcopy : backUp (project.under path) (folder.under path) disk = .ok () moment)
    (hremove : moment.removeFile (project.under path).text = .ok disk') :
    deleteOne project (some folder) false path disk = .ok (.backedUp none) disk' := by
  simp only [deleteOne, bind, EStateM.bind, FileWork.ask, h, Bool.not_true, Bool.false_eq_true, if_false, noting, hcopy,
    FileWork.change, hremove]
  rfl

end

section

variable (hs : Setting disk project backup place paths) (h : Progress disk now backup place gone) (hgone : ∀ g ∈ gone, g ∈ paths)
  (hpath : path ∈ paths)

include hs h hgone hpath

omit hgone in
theorem Progress.source_below : now.Below project (Path.partsOf path) where
  normal := hs.projectNormal
  way := h.start project ▸ hs.way.mono h.folders
  down := hs.descends hpath
  short := by
    have hlist := hs.listable path hpath
    rw [← Path.under_relative hlist.relative]
    exact hlist.short

omit hgone in
/-- The path of a listed file leads to its place. -/
theorem Progress.resolve_source {e : Entry} (he : now.root.find? (place ++ Path.partsOf path) = some e) (aim : Disk.Aim) :
    now.resolve aim (project.under path).text = .ok (.found (place ++ Path.partsOf path) e) := by
  have hplace : now.spot project = place := (h.spot project).trans hs.place_eq.symm
  have hresolve := (h.source_below hs hpath).resolve h.plain.wellFormed h.plain.unlinked (hplace.symm ▸ he) aim
  rwa [hplace, ← Path.under_relative (hs.listable path hpath).relative] at hresolve

omit hgone in
theorem Progress.present : now.present (project.under path).text = .ok (now.root.find? (place ++ Path.partsOf path)).isSome := by
  have hlist := hs.listable path hpath
  have hplace : now.spot project = place := (h.spot project).trans hs.place_eq.symm
  have := (h.source_below hs hpath).present h.plain.wellFormed h.plain.unlinked hlist.shortNames
  rwa [hplace, ← Path.under_relative hlist.relative] at this

omit h hgone hpath in
/-- The folder for copies can be named, and so can what is below it under names of entries. -/
theorem Setting.copy_noZero (hpath : path ∈ paths) (hnames : ∀ n ∈ Path.partsOf path, IsName n) : '\x00' ∉ (backup.under path).text := by
  rw [Path.under_relative (hs.listable path hpath).relative]
  refine Path.zero_not_mem_text fun n hn => ?_
  rcases List.mem_append.1 hn with hn | hn
  · exact Path.zero_not_mem_parts hs.noZero n hn
  · exact (hnames n hn).noZero

omit h hgone hpath in
/-- The folder of the copy of a path that has parts. -/
theorem Setting.copy_parent (hpath : path ∈ paths) (hne : Path.partsOf path ≠ []) :
    (backup.under path).parent = ⟨backup.anchor, backup.parts ++ (Path.partsOf path).dropLast⟩ := by
  rw [Path.under_relative (hs.listable path hpath).relative, Path.parent, List.dropLast_append_of_ne_nil hne]

omit hgone in
theorem Progress.way_copy (hne : Path.partsOf path ≠ [])
    (hway : moment.root.Way (now.start (backup.under path).parent) (backup.under path).parent.parts) :
    moment.root.Way (disk.start backup) (backup.parts ++ (Path.partsOf path).dropLast) := by
  rw [hs.copy_parent hpath hne] at hway
  exact h.start backup ▸ hway

/-- A copy that cannot be made leaves at most some folders. -/
theorem Progress.backUp_fails {e : Entry} (he : now.root.find? (place ++ Path.partsOf path) = some e)
    (hno : ∀ b, e = .file b → ¬ Copyable disk backup path) : ∃ f moment,
    backUp (project.under path) (backup.under path) now = .error f moment ∧ f.isFile = true ∧
      Progress disk moment backup place gone := by
  have hnames : ∀ n ∈ Path.partsOf path, IsName n := fun n hn => (h.plain.wellFormed.find? he).1 n (List.mem_append_right _ hn)
  have hzero := hs.copy_noZero hpath hnames
  have hnormal := hs.backupNormal.under path
  have hmakes := FileWork.ensureFolder_makes h.plain (FileWork.normal_parent hnormal) (Path.zero_not_mem_parent hzero)
  rw [backUp_eq]
  cases hrun : FileWork.ensureFolder (backup.under path).parent now with
  | error f moment =>
    rw [hrun] at hmakes
    exact ⟨f, moment, rfl, hmakes.2, h.made hs hpath hmakes.1 he⟩
  | ok u moment =>
    rw [hrun] at hmakes
    obtain ⟨hmade, hway⟩ := hmakes
    have h' := h.made hs hpath hmade he
    obtain ⟨e', he', hshell⟩ := hmade.gains.kept _ _ he
    have hsource := h'.resolve_source hs hpath he' .target
    cases hcopy : FileWork.copy (project.under path) (backup.under path) moment with
    | error f disk' =>
      obtain ⟨rfl, hf⟩ := FileWork.copy_fault (Disk.resolve_ok.1 hsource).1.1 hzero hcopy
      exact ⟨f, disk', hcopy, hf, h'⟩
    | ok u disk' =>
      -- what was copied is a file, and then only the length of the name can have stood in the way
      exfalso
      obtain ⟨bytes, hread, -⟩ := FileWork.copy_ok hcopy
      obtain ⟨spot, hfile⟩ := Disk.read_ok.1 hread
      obtain ⟨-, rfl⟩ : _ ∧ e' = .file bytes := by simpa using hsource.symm.trans hfile
      obtain rfl := Entry.shell_eq_file.1 hshell.symm
      have hne := hs.nonempty ((h.source_iff hs hpath).1 he).1
      refine hno bytes rfl (h'.copyable hs hgone hpath (h.way_copy hs hpath hne hway) ?_)
      by_contra hlong
      exact FileWork.copy_long hnormal (Nat.lt_of_not_le hlong) hcopy

/-- The folders of a copy that can be made are made. -/
theorem Progress.makes_folders (hfile : now.root.find? (place ++ Path.partsOf path) = some (.file b))
    (hcopy : Copyable disk backup path) : ∃ moment, FileWork.ensureFolder (backup.under path).parent now = .ok () moment ∧
      Progress disk moment backup place gone ∧ moment.root.find? (place ++ Path.partsOf path) = some (.file b) ∧
      moment.root.Way (disk.start backup) (backup.parts ++ (Path.partsOf path).dropLast) := by
  have hnames : ∀ n ∈ Path.partsOf path, IsName n := fun n hn => (h.plain.wellFormed.find? hfile).1 n (List.mem_append_right _ hn)
  have hne := hs.nonempty ((h.source_iff hs hpath).1 hfile).1
  have hparent := hs.copy_parent hpath hne
  have hmakeable : FileWork.Makeable now (backup.under path).parent := by
    constructor
    case normal => exact FileWork.normal_parent (hs.backupNormal.under path)
    case asks => exact FileWork.asks_folder ⟨hs.copy_noZero hpath hnames, hcopy.short⟩
    case short =>
      intro k hk
      rw [hparent] at hk
      rcases List.mem_append.1 hk with hk | hk
      · exact hcopy.shortNames k hk
      · exact (hnames k (List.mem_of_mem_dropLast hk)).short
    case noFile =>
      rintro q c ⟨front, hfront, rfl⟩
      rw [hparent] at hfront ⊢
      exact h.start backup ▸ h.noFile hs hgone hpath hcopy hfile hfront c
  obtain ⟨moment, hrun⟩ := FileWork.makeFolders_runs _ h.plain hmakeable (Nat.le_refl _)
  have hmakes := FileWork.ensureFolder_makes h.plain hmakeable.normal hmakeable.asks.1
  rw [show FileWork.ensureFolder (backup.under path).parent now = _ from hrun] at hmakes
  exact ⟨moment, hrun, h.made hs hpath hmakes.1 hfile, hmakes.1.gains.file_iff.2 hfile, h.way_copy hs hpath hne hmakes.2⟩

omit hgone in
/-- Once its folders are there, a copy goes through. -/
theorem Progress.copies (hfile : now.root.find? (place ++ Path.partsOf path) = some (.file b)) (hcopy : Copyable disk backup path)
    (hway : now.root.Way (disk.start backup) (backup.parts ++ (Path.partsOf path).dropLast)) :
    FileWork.copy (project.under path) (backup.under path) now =
      .ok () (now.setRoot (now.root.putAt (copyPlace disk backup path) (.file b))) := by
  have hroot := h.plain.wellFormed
  have hnames : ∀ n ∈ Path.partsOf path, IsName n := fun n hn => (hroot.find? hfile).1 n (List.mem_append_right _ hn)
  have hbefore := ((h.source_iff hs hpath).1 hfile).1
  have hapart := hs.source_ne_copy hpath hbefore
  have hfree := h.free hs hpath hfile
  obtain ⟨front, n, hrel⟩ := List.eq_nil_or_concat' (Path.partsOf path) |>.resolve_left (hs.nonempty hbefore)
  have hunder : backup.under path = ⟨backup.anchor, backup.parts ++ front ++ [n]⟩ := by
    rw [Path.under_relative (hs.listable path hpath).relative, hrel, List.append_assoc]
  have hplace : copyPlace disk backup path = disk.spot backup ++ front ++ [n] := by rw [copyPlace, hrel, List.append_assoc]
  have hzero := hs.copy_noZero hpath hnames
  have hnormal := hs.backupNormal.under path
  have hshort := hcopy.short
  rw [hunder] at hzero hnormal hshort ⊢
  rw [hplace] at hfree hapart ⊢
  rw [hrel, List.dropLast_concat] at hway
  have hask : Disk.Askable backup.anchor (backup.parts ++ front) n :=
    ⟨hnormal, (hnames n (by simp [hrel])).notUp, hzero, hshort, (hnames n (by simp [hrel])).short⟩
  have hspot : now.spot ⟨backup.anchor, backup.parts ++ front⟩ = disk.spot backup ++ front := by
    rw [Disk.spot_below fun hmem => (hs.listable path hpath).noDots (by simp [hrel, hmem]), h.spot]
  have hfront : (Path.mk backup.anchor (backup.parts ++ front)).Normal := fun k hk => hnormal k (List.mem_append_left _ hk)
  obtain ⟨d, hd⟩ := Disk.leadsToFolder_of_way hroot hfront (h.start backup ▸ hway)
  rw [hspot] at hd
  refine FileWork.copy_runs (h.resolve_source hs hpath hfile .target) hask hd (fun e he => ?_) hapart
  rw [← Dir.find?_concat _ _ hd.find?] at he
  cases e with
  | file c => exact ⟨c, rfl⟩
  | link t => exact absurd he (h.plain.unlinked _ t)
  | folder inside => exact absurd ⟨inside, he⟩ hfree

omit hgone in
/-- The file is removed once its copy stands. -/
theorem Progress.removes (hfile : now.root.find? (place ++ Path.partsOf path) = some (.file b))
    (hway : now.root.Way (disk.start backup) (backup.parts ++ (Path.partsOf path).dropLast)) :
    (now.setRoot (now.root.putAt (copyPlace disk backup path) (.file b))).removeFile (project.under path).text =
      .ok (now.setRoot ((now.root.putAt (copyPlace disk backup path) (.file b)).eraseAt (place ++ Path.partsOf path))) := by
  have hput := h.sets_copy hs hpath hfile hway
  have hne := hs.source_ne_copy hpath ((h.source_iff hs hpath).1 hfile).1
  have hplace : now.spot project = place := (h.spot project).trans hs.place_eq.symm
  have hstill := (hput.files _ _).2 (.inr ⟨hne, hfile⟩)
  have hbelow := (h.source_below hs hpath).mono fun q => (hput.folders q).2
  have hresolve := hbelow.resolve (hput.wellFormed h.plain.wellFormed) (hput.unlinked h.plain.unlinked)
    (show _ = some (.file b) from hplace.symm ▸ hstill) .entry
  rw [Disk.spot_setRoot, hplace, ← Path.under_relative (hs.listable path hpath).relative] at hresolve
  unfold Disk.removeFile
  rw [hresolve]
  rfl

/-- What becomes of one listed file. -/
inductive Treats (disk now : Disk) (backup : Path) (place : List Text) (gone : List Text) (path : Text) : Outcome → Disk → Prop
  | missing (h : now.root.find? (place ++ Path.partsOf path) = none) : Treats disk now backup place gone path .missing now
  | failed {moment : Disk} (f : Fault) (h : Progress disk moment backup place gone)
      (hno : ∀ b, disk.root.find? (place ++ Path.partsOf path) = some (.file b) → ¬ Copyable disk backup path) :
      Treats disk now backup place gone path (.backupFailed f) moment
  | moved {moment : Disk} (h : Progress disk moment backup place (gone ++ [path])) :
      Treats disk now backup place gone path (.backedUp none) moment

omit hgone in
/-- What has become a folder was no file of which a copy can be made. -/
theorem Progress.folder_uncopyable (hfolder : now.root.FolderAt (place ++ Path.partsOf path))
    (hfile : disk.root.find? (place ++ Path.partsOf path) = some (.file b)) : ¬ Copyable disk backup path := by
  intro hcopy
  rcases h.fresh _ hfolder with ⟨d, hd⟩ | ⟨front, hfront, hgo⟩ | ⟨rel, hne, hrel, -⟩
  · cases hd.symm.trans hfile
  · exact hcopy.noFile front (hfront.trans (List.prefix_append _ _)) b (hgo ▸ hfile)
  · exact hs.apart.outside path hpath rel hne hrel

theorem deleteOne_treats : ∃ outcome moment, deleteOne project (some backup) false path now = .ok outcome moment ∧
    Treats disk now backup place gone path outcome moment := by
  have hpresent := h.present hs hpath
  cases hfind : now.root.find? (place ++ Path.partsOf path) with
  | none =>
    rw [hfind] at hpresent
    exact ⟨_, _, deleteOne_absent hpresent, .missing hfind⟩
  | some e =>
    rw [hfind] at hpresent
    by_cases hcopy : ∃ b, e = .file b ∧ Copyable disk backup path
    · obtain ⟨b, rfl, hcopy⟩ := hcopy
      obtain ⟨moment, hfolders, h', hfile, hway⟩ := h.makes_folders hs hgone hpath hfind hcopy
      have hsaved : backUp (project.under path) (backup.under path) now =
          FileWork.copy (project.under path) (backup.under path) moment := by rw [backUp_eq, hfolders]
      exact ⟨_, _, deleteOne_saved hpresent (hsaved.trans (h'.copies hs hpath hfile hcopy hway))
        (h'.removes hs hpath hfile hway), .moved (h'.moved hs hpath hfile hcopy hway)⟩
    · obtain ⟨f, moment, hfails, hf, h'⟩ := h.backUp_fails hs hgone hpath hfind fun b he hc => hcopy ⟨b, he, hc⟩
      refine ⟨_, _, deleteOne_unsaved hpresent hf hfails, .failed f h' fun b hb hc => ?_⟩
      cases e with
      | file c => exact hcopy ⟨c, rfl, hc⟩
      | link t => exact h.plain.unlinked _ t hfind
      | folder d => exact h.folder_uncopyable hs hpath ⟨d, hfind⟩ hb hc

end

/-! ## All files -/

/-- Whatever becomes of a path, it is noted once. -/
theorem note_entries (r : DeletionReport) (path : Text) (outcome : Outcome) :
    (note r path outcome).entries.Perm (r.entries ++ [path]) := by
  refine List.perm_iff_count.2 fun t => ?_
  have hcount : (note r path outcome).entries.count t = r.entries.count t + [path].count t := by
    cases outcome with
    | direct f | backedUp f =>
      cases f <;> simp only [note, DeletionReport.entries, List.map_append, List.map_cons, List.map_nil, List.count_append] <;> omega
    | _ =>
      simp only [note, DeletionReport.entries, List.map_append, List.map_cons, List.map_nil, List.count_append]
      omega
  rw [hcount, List.count_append]

/-- What a report says of a list of paths, and what stands after them. -/
structure Account (disk now : Disk) (backup : Path) (place : List Text) (done : List Text) (r : DeletionReport) : Prop where
  progress : Progress disk now backup place r.deleted
  listed : r.entries.Perm done
  spared : ∀ e ∈ r.errors, ∀ b, disk.root.find? (place ++ Path.partsOf e.1) = some (.file b) → ¬ Copyable disk backup e.1
  complete : ∀ path ∈ done, ∀ b, disk.root.find? (place ++ Path.partsOf path) = some (.file b) → Copyable disk backup path →
    ∃ g ∈ r.deleted, Path.partsOf g = Path.partsOf path

variable {r : DeletionReport} {done : List Text}

theorem Account.deleted_subset (h : Account disk now backup place done r) : ∀ g ∈ r.deleted, g ∈ done := fun _ hg =>
  h.listed.subset (List.mem_append_left _ (List.mem_append_left _ hg))

/-- One more path is accounted for. -/
theorem Account.note (hs : Setting disk project backup place paths) (h : Account disk now backup place done r) (hpath : path ∈ paths)
    {outcome : Outcome} (htreats : Treats disk now backup place r.deleted path outcome moment) :
    Account disk moment backup place (done ++ [path]) (note r path outcome) := by
  have hcomplete : ∀ p ∈ done ++ [path], (∀ b, disk.root.find? (place ++ Path.partsOf path) = some (.file b) →
      Copyable disk backup path → ∃ g ∈ (Deletion.note r path outcome).deleted, Path.partsOf g = Path.partsOf path) →
      (∀ g ∈ r.deleted, g ∈ (Deletion.note r path outcome).deleted) → ∀ b,
      disk.root.find? (place ++ Path.partsOf p) = some (.file b) → Copyable disk backup p →
      ∃ g ∈ (Deletion.note r path outcome).deleted, Path.partsOf g = Path.partsOf p := by
    intro p hp hthis hmore b hb hc
    rcases List.mem_append.1 hp with hp | hp
    · obtain ⟨g, hg, he⟩ := h.complete p hp b hb hc
      exact ⟨g, hmore g hg, he⟩
    · obtain rfl := List.mem_singleton.1 hp
      exact hthis b hb hc
  have hlisted := (note_entries r path outcome).trans (h.listed.append_right [path])
  cases htreats with
  | missing hnone =>
    constructor
    case progress => exact h.progress
    case listed => exact hlisted
    case spared => exact h.spared
    case complete =>
      refine fun p hp => hcomplete p hp (fun b hb _ => ?_) fun _ hg => hg
      -- the file stood there at the start, so it was deleted under this path
      by_contra hno
      push Not at hno
      have := (h.progress.source_iff hs hpath).2 ⟨hb, fun g hg he => hno g hg (List.append_cancel_left he.symm)⟩
      cases hnone.symm.trans this
  | failed f hprogress hno =>
    constructor
    case progress => exact hprogress
    case listed => exact hlisted
    case spared =>
      intro e he b hb
      rcases List.mem_append.1 he with he | he
      · exact h.spared e he b hb
      · obtain rfl := List.mem_singleton.1 he
        exact hno b hb
    case complete => exact fun p hp => hcomplete p hp (fun b hb hc => absurd hc (hno b hb)) fun _ hg => hg
  | moved hprogress =>
    constructor
    case progress => exact hprogress
    case listed => exact hlisted
    case spared => exact h.spared
    case complete =>
      exact fun p hp => hcomplete p hp (fun _ _ _ => ⟨path, List.mem_append_right _ (List.mem_singleton_self path), rfl⟩)
        fun _ hg => List.mem_append_left _ hg

/-- Deletes one more file, with or without a copy, and notes what became of it. -/
def deleteAndNote (project : Path) (backup : Option Path) (dryRun : Bool) (r : DeletionReport) (path : Text) :
    FileWork DeletionReport := do
  return note r path (← deleteOne project backup dryRun path)

/-- A run over listed paths comes to its end, with an account of all of them. -/
theorem delete_accounts (hs : Setting disk project backup place paths) : ∀ (todo done : List Text) {r : DeletionReport} {now : Disk},
    (∀ p ∈ done ++ todo, p ∈ paths) → Account disk now backup place done r → ∃ r' now',
      todo.foldlM (deleteAndNote project (some backup) false) r now = .ok r' now' ∧
        Account disk now' backup place (done ++ todo) r'
  | [], done, r, now, _, h => ⟨r, now, rfl, by rwa [List.append_nil]⟩
  | path :: todo, done, r, now, hlisted, h => by
    have hpath : path ∈ paths := hlisted path (by simp)
    obtain ⟨outcome, moment, hrun, htreats⟩ :=
      deleteOne_treats hs h.progress (fun g hg => hlisted g (List.mem_append_left _ (h.deleted_subset g hg))) hpath
    obtain ⟨r', now', hrest, haccount⟩ := delete_accounts hs todo (done ++ [path]) (by simpa using hlisted) (h.note hs hpath htreats)
    refine ⟨r', now', ?_, by simpa using haccount⟩
    rw [List.foldlM_cons]
    simp only [deleteAndNote, bind, EStateM.bind, hrun]
    exact hrest

/-- With a dry run a path is looked at, and nothing else. -/
theorem deleteOne_dry {backup : Option Path} {found : Bool} (h : disk.present (project.under path).text = .ok found) :
    ∃ outcome, deleteOne project backup true path disk = .ok outcome disk := by
  cases found <;> simp only [deleteOne, bind, EStateM.bind, FileWork.ask, h] <;> exact ⟨_, rfl⟩

theorem delete_dry (hs : Setting disk project backup place paths) (folder : Option Path) : ∀ (todo : List Text) (r : DeletionReport),
    (∀ p ∈ todo, p ∈ paths) → ∃ r', todo.foldlM (deleteAndNote project folder true) r disk = .ok r' disk
  | [], r, _ => ⟨r, rfl⟩
  | path :: todo, r, hlisted => by
    have hpresent := (progress_refl hs.plain backup place).present hs (hlisted path (List.mem_cons_self ..))
    obtain ⟨outcome, hrun⟩ : ∃ outcome, deleteOne project folder true path disk = .ok outcome disk := deleteOne_dry hpresent
    obtain ⟨r', hrest⟩ := delete_dry hs folder todo (note r path outcome) fun p hp => hlisted p (List.mem_cons_of_mem path hp)
    refine ⟨r', ?_⟩
    rw [List.foldlM_cons]
    simp only [deleteAndNote, bind, EStateM.bind, hrun]
    exact hrest

/-! ## The report -/

/-- What deleting files with copies has done. -/
structure BackedUp (disk disk' : Disk) (project backup : Path) (place : List Text) (paths : List Text) (r : DeletionReport) : Prop where
  /-- Every entry of the list is accounted for exactly once. -/
  listed : r.entries.Perm paths
  /-- What was deleted is gone, and its copy has the bytes it had. -/
  deleted : ∀ p ∈ r.deleted, disk'.present (project.under p).text = .ok false ∧
    ∃ b, disk.read (project.under p).text = .ok b ∧ disk'.read (backup.under p).text = .ok b
  /-- What could not be deleted still stands as it stood. -/
  spared : ∀ e ∈ r.errors, ∀ x, disk.root.find? (place ++ Path.partsOf e.1) = some x →
    disk'.root.StillHas (place ++ Path.partsOf e.1) x
  /-- No other file changes. -/
  others : ∀ q b, (∀ p ∈ r.deleted, q ≠ place ++ Path.partsOf p ∧ q ≠ copyPlace disk backup p) →
    (disk'.root.find? q = some (.file b) ↔ disk.root.find? q = some (.file b))
  /-- A file is deleted unless something stands in the way of its copy. -/
  complete : ∀ p ∈ paths, ∀ b, disk.root.find? (place ++ Path.partsOf p) = some (.file b) → Copyable disk backup p →
    ∃ g ∈ r.deleted, Path.partsOf g = Path.partsOf p

theorem Copyable.congr {other : Text} (h : Copyable disk backup path) (hpath : Path.anchorOf path = .here)
    (hother : Path.anchorOf other = .here) (he : Path.partsOf path = Path.partsOf other) : Copyable disk backup other where
  noFile := he ▸ h.noFile
  shortNames := h.shortNames
  short := by
    have hshort := h.short
    rwa [Path.under_relative hpath, he, ← Path.under_relative hother] at hshort

namespace Progress

variable (hs : Setting disk project backup place paths) (h : Progress disk now backup place gone) {p : Text}

include hs h

theorem deleted_gone (hp : p ∈ gone) (hpath : p ∈ paths) : now.present (project.under p).text = .ok false := by
  obtain ⟨hcopy, b, hb⟩ := h.sources p hp
  have hnone : now.root.find? (place ++ Path.partsOf p) = none := by
    cases hfind : now.root.find? (place ++ Path.partsOf p) with
    | none => rfl
    | some e =>
      cases e with
      | file c => exact absurd rfl (((h.source_iff hs hpath).1 hfind).2 p hp)
      | link t => exact absurd hfind (h.plain.unlinked _ t)
      | folder d => exact absurd hcopy (h.folder_uncopyable hs hpath ⟨d, hfind⟩ hb)
  rw [h.present hs hpath, hnone]
  rfl

theorem deleted_saved (hp : p ∈ gone) (hpath : p ∈ paths) :
    ∃ b, disk.read (project.under p).text = .ok b ∧ now.read (backup.under p).text = .ok b := by
  obtain ⟨hcopy, b, hb⟩ := h.sources p hp
  have hunder := Path.under_relative (hs.listable p hpath).relative backup
  have hbelow : now.Below backup (Path.partsOf p) :=
    ⟨hs.backupNormal, h.start backup ▸ (h.ready p hp).first, hs.descends hpath, hunder ▸ hcopy.short⟩
  have hcopied : now.root.find? (now.spot backup ++ Path.partsOf p) = some (.file b) := by
    rw [h.spot]
    exact (h.files _ b).2 (.inl ⟨p, hp, rfl, hb⟩)
  have hresolve := hbelow.resolve h.plain.wellFormed h.plain.unlinked hcopied .target
  rw [← hunder] at hresolve
  exact ⟨b, Disk.read_ok.2 ⟨_, (progress_refl hs.plain backup place).resolve_source hs hpath hb .target⟩, Disk.read_ok.2 ⟨_, hresolve⟩⟩

/-- A folder still stands where it stood, and so does a file that was not deleted. -/
theorem stillHas (hpath : p ∈ paths) {e : Entry} (he : disk.root.find? (place ++ Path.partsOf p) = some e)
    (hother : ∀ b, e = .file b → ∀ g ∈ gone, Path.partsOf g ≠ Path.partsOf p) : now.root.StillHas (place ++ Path.partsOf p) e := by
  cases e with
  | file b =>
    have hstays := (h.source_iff hs hpath).2 ⟨he, fun g hg hq => hother b rfl g hg (List.append_cancel_left hq.symm)⟩
    exact ⟨_, hstays, rfl⟩
  | link t => exact absurd he (hs.plain.unlinked _ t)
  | folder d =>
    obtain ⟨d', hd'⟩ := h.folders _ ⟨d, he⟩
    exact ⟨_, hd', rfl⟩

end Progress

theorem Account.backedUp (hs : Setting disk project backup place paths) (h : Account disk now backup place paths r) :
    BackedUp disk now project backup place paths r where
  listed := h.listed
  deleted p hp := ⟨h.progress.deleted_gone hs hp (h.deleted_subset p hp), h.progress.deleted_saved hs hp (h.deleted_subset p hp)⟩
  spared e he x hx := by
    have hlist := fun p hp => (hs.listable p hp).relative
    have hpath : e.1 ∈ paths := h.listed.subset (List.mem_append_right _ (List.mem_map_of_mem he))
    -- a file that was deleted under another spelling could be copied
    exact h.progress.stillHas hs hpath hx fun b hb g hg hparts => h.spared e he b (hb ▸ hx)
      ((h.progress.sources g hg).1.congr (hlist g (h.deleted_subset g hg)) (hlist _ hpath) hparts)
  others q b hq := by
    rw [h.progress.files]
    constructor
    · rintro (⟨g, hg, hplace, -⟩ | ⟨hfile, -⟩)
      · exact absurd hplace (hq g hg).2
      · exact hfile
    · exact fun hfile => .inr ⟨hfile, hq⟩
  complete := h.complete

/-- With a folder for copies apart from the listed files, in a file tree without links, deleting files comes to its
end: every entry of the list is accounted for once, what was deleted has a copy with the bytes it had, what was not
still stands, and no other file changes. A dry run changes nothing. -/
theorem delete_backs_up {tree : Dir} {name : Text} (hp : disk.HasTree project place tree) (hlinks : disk.root.LinkFree)
    (hdisk : disk.Grounded) (hname : name ≠ []) (hzero : '\x00' ∉ name) (hlist : ∀ p ∈ paths, Listable project p)
    (hapart : Apart disk place (Path.ofText name) paths) :
    (∃ r disk', delete project (some name) false paths disk = .ok r disk' ∧
      BackedUp disk disk' project (Path.ofText name) place paths r) ∧
    ∃ r, delete project (some name) true paths disk = .ok r disk := by
  have hplain : disk.Plain := ⟨hp.wellFormed, hlinks.unlinked, hdisk⟩
  obtain ⟨hway, hplace⟩ := Disk.way_of_leadsToFolder hp.wellFormed hplain.unlinked hdisk hp.normal hp.leads_target
  have hbackup : backupFolder (some name) = some (Path.ofText name) := by
    show (if name.isEmpty then none else _) = _
    rw [if_neg (by simpa using hname)]
  have hs : Setting disk project (Path.ofText name) place paths :=
    ⟨hplain, hp.normal, hway, hplace, Path.normal_ofText name,
      Path.zero_not_mem_text fun n hn hmem => hzero (Path.mem_of_mem_partsOf hn hmem), hlist, hapart⟩
  obtain ⟨r, disk', hrun, haccount⟩ := delete_accounts hs paths [] (r := ⟨[], [], [], [], false⟩) (fun p hp => hp)
    ⟨progress_refl hplain _ _, .refl _, by simp, by simp⟩
  obtain ⟨r', hdry⟩ := delete_dry hs (some (Path.ofText name)) paths ⟨[], [], [], [], true⟩ fun p hp => hp
  refine ⟨⟨r, disk', ?_, haccount.backedUp hs⟩, r', ?_⟩
  · rw [delete, hbackup]
    exact hrun
  · rw [delete, hbackup]
    exact hdry

/-- A path that cannot be asked about ends the whole run. -/
theorem delete_unaskable {folder : Option Text} {dryRun : Bool} {f : Fault} (h : disk.present (project.under path).text = .error f)
    (rest : List Text) : delete project folder dryRun (path :: rest) disk = .error f disk := by
  simp only [delete, List.foldlM_cons, deleteOne, bind, EStateM.bind, FileWork.ask, h]

end Deletion

namespace Sample

def apiFile : Text := "app/api/a.json"

/-- That file twice, a folder, and a file that does not exist. -/
def doomed : List Text := [apiFile, apiFile, "app", "x"]

/-- A path that makes a detour over the place of a copy below the folder that it names. -/
def detour : Text := "k/app/api/a.json/../../.."

/-- A folder for copies beside the project that is not there yet is apart from every list. -/
theorem apart (paths : List Text) : Deletion.Apart disk ["p"] (Path.ofText "bk") paths where
  outside path _ more _ h := by cases h
  free path _ h := by
    obtain ⟨d, hd⟩ := h
    rw [show Deletion.copyPlace disk (Path.ofText "bk") path = ("bk" : Text) :: Path.partsOf path from rfl, Dir.find?_cons] at hd
    cases hd
  clear path _ b hb h := by
    obtain ⟨front, hfront, hgo⟩ := h
    have hlength := hfront.length_le
    rw [Path.goes_down fun hmem => absurd (hfront.subset hmem) (by decide)] at hgo
    have hparts : (Path.partsOf path).length = 0 := by
      have := congrArg List.length hgo
      simp only [Deletion.copyPlace, List.length_append] at this
      rw [show (disk.spot (Path.ofText "bk")).length = 1 from rfl, show (disk.start (Path.ofText "bk")).length = 0 from rfl] at this
      rw [show (Path.ofText "bk").parts.length = 1 from rfl] at hlength
      omega
    rw [List.length_eq_zero_iff.1 hparts] at hb
    cases hb

end Sample

namespace Deletion

/-- In the sample project a file that is listed twice is copied and deleted once. -/
theorem sample_delete_backs_up : ∃ r disk', delete Sample.project (some "bk") false Sample.doomed Sample.disk = .ok r disk' ∧
    r.deleted = [Sample.apiFile] ∧ r.missing = [Sample.apiFile, "x"] ∧ r.errors.length = 1 ∧
    BackedUp Sample.disk disk' Sample.project (Path.ofText "bk") ["p"] Sample.doomed r := by
  have hp : Sample.disk.HasTree Sample.project ["p"] Sample.tree := ⟨by decide +kernel, by decide, rfl⟩
  have hlist : ∀ p ∈ Sample.doomed, Listable Sample.project p := by
    intro p hp
    simp only [Sample.doomed, List.mem_cons, List.not_mem_nil, or_false] at hp
    rcases hp with rfl | rfl | rfl | rfl <;> exact ⟨by decide, by decide, by decide, by decide⟩
  obtain ⟨⟨r, disk', hdelete, hreport⟩, -⟩ :=
    delete_backs_up hp (by decide) ⟨_, rfl⟩ (by decide) (by decide) hlist (Sample.apart Sample.doomed)
  obtain ⟨r', disk'', hrun, hdeleted, hmissing, herrors⟩ : ∃ r disk',
      delete Sample.project (some "bk") false Sample.doomed Sample.disk = .ok r disk' ∧ r.deleted = [Sample.apiFile] ∧
        r.missing = [Sample.apiFile, "x"] ∧ r.errors.length = 1 := Outcome.done_of_check (by decide +kernel)
  cases hdelete.symm.trans hrun
  exact ⟨r, disk', hdelete, hdeleted, hmissing, herrors, hreport⟩

/-- A name that is too long ends the run, and nothing is said of the file behind it. And if the path of the folder for
copies makes a detour over the place of a copy, a file is deleted that has no copy there. -/
theorem long_name_ends_deletion :
    (Sample.disk.HasTree Sample.project ["p"] Sample.tree ∧ Sample.disk.root.LinkFree ∧ Sample.disk.Grounded ∧
      Apart Sample.disk ["p"] (Path.ofText "bk") [Sample.longName, Sample.apiFile]) ∧
    (∃ f disk', delete Sample.project (some "bk") false [Sample.longName, Sample.apiFile] Sample.disk = .error f disk') ∧
    ∃ r disk', delete Sample.project (some Sample.detour) false [Sample.apiFile] Sample.disk = .ok r disk' ∧
      r.deleted = [Sample.apiFile] ∧ (disk'.read ((Path.ofText Sample.detour).under Sample.apiFile).text).toOption = none := by
  obtain ⟨f, hf, -⟩ : ∃ f, Sample.disk.present (Sample.project.under Sample.longName).text = .error f ∧ True :=
    Outcome.error_of_check (by decide +kernel)
  refine ⟨⟨⟨by decide +kernel, by decide, rfl⟩, by decide, ⟨_, rfl⟩, Sample.apart _⟩, ⟨f, Sample.disk, delete_unaskable hf _⟩, ?_⟩
  exact Outcome.done_of_check (by decide +kernel)

end Deletion

end ActionSweep
