/-
What answers do to the files. An answer with which a deletion starts leaves the files as the deletion does, given the
files of the marked actions. Every other answer does the one piece of work that its question is about, or saves lists of
ignored keys, or changes no files.
-/
import ActionSweep.Proofs.Ignore.Saving
import ActionSweep.Proofs.Session.Keeping

namespace ActionSweep

open Outcome (left)

namespace Dialog

variable {α β : Type} {s : Session} {disk : Disk}

/-! ## Disks -/

theorem keeps_left {I : Session → Prop} {post : α → Prop} {x : Dialog α} (h : Keeps I post x) (hs : I s) : I (left (x s)) := by
  cases hx : x s with
  | ok a s' => exact (h.ok hs hx).2
  | error f s' => exact h.error hs hx

theorem keeps_of_left {I : Session → Prop} {x : Dialog Unit} (h : ∀ s, I s → I (left (x s))) :
    Keeps I (fun _ => True) x := by
  intro s hs
  have hleft := h s hs
  cases hx : x s with
  | ok a s' =>
    rw [hx] at hleft
    exact ⟨.intro, hleft⟩
  | error f s' =>
    rw [hx] at hleft
    exact hleft

theorem quiet_disk (disk : Disk) : Quiet (·.disk = disk) := fun _ _ hs _ => hs

/-- A step whose second part works on no files leaves the files as its first part does. -/
theorem disk_bind {x : Dialog α} {f : α → Dialog β} (hf : ∀ a disk, Keeps (·.disk = disk) (fun _ => True) (f a)) (s : Session) :
    (left ((x >>= f) s)).disk = (left (x s)).disk := by
  show (left (EStateM.bind x f s)).disk = _
  unfold EStateM.bind
  cases x s with
  | ok a s' => exact keeps_left (hf a s'.disk) rfl
  | error f s' => rfl

theorem disk_files (work : FileWork α) (s : Session) : (left (files work s)).disk = left (work s.disk) := by
  unfold files
  cases work s.disk <;> rfl

theorem left_changeIgnored (work : Stamp → IgnoreWork Unit) (s : Session) : left (changeIgnored work s) =
    { s with
      ignored := (left (work s.plan.now ⟨s.ignored, s.disk⟩)).list
      disk := (left (work s.plan.now ⟨s.ignored, s.disk⟩)).disk } := by
  unfold changeIgnored
  cases work s.plan.now ⟨s.ignored, s.disk⟩ with
  | ok a k => rfl
  | error f k => rfl

theorem left_changeIgnoredRoutes (work : Stamp → IgnoreWork Unit) (s : Session) :
    left (changeIgnoredRoutes work s) =
    { s with
      ignoredRoutes := (left (work s.plan.now ⟨s.ignoredRoutes, s.disk⟩)).list
      disk := (left (work s.plan.now ⟨s.ignoredRoutes, s.disk⟩)).disk } := by
  unfold changeIgnoredRoutes
  cases work s.plan.now ⟨s.ignoredRoutes, s.disk⟩ with
  | ok a k => rfl
  | error f k => rfl

/-! ## Deletion -/

theorem rescan_disk (deleted : List Text) : Keeps (·.disk = disk) (fun _ => True) (rescan deleted) := by
  refine keeps_get fun s hs => ?_
  have hend : ∀ t : Session, t.disk = disk → Keeps (·.disk = disk) (fun _ => True) (do
      set t
      modify fun s => { s with marked := s.marked.filter fun k => s.result.actions.any (·.key = k) }
      let t ← get
      say (t.result.summaryText t.ignored.keys.length)) := by
    intro t ht
    refine (keeps_set ht).bind fun _ _ => (keeps_modify fun u hu => ?_).bind fun _ _ => keeps_get fun _ _ => ?_
    · exact hu
    · exact say_keeps (quiet_disk disk) _
  dsimp only
  split
  · exact hend _ hs
  · refine (keeps_set hs).bind fun _ _ => ?_
    split
    · exact hend _ hs
    · exact keeps_throw

theorem finishDeletion_disk (origin : Origin) (deleted : List Text) :
    Keeps (·.disk = disk) Plain (finishDeletion origin deleted) :=
  (rescan_disk deleted).bind fun _ _ => back_keeps (quiet_disk disk) origin

theorem offerCleanup_disk (origin : Origin) (deleted : List Text) :
    Keeps (·.disk = disk) (fun _ => True) (offerCleanup origin deleted) := by
  refine findFolders_keeps.bind fun folders _ => ?_
  split
  · exact (finishDeletion_disk origin deleted).trivial
  · exact (sayIn_keeps (quiet_disk disk) _ _).bind fun _ _ => (preview_keeps (quiet_disk disk) _).bind fun _ _ =>
      keeps_pure .intro

theorem afterDeletion_disk (s : Session) (origin : Origin) (backup : Option Text) (report : DeletionReport) :
    Keeps (·.disk = disk) (fun _ => True) (afterDeletion s origin backup report) := by
  refine (sayDeletion_keeps (quiet_disk disk) _ _).bind fun _ _ => (keeps_modify fun t ht => ?_).bind fun _ _ => ?_
  · exact ht
  · exact offerCleanup_disk origin _

/-- Once the files of the marked actions are deleted no other files change. -/
theorem disk_deleteMarked (origin : Origin) (backup : Option Text) (s : Session) :
    (left (deleteMarked origin backup s)).disk =
      left (Deletion.delete s.plan.project backup false s.targetFiles s.disk) := by
  show (left ((files (Deletion.delete s.plan.project backup false s.targetFiles) >>= afterDeletion s origin backup) s)).disk = _
  rw [disk_bind fun report disk => afterDeletion_disk s origin backup report, disk_files]

/-- A confirmed deletion starts at once if there is a folder for copies; otherwise it is asked about one. -/
theorem confirmDeletion_yes (origin : Origin) (s : Session) :
    confirmDeletion origin true s =
      match (s.plan.deletion.require "backup_dir").mapError Fault.misuse with
      | .error f => .error f s
      | .ok settings =>
        match settings.folder? with
        | some folder => deleteMarked origin (some folder) s
        | none => .ok (.ask (.confirmBackup origin)) s := by
  show (need ((s.plan.deletion.require "backup_dir").mapError Fault.misuse) >>= _ : Dialog Next) s = _
  cases (s.plan.deletion.require "backup_dir").mapError Fault.misuse with
  | error f => rfl
  | ok settings =>
    show (match settings.folder? with
      | some folder => deleteMarked origin (some folder)
      | none => pure (.ask (.confirmBackup origin)) : Dialog Next) s = _
    dsimp only
    cases settings.folder? with
    | some folder => rfl
    | none => rfl

end Dialog

open Dialog (yesNo? orProposed)

/-- An answer with which the deletion of the marked actions starts: it confirms the deletion and the settings name a
folder for copies, or it says after that, that there are to be no copies or where they go. -/
inductive Session.StartsDeletion (s : Session) (line : Text) : Screen → Origin → Option Text → Prop
  | confirmed {origin : Origin} {settings : DeleteSettings} {folder : Text} (hyes : yesNo? false line = some true)
      (hsettings : s.plan.deletion.require "backup_dir" = .ok settings) (hfolder : settings.folder? = some folder) :
      StartsDeletion s line (.confirmDeletion origin) origin (some folder)
  | uncopied {origin : Origin} (hno : yesNo? false line = some false) :
      StartsDeletion s line (.confirmBackup origin) origin none
  | copied {origin : Origin} :
      StartsDeletion s line (.backupFolder origin) origin (some (orProposed line s.proposedBackup))

/-- What an answer with which no deletion starts can leave of the files: the files as they were, what comes of saving
lists of ignored keys, or what comes of the work that was asked about. -/
inductive Session.OtherWork (s : Session) (line : Text) : Screen → Disk → Prop
  | idle {screen : Screen} : OtherWork s line screen s.disk
  | lists {screen : Screen} {after : Disk} (hplain : Dialog.Plain (.ask screen))
      (hsaved : Saved [s.ignored.path, s.ignoredRoutes.path] s.disk after) : OtherWork s line screen after
  | result : OtherWork s line .resultFile (left (s.result.save (orProposed line proposedResultFile) s.plan.now s.disk))
  | cleanup {origin : Origin} {deleted folders : List Text} (hyes : yesNo? true line = some true) :
      OtherWork s line (.confirmCleanup origin deleted folders) (EmptyFolders.delete folders s.disk).2
  | folders {folders : List Text} (hyes : yesNo? false line = some true) :
      OtherWork s line (.confirmFolders folders) (EmptyFolders.delete folders s.disk).2
  | routes {scan : RouteScan} {paths : List Value} {table : RouteTable} (hyes : yesNo? false line = some true)
      (htable : s.plan.settings.routeTable s.plan.project = .ok table) :
      OtherWork s line (.confirmRoutes scan paths) (left (table.delete paths s.disk))

namespace Dialog

variable {s : Session} {line : Text} {screen : Screen} {origin : Origin} {backup : Option Text}

theorem answer_starts (h : s.StartsDeletion line screen origin backup) :
    answer line screen s = deleteMarked origin backup s := by
  cases h with
  | confirmed hyes hsettings hfolder =>
    show withYesNo (.confirmDeletion origin) false line (confirmDeletion origin) s = _
    rw [withYesNo_eq, hyes]
    dsimp only
    rw [confirmDeletion_yes, hsettings]
    dsimp only [Except.mapError]
    rw [hfolder]
  | uncopied hno =>
    show withYesNo (.confirmBackup origin) false line (confirmBackup origin) s = _
    rw [withYesNo_eq, hno]
    rfl
  | copied => rfl

/-! ## Saving lists -/

/-- Two lists are kept at some paths, and the files come from saving lists there. -/
def OnlySaves (p q : Path) (start : Disk) (s : Session) : Prop :=
  s.ignored.path = p ∧ s.ignoredRoutes.path = q ∧ Saved [p, q] start s.disk

variable {p q : Path} {start : Disk}

theorem IsChange.saves {work : Stamp → IgnoreWork Unit} (h : IsChange work) (now : Stamp) : IgnoreWork.Saves (work now) := by
  cases h with
  | add key => exact IgnoreWork.add_saves key now
  | remove key => exact IgnoreWork.remove_saves key now

theorem changeIgnored_onlySaves {work : Stamp → IgnoreWork Unit} (h : IsChange work) :
    Keeps (OnlySaves p q start) (fun _ => True) (changeIgnored work) := by
  refine keeps_of_left fun s ⟨hp, hq, hsaved⟩ => ?_
  obtain ⟨hpath, hsaving⟩ := h.saves s.plan.now ⟨s.ignored, s.disk⟩
  rw [left_changeIgnored]
  exact ⟨hpath.trans hp, hq, hsaved.save (by simp [hp]) hsaving⟩

theorem changeIgnoredRoutes_onlySaves {work : Stamp → IgnoreWork Unit} (h : IsChange work) :
    Keeps (OnlySaves p q start) (fun _ => True) (changeIgnoredRoutes work) := by
  refine keeps_of_left fun s ⟨hp, hq, hsaved⟩ => ?_
  obtain ⟨hpath, hsaving⟩ := h.saves s.plan.now ⟨s.ignoredRoutes, s.disk⟩
  rw [left_changeIgnoredRoutes]
  exact ⟨hp, hpath.trans hq, hsaved.save (by simp [hq]) hsaving⟩

theorem onlySaves_stable : Stable (OnlySaves p q start) where
  quiet _ _ hs _ := hs
  filters _ _ hs := hs
  marks _ _ _ _ := keeps_modify fun _ hs => hs
  unmarks _ _ hs := hs
  ignores _ h := changeIgnored_onlySaves h
  ignoresRoutes _ h := changeIgnoredRoutes_onlySaves h

/-! ## Other work -/

theorem disk_removeFolders (folders : List Text) (s : Session) :
    (left (removeFolders folders s)).disk = (EmptyFolders.delete folders s.disk).2 := by
  unfold removeFolders
  rw [disk_bind]
  · refine (disk_files _ s).trans ?_
    split
    · rename_i h
      rw [h]
      rfl
    · rename_i h
      rw [h]
      rfl
  · intro report disk
    split
    · exact sayIn_keeps (quiet_disk disk) _ _
    · exact (sayIn_keeps (quiet_disk disk) _ _).bind fun _ _ => keeps_forM fun _ _ => sayIn_keeps (quiet_disk disk) _ _

theorem disk_saveResult (name : Text) (s : Session) :
    (left (saveResult name s)).disk = left (s.result.save name s.plan.now s.disk) := by
  show (left ((files (s.result.save name s.plan.now) >>= fun _ => _ : Dialog Next) s)).disk = _
  rw [disk_bind, disk_files]
  intro _ disk
  exact (sayIn_keeps (quiet_disk disk) _ _).bind fun _ _ => (mainMenu_keeps (quiet_disk disk)).trivial

theorem disk_confirmRoutes {scan : RouteScan} {paths : List Value} {table : RouteTable}
    (htable : s.plan.settings.routeTable s.plan.project = .ok table) :
    (left (confirmRoutes scan paths true s)).disk = left (table.delete paths s.disk) := by
  have hall : confirmRoutes scan paths true s = (do
      let removed ← files (table.delete paths)
      sayIn (.of .green) ("Removed " ++ Text.ofNat removed ++ " routes")
      routeList (← look table.scan) : Dialog Next) s := by
    show (need (s.plan.settings.routeTable s.plan.project) >>= _ : Dialog Next) s = _
    rw [htable]
    rfl
  rw [hall, disk_bind, disk_files]
  intro removed disk
  exact (sayIn_keeps (quiet_disk disk) _ _).bind fun _ _ => (keeps_look _).bind fun scan _ =>
    (routeList_keeps (quiet_disk disk) scan).trivial

theorem otherWork_of_keeps {post : Next → Prop} {x : Dialog Next} (h : ∀ disk, Keeps (·.disk = disk) post x) :
    s.OtherWork line screen (left (x s)).disk := by
  have hdisk : (left (x s)).disk = s.disk := keeps_left (h s.disk) rfl
  rw [hdisk]
  exact .idle

/-- A question to be answered with yes or no is asked again, if the answer says neither. -/
theorem withYesNo_other {standard : Bool} {go : Bool → Dialog Next}
    (hgo : ∀ yes, yesNo? standard line = some yes → s.OtherWork line screen (left (go yes s)).disk) :
    s.OtherWork line screen (left (withYesNo screen standard line go s)).disk := by
  have hagain : ∀ disk, Keeps (·.disk = disk) (fun _ => True) (do
      say "Error: invalid input"
      return Next.ask screen) := fun disk => (say_keeps (quiet_disk disk) _).bind fun _ _ => keeps_pure .intro
  rw [withYesNo_eq]
  split
  · exact hgo _ ‹_›
  · exact otherWork_of_keeps hagain

theorem confirmDeletion_other (h : ∀ backup, ¬ s.StartsDeletion line (.confirmDeletion origin) origin backup) :
    s.OtherWork line (.confirmDeletion origin) (left (answer line (.confirmDeletion origin) s)).disk := by
  refine withYesNo_other fun yes hyes => ?_
  cases yes with
  | false =>
    exact otherWork_of_keeps fun disk =>
      (sayIn_keeps (quiet_disk disk) _ _).bind fun _ _ => back_keeps (quiet_disk disk) origin
  | true =>
    rw [confirmDeletion_yes]
    cases hsettings : s.plan.deletion.require "backup_dir" with
    | error f => exact .idle
    | ok settings =>
      dsimp only [Except.mapError]
      cases hfolder : settings.folder? with
      | some folder => exact absurd (.confirmed hyes hsettings hfolder) (h (some folder))
      | none => exact .idle

theorem confirmCleanup_other (deleted folders : List Text) : s.OtherWork line (.confirmCleanup origin deleted folders)
    (left (answer line (.confirmCleanup origin deleted folders) s)).disk := by
  refine withYesNo_other fun yes hyes => ?_
  cases yes with
  | false => exact otherWork_of_keeps fun disk => finishDeletion_disk origin deleted
  | true =>
    show s.OtherWork line _ (left ((removeFolders folders >>= fun _ => finishDeletion origin deleted) s)).disk
    rw [disk_bind fun _ disk => (finishDeletion_disk origin deleted).trivial, disk_removeFolders]
    exact .cleanup hyes

theorem confirmFolders_other (folders : List Text) :
    s.OtherWork line (.confirmFolders folders) (left (answer line (.confirmFolders folders) s)).disk := by
  have hlook : ∀ disk, Keeps (·.disk = disk) Plain (do
      let left ← findFolders
      modify fun s => { s with result := { s.result with emptyFolders := left } }
      mainMenu) := by
    intro disk
    refine findFolders_keeps.bind fun left _ => (keeps_modify fun t ht => ?_).bind fun _ _ => mainMenu_keeps (quiet_disk disk)
    exact ht
  refine withYesNo_other fun yes hyes => ?_
  cases yes with
  | false => exact otherWork_of_keeps hlook
  | true =>
    show s.OtherWork line _ (left ((removeFolders folders >>= fun _ => _ : Dialog Next) s)).disk
    rw [disk_bind fun _ disk => (hlook disk).trivial, disk_removeFolders]
    exact .folders hyes

theorem confirmRoutes_other (scan : RouteScan) (paths : List Value) :
    s.OtherWork line (.confirmRoutes scan paths) (left (answer line (.confirmRoutes scan paths) s)).disk := by
  refine withYesNo_other fun yes hyes => ?_
  cases yes with
  | false =>
    exact otherWork_of_keeps fun disk =>
      (sayIn_keeps (quiet_disk disk) _ _).bind fun _ _ => routeList_keeps (quiet_disk disk) scan
  | true =>
    cases htable : s.plan.settings.routeTable s.plan.project with
    | error f =>
      have hfault : confirmRoutes scan paths true s = .error f s := by
        show (need (s.plan.settings.routeTable s.plan.project) >>= _ : Dialog Next) s = _
        rw [htable]
        rfl
      rw [hfault]
      exact .idle
    | ok table =>
      rw [disk_confirmRoutes htable]
      exact .routes hyes htable

/-- An answer with which no deletion starts changes files only as its question allows. -/
theorem answer_other (h : ∀ origin backup, ¬ s.StartsDeletion line screen origin backup) :
    s.OtherWork line screen (left (answer line screen s)).disk := by
  have hplain : Plain (.ask screen) → screen ≠ .resultFile → s.OtherWork line screen (left (answer line screen s)).disk := by
    intro hplain hsave
    have hstart : OnlySaves s.ignored.path s.ignoredRoutes.path s.disk s := ⟨rfl, rfl, .refl⟩
    exact .lists hplain (keeps_left (answer_keeps onlySaves_stable hplain hsave line) hstart).2.2
  cases screen with
  | mainMenu => exact hplain .mainMenu (by rintro ⟨⟩)
  | actions => exact hplain .actions (by rintro ⟨⟩)
  | filterMenu => exact hplain .filterMenu (by rintro ⟨⟩)
  | ignoredActions => exact hplain .ignoredActions (by rintro ⟨⟩)
  | ignoredRoutes scan => exact hplain (.ignoredRoutes scan) (by rintro ⟨⟩)
  | routes scan => exact hplain (.routes scan) (by rintro ⟨⟩)
  | resultFile =>
    show s.OtherWork line _ (left (saveResult (orProposed line proposedResultFile) s)).disk
    rw [disk_saveResult]
    exact .result
  | confirmDeletion origin => exact confirmDeletion_other (h origin)
  | confirmBackup origin =>
    refine withYesNo_other fun yes hyes => ?_
    cases yes with
    | true => exact .idle
    | false => exact absurd (.uncopied hyes) (h origin none)
  | backupFolder origin => exact absurd .copied (h origin _)
  | confirmCleanup origin deleted folders => exact confirmCleanup_other deleted folders
  | confirmFolders folders => exact confirmFolders_other folders
  | confirmRoutes scan paths => exact confirmRoutes_other scan paths

end Dialog

end ActionSweep
