/-
Sessions that only show what would be deleted. Nothing is deleted in them, and as long as the result is not saved,
files change only where a list of ignored keys is kept: every other file, link and folder stays in place.
-/
import ActionSweep.Command.Run
import ActionSweep.Proofs.Sample
import ActionSweep.Proofs.Session.Turns

namespace ActionSweep

open Dialog (Plain Keeps)

namespace Session

/-- Nothing is to be deleted, and two lists are kept at some paths. -/
def OnlyShows (p q : Path) (s : Session) : Prop :=
  s.plan.dryRun = true ∧ s.ignored.path = p ∧ s.ignoredRoutes.path = q

instance (screen : Screen) : Decidable (screen = .resultFile) :=
  match screen with
  | .resultFile => isTrue rfl
  | .mainMenu | .actions | .filterMenu | .ignoredActions | .ignoredRoutes _ | .confirmDeletion _ | .confirmBackup _
  | .backupFolder _ | .confirmCleanup _ _ _ | .confirmFolders _ | .routes _ | .confirmRoutes _ _ => isFalse nofun

/-- The result is never asked to be saved. -/
def NeverSaves (s : Session) (lines : List Text) (next : Next) : Prop := ∀ p ∈ s.prompts lines next, p.2 ≠ .resultFile

instance (s : Session) (lines : List Text) (next : Next) : Decidable (s.NeverSaves lines next) :=
  inferInstanceAs (Decidable (∀ p ∈ s.prompts lines next, p.2 ≠ .resultFile))

end Session

namespace Dialog

open Session (OnlyShows)

variable {p q : Path}

theorem onlyShows_stable : Stable (OnlyShows p q) where
  quiet _ _ hs _ := hs
  filters _ _ hs := hs
  marks _ _ _ _ := keeps_modify fun _ hs => hs
  unmarks _ _ hs := hs
  ignores _ h := by
    refine keeps_of_left fun s ⟨hdry, hp, hq⟩ => ?_
    rw [left_changeIgnored]
    exact ⟨hdry, (h.saves s.plan.now ⟨s.ignored, s.disk⟩).1.trans hp, hq⟩
  ignoresRoutes _ h := by
    refine keeps_of_left fun s ⟨hdry, hp, hq⟩ => ?_
    rw [left_changeIgnoredRoutes]
    exact ⟨hdry, hp, (h.saves s.plan.now ⟨s.ignoredRoutes, s.disk⟩).1.trans hq⟩

/-- Where nothing is deleted, plain questions lead to plain questions. -/
theorem plain_of_leads {next : Next} (h : Leads (OnlyShows p q) next) : Plain next := by
  rcases h with h | ⟨⟨s, hs, hdry⟩, -⟩
  · exact h
  · rw [hs.1] at hdry
    cases hdry

end Dialog

namespace Session

variable {p q : Path} {place : List Text}

/-- A session that deletes nothing, and in which the result is not saved, leaves everything in place but files and links
where it saves its lists. -/
theorem run_stillHas : ∀ {lines : List Text} {s : Session} {next : Next} {e : Entry}, s.OnlyShows p q → Plain next →
    s.NeverSaves lines next → s.disk.root.find? place = some e →
      (s.run lines next).2.disk.root.StillHas place e ∨ (∀ inside, e ≠ .folder inside) ∧
        ∃ turn ∈ s.turns lines next, turn.2.OnlyShows p q ∧ SavesAt turn place
  | lines, s, .leave, e, _, _, _, he => by
    rw [run]
    exact .inl (Dir.stillHas_self he)
  | [], s, .ask screen, e, _, _, _, he => .inl (Dir.stillHas_self he)
  | line :: lines, s, .ask screen, e, hs, hplain, hnever, he => by
    have hresult : screen ≠ .resultFile := hnever _ (List.mem_cons_self ..)
    have hs : ((s.asked screen).typed line).OnlyShows p q := hs
    have hturns := Dialog.answer_stillHas (s := (s.asked screen).typed line) hplain hresult line he
    have hkeeps : Keeps (OnlyShows p q) (Dialog.Leads (OnlyShows p q)) (Dialog.answer line screen) :=
      Dialog.answer_keeps Dialog.onlyShows_stable hplain hresult line
    have hmem : (∃ turn ∈ Dialog.answerTurns line ((s.asked screen).typed line) screen, SavesAt turn place) →
        ∃ turn ∈ s.turns (line :: lines) (.ask screen), turn.2.OnlyShows p q ∧ SavesAt turn place := by
      rintro ⟨turn, hturn, hsaves⟩
      exact ⟨turn, List.mem_append_left _ hturn, (Dialog.answerTurns_keep Dialog.onlyShows_stable hs hturn).2, hsaves⟩
    replace hturns := hturns.imp_right (And.imp_right hmem)
    unfold NeverSaves at hnever
    rw [prompts] at hnever
    rw [run]
    cases hanswer : Dialog.answer line screen ((s.asked screen).typed line) with
    | error f s' =>
      rw [hanswer] at hturns
      exact hturns
    | ok next' s' =>
      rw [hanswer] at hturns hnever
      obtain ⟨hleads, hs'⟩ := hkeeps.ok hs hanswer
      refine Dir.stillHas_trans hturns fun e' he' => ?_
      refine (run_stillHas hs' (Dialog.plain_of_leads hleads) (fun p hp => hnever p (List.mem_cons_of_mem _ hp)) he').imp_right
        (And.imp_right ?_)
      rintro ⟨turn, hturn, hsaves⟩
      refine ⟨turn, ?_, hsaves⟩
      rw [turns, hanswer]
      exact List.mem_append_right _ hturn

end Session

namespace Command

variable {args lines : List Text} {styles : Bool} {now : Stamp} {disk : Disk} {request : Request}

/-- The lists of ignored keys that a run works with: those that the settings name for the project. -/
def WorksWith (request : Request) (disk : Disk) (actions routes : IgnoreList) : Prop :=
  ∃ settings project, Settings.load disk request.config = .ok settings ∧
    disk.realPath (Path.ofText request.projectRoot) = .ok project ∧
    ignoreLists settings disk project = .ok (actions, routes)

/-- In a turn of the session of a run, one of the lists that the run works with is saved, and a place is where it is written
or moved. -/
def SavesAt (args lines : List Text) (styles : Bool) (now : Stamp) (disk : Disk) (request : Request) (place : List Text) :
    Prop :=
  ∃ s next actions routes, start args styles now disk = .session s next ∧ WorksWith request disk actions routes ∧
    ∃ turn ∈ s.turns lines next, turn.2.ignored.path = actions.path ∧ turn.2.ignoredRoutes.path = routes.path ∧
      Session.SavesAt turn place

theorem plan_ok {settings : Settings} {p : SessionPlan} (h : plan request settings now disk = .ok p) :
    disk.realPath (Path.ofText request.projectRoot) = .ok p.project ∧ p.dryRun = request.dryRun := by
  unfold plan at h
  dsimp only at h
  split at h
  · obtain ⟨project, hproject, h⟩ := Outcome.bind_ok.1 h
    obtain ⟨scan, -, h⟩ := Outcome.bind_ok.1 h
    obtain ⟨config, -, h⟩ := Outcome.bind_ok.1 h
    cases h
    exact ⟨hproject, rfl⟩
  -- here the level of the log is asked for first
  · obtain ⟨level, -, h⟩ := Outcome.bind_ok.1 h
    obtain ⟨project, hproject, h⟩ := Outcome.bind_ok.1 h
    obtain ⟨scan, -, h⟩ := Outcome.bind_ok.1 h
    obtain ⟨config, -, h⟩ := Outcome.bind_ok.1 h
    cases h
    exact ⟨hproject, rfl⟩

/-- What a run has come to before the first line is typed. No files have changed, and a session has the lists of the
project. -/
inductive Started (request : Request) (disk : Disk) : Start → Prop
  | ended {o : Outcome} (h : o.disk = disk) : Started request disk (.ended o)
  | session {s : Session} {next : Next} (hdisk : s.disk = disk) (hdry : s.plan.dryRun = request.dryRun)
      (hnext : Plain next) (hlists : WorksWith request disk s.ignored s.ignoredRoutes) :
      Started request disk (.session s next)

theorem beginSession_started {settings : Settings} (hsettings : Settings.load disk request.config = .ok settings)
    {p : SessionPlan} (hplan : plan request settings now disk = .ok p) (scanner : Scanner) (r : ScanResult)
    (console : Console) : Started request disk (beginSession p settings scanner r disk console) := by
  obtain ⟨hproject, hdry⟩ := plan_ok hplan
  unfold beginSession
  split
  · exact .ended rfl
  · rename_i actions routes hlists
    -- the first page writes to the terminal only
    have hwelcome : Keeps (fun s => s.disk = disk ∧ s.plan = p ∧ s.ignored = actions ∧ s.ignoredRoutes = routes) Plain
        Dialog.welcome := Dialog.welcome_keeps fun _ _ hs _ => hs
    have hbegin := hwelcome (.start p actions routes disk console scanner r) ⟨rfl, rfl, rfl, rfl⟩
    split
    · rename_i h
      rw [h] at hbegin
      exact .ended hbegin.1
    · rename_i next s h
      rw [h] at hbegin
      obtain ⟨hnext, hdisk, rfl, rfl, rfl⟩ := hbegin
      exact .session hdisk hdry hnext ⟨settings, s.plan.project, hsettings, hproject, hlists⟩

theorem work_started (hinteractive : request.interactive = true) (console : Console) :
    Started request disk (work request now disk console) := by
  unfold work
  dsimp only
  split
  · split
    · exact .ended rfl
    · exact .ended rfl
  · rename_i settings hsettings
    split
    · exact .ended rfl
    · rename_i p hplan
      split
      · split
        · exact .ended rfl
        · exact .ended rfl
      · rw [if_pos hinteractive]
        exact beginSession_started hsettings hplan _ _ _

theorem disk_run (h : start args styles now disk = .session s next) :
    (run args lines styles now disk).disk = (s.run lines next).2.disk := by
  unfold run
  rw [h]
  dsimp only
  cases (s.run lines next).1 <;> rfl

theorem start_started (hrequest : Request.ofArguments disk args = .ok request) (hinteractive : request.interactive = true) :
    Started request disk (start args styles now disk) := by
  unfold start
  rw [hrequest]
  exact work_started hinteractive _

variable {s : Session} {next : Next}

theorem worksWith_of_session (hrequest : Request.ofArguments disk args = .ok request)
    (hinteractive : request.interactive = true)
    (h : start args styles now disk = .session s next) : WorksWith request disk s.ignored s.ignoredRoutes := by
  have hstarted : Started request disk (start args styles now disk) := start_started hrequest hinteractive
  rw [h] at hstarted
  cases hstarted with
  | session hdisk hdry hnext hlists => exact hlists

end Command

namespace Sample

def dryRunArgs : List Text := ["--dry-run", "--project-root", "/p"]

def dryRunRequest : Command.Request where
  interactive := true
  dryRun := true
  output := []
  projectRoot := "/p"
  config := []
  levelGiven := false

/-- The list of actions, an action that is ignored, and the way out. -/
def ignoringLines : List Text := ["1", "i 1", "b", "6"]

def moment : Stamp := ⟨"now", "now"⟩

/-- A project with one action, and with what is given in the folder of its lists. -/
def listsDisk (lists : Dir) : Disk := ⟨.folder "p" (.folder ".action-cleanup" lists (apiTree oneAction)) .empty, [], "/"⟩

def ownDisk : Disk := listsDisk .empty

/-- A link to the action where a list is written before it is moved into place. -/
def linkedDisk : Disk := listsDisk (.link "ignore-list.tmp" "../app/api/a.json" .empty)

/-- The place of that action. -/
def actionPlace : List Text := ["p", "app", "api", "a.json"]

/-- A check of a session at its first question that comes out true shows that there is one. -/
theorem session_of_check {x : Command.Start} {p : Session → Next → Prop} [∀ s next, Decidable (p s next)]
    (h : (match x with
      | .session s next => decide (p s next)
      | .ended _ => false) = true) : ∃ s next, x = .session s next ∧ p s next := by
  cases x with
  | ended o => cases h
  | session s next => exact ⟨s, next, rfl, of_decide_eq_true h⟩

end Sample

/-- A run that only shows what would be deleted, in a session in which the result is not saved, leaves every file, link
and folder in place, whatever is typed and however it ends. Excepted are files and links at the paths of the two lists
of ignored keys and of the files beside them, where they lead when a list is saved, and what the file beside a list
leads to if it is a link. -/
theorem dryRun_keeps_files {args lines : List Text} {styles : Bool} {now : Stamp} {disk : Disk} {request : Command.Request}
    (hrequest : Command.Request.ofArguments disk args = .ok request) (hdry : request.dryRun = true)
    (hinteractive : request.interactive = true)
    (hsave : ∀ s next, Command.start args styles now disk = .session s next → s.NeverSaves lines next)
    {place : List Text} {e : Entry} (he : disk.root.find? place = some e) :
    (Command.run args lines styles now disk).disk.root.StillHas place e ∨ (∀ inside, e ≠ .folder inside) ∧
      Command.SavesAt args lines styles now disk request place := by
  have hstarted : Command.Started request disk (Command.start args styles now disk) :=
    Command.start_started hrequest hinteractive
  cases hstart : Command.start args styles now disk with
  | ended o =>
    rw [hstart] at hstarted
    cases hstarted with
    | ended hdisk =>
      have hrun : Command.run args lines styles now disk = o := by
        unfold Command.run
        rw [hstart]
      rw [hrun, hdisk]
      exact .inl (Dir.stillHas_self he)
  | session s next =>
    rw [hstart] at hstarted
    cases hstarted with
    | session hdisk hdryRun hnext hlists =>
      rw [Command.disk_run hstart]
      have hs : s.OnlyShows s.ignored.path s.ignoredRoutes.path := ⟨hdryRun.trans hdry, rfl, rfl⟩
      refine (Session.run_stillHas hs hnext (hsave s next hstart) (hdisk ▸ he)).imp_right (And.imp_right ?_)
      rintro ⟨turn, hturn, ⟨-, hactions, hroutes⟩, hsaves⟩
      exact ⟨s, next, s.ignored, s.ignoredRoutes, hstart, hlists, turn, hturn, hactions, hroutes, hsaves⟩

theorem sample_dryRun_keeps_files :
    Command.Request.ofArguments Sample.ownDisk Sample.dryRunArgs = .ok Sample.dryRunRequest ∧
      ∃ s next e, Command.start Sample.dryRunArgs false Sample.moment Sample.ownDisk = .session s next ∧
        s.NeverSaves Sample.ignoringLines next ∧ (s.turns Sample.ignoringLines next).length = 1 ∧
        Sample.ownDisk.root.find? Sample.actionPlace = some e ∧
        (Command.run Sample.dryRunArgs Sample.ignoringLines false Sample.moment Sample.ownDisk).disk.root.StillHas
          Sample.actionPlace e := by
  have hrequest : Command.Request.ofArguments Sample.ownDisk Sample.dryRunArgs = .ok Sample.dryRunRequest := by decide +kernel
  obtain ⟨s, next, hstart, hsave, hturns, hclear⟩ : ∃ s next, Command.start Sample.dryRunArgs false Sample.moment
      Sample.ownDisk = .session s next ∧ s.NeverSaves Sample.ignoringLines next ∧
        (s.turns Sample.ignoringLines next).length = 1 ∧
        ∀ turn ∈ s.turns Sample.ignoringLines next, ¬ Session.SavesAt turn Sample.actionPlace :=
    Sample.session_of_check (by decide +kernel)
  obtain ⟨e, he⟩ : ∃ e, Sample.ownDisk.root.find? Sample.actionPlace = some e := Option.isSome_iff_exists.1 (by decide +kernel)
  refine ⟨hrequest, s, next, e, hstart, hsave, hturns, he, ?_⟩
  have hnever : ∀ s' next', Command.start Sample.dryRunArgs false Sample.moment Sample.ownDisk = .session s' next' →
      s'.NeverSaves Sample.ignoringLines next' := by
    intro s' next' hstart'
    cases hstart.symm.trans hstart'
    exact hsave
  obtain hkept | ⟨-, s', next', -, -, hstart', -, turn, hturn, -, -, hsaves⟩ :=
    dryRun_keeps_files hrequest rfl rfl hnever he
  · exact hkept
  -- the list and the file beside it are elsewhere
  · cases hstart.symm.trans hstart'
    exact absurd hsaves (hclear turn hturn)

/-- Where the file beside a list is a link to the file of an action, saving the list overwrites that file. -/
theorem linked_sibling_overwritten :
    Command.Request.ofArguments Sample.linkedDisk Sample.dryRunArgs = .ok Sample.dryRunRequest ∧
      ∃ s next e, Command.start Sample.dryRunArgs false Sample.moment Sample.linkedDisk = .session s next ∧
        s.NeverSaves Sample.ignoringLines next ∧
        Command.WorksWith Sample.dryRunRequest Sample.linkedDisk s.ignored s.ignoredRoutes ∧
        (∀ path ∈ [s.ignored.path, s.ignoredRoutes.path], ¬ Sample.linkedDisk.LeadsTo .entry path.text Sample.actionPlace ∧
          ∀ beside, path.withExtension? ".tmp" = some beside →
            ¬ Sample.linkedDisk.LeadsTo .entry beside.text Sample.actionPlace) ∧
        Sample.linkedDisk.root.find? Sample.actionPlace = some e ∧
        ¬ (Command.run Sample.dryRunArgs Sample.ignoringLines false Sample.moment Sample.linkedDisk).disk.root.StillHas
          Sample.actionPlace e := by
  have hrequest : Command.Request.ofArguments Sample.linkedDisk Sample.dryRunArgs = .ok Sample.dryRunRequest := by
    decide +kernel
  obtain ⟨s, next, hstart, hsave, hpath, hpath', hgone⟩ : ∃ s next, Command.start Sample.dryRunArgs false Sample.moment
      Sample.linkedDisk = .session s next ∧ s.NeverSaves Sample.ignoringLines next ∧
        s.ignored.path = Sample.project.under ".action-cleanup/ignore-list.json" ∧
        s.ignoredRoutes.path = Sample.project.under ".action-cleanup/ignored-routes.json" ∧
        ¬ (s.run Sample.ignoringLines next).2.disk.root.StillHas Sample.actionPlace
          (.file (Utf8.encode "\x7b\"exec\": \"b\"\x7d")) := Sample.session_of_check (by decide +kernel)
  have hlists := Command.worksWith_of_session hrequest rfl hstart
  refine ⟨hrequest, s, next, .file (Utf8.encode "\x7b\"exec\": \"b\"\x7d"), hstart, hsave, hlists, ?_, by decide +kernel,
    by rwa [Command.disk_run hstart]⟩
  rw [hpath, hpath']
  intro path hmem
  rcases List.mem_pair.1 hmem with rfl | rfl
  · refine ⟨by decide +kernel, fun beside hbeside => ?_⟩
    have h : (Sample.project.under ".action-cleanup/ignore-list.json").withExtension? ".tmp" =
        some (Sample.project.under ".action-cleanup/ignore-list.tmp") := by decide +kernel
    cases hbeside.symm.trans h
    decide +kernel
  · refine ⟨by decide +kernel, fun beside hbeside => ?_⟩
    have h : (Sample.project.under ".action-cleanup/ignored-routes.json").withExtension? ".tmp" =
        some (Sample.project.under ".action-cleanup/ignored-routes.tmp") := by decide +kernel
    cases hbeside.symm.trans h
    decide +kernel

end ActionSweep
