/-
The marks of a session are keys of the result, each once. Commands mark what is listed, and when the result is replaced
the marks that it has no actions for are dropped.
-/
import Mathlib.Data.List.Nodup
import ActionSweep.Proofs.Scan.Declared
import ActionSweep.Proofs.Session.Keeping

namespace ActionSweep

namespace Session

/-- The keys of the actions of the result. -/
def keys (s : Session) : List Text := s.result.actions.map (·.key)

/-- Marks that are among some keys. Neither has anything twice. -/
structure MarksOn (keys marks : List Text) : Prop where
  keys_nodup : keys.Nodup
  marks_nodup : marks.Nodup
  marked : ∀ key ∈ marks, key ∈ keys

/-- The marks are keys of the result. -/
def Sound (s : Session) : Prop := MarksOn s.keys s.marked

variable {s : Session}

theorem mem_keys_of_visible {a : Action} (h : a ∈ s.visible) : a.key ∈ s.keys :=
  List.mem_map_of_mem (List.mem_filter.1 h).1

theorem keys_targets : s.targets.map (·.key) = s.keys.filter fun key => s.isMarked key := by
  unfold targets keys
  rw [List.filter_map]
  rfl

/-- The actions to be deleted have the marked keys. -/
theorem Sound.targets_perm (h : s.Sound) : (s.targets.map (·.key)).Perm s.marked := by
  rw [keys_targets, List.perm_ext_iff_of_nodup (h.keys_nodup.filter _) h.marks_nodup]
  intro key
  rw [List.mem_filter]
  exact ⟨fun hk => List.contains_iff_mem.1 hk.2, fun hk => ⟨h.marked key hk, List.contains_iff_mem.2 hk⟩⟩

theorem Sound.length_targetFiles (h : s.Sound) : s.targetFiles.length = s.marked.length := by
  rw [targetFiles, List.length_map, ← h.targets_perm.length_eq, List.length_map]

/-- Without the marks that are no keys of the result. -/
def pruned (s : Session) : Session := { s with marked := s.marked.filter fun k => s.result.actions.any (·.key = k) }

theorem pruned_sound (hkeys : s.keys.Nodup) (hmarks : s.marked.Nodup) : s.pruned.Sound where
  keys_nodup := hkeys
  marks_nodup := hmarks.filter _
  marked key hkey := by
    obtain ⟨a, ha, hk⟩ := List.any_eq_true.1 (List.mem_filter.1 hkey).2
    exact List.mem_map.2 ⟨a, ha, of_decide_eq_true hk⟩

end Session

namespace Dialog

open Session (Sound)

/-! ## Plain questions -/

/-- Sound, with given keys in the result. -/
def SoundFor (keys : List Text) (s : Session) : Prop := s.Sound ∧ s.keys = keys

theorem soundFor_stable (keys : List Text) : Stable (SoundFor keys) where
  quiet _ _ h _ := h
  filters _ _ h := h
  marks s hs a ha := by
    -- the list was shown by one session and the mark is set by a later one: their results have the same keys
    refine keeps_modify fun t ht => ⟨⟨ht.1.keys_nodup, ?_, ?_⟩, ht.2⟩
    · dsimp only
      split
      · exact ht.1.marks_nodup.erase _
      · rename_i hno
        exact List.nodup_append.2 ⟨ht.1.marks_nodup, List.nodup_singleton _, by
          rintro x hx y hy rfl
          obtain rfl := List.mem_singleton.1 hy
          exact hno (List.contains_iff_mem.2 hx)⟩
    · intro key hkey
      dsimp only at hkey
      split at hkey
      · exact ht.1.marked key (List.mem_of_mem_erase hkey)
      · rcases List.mem_append.1 hkey with hkey | hkey
        · exact ht.1.marked key hkey
        · obtain rfl := List.mem_singleton.1 hkey
          exact ht.2.trans hs.2.symm ▸ Session.mem_keys_of_visible ha
  unmarks s key h := ⟨⟨h.1.keys_nodup, h.1.marks_nodup.erase _, fun k hk => h.1.marked k (List.mem_of_mem_erase hk)⟩, h.2⟩
  ignores work _ := by
    intro s hs
    unfold changeIgnored
    cases work s.plan.now ⟨s.ignored, s.disk⟩ with
    | ok a k => exact ⟨.intro, hs⟩
    | error f k => exact hs
  ignoresRoutes work _ := by
    intro s hs
    unfold changeIgnoredRoutes
    cases work s.plan.now ⟨s.ignoredRoutes, s.disk⟩ with
    | ok a k => exact ⟨.intro, hs⟩
    | error f k => exact hs

theorem keeps_sound {α : Type} {post : α → Prop} {x : Dialog α} (h : ∀ keys, Keeps (SoundFor keys) post x) :
    Keeps Sound post x := by
  intro s hs
  cases hx : x s with
  | ok a s' =>
    obtain ⟨hpost, hsound, -⟩ := (h s.keys).ok ⟨hs, rfl⟩ hx
    exact ⟨hpost, hsound⟩
  | error f s' => exact ((h s.keys).error ⟨hs, rfl⟩ hx).1

/-! ## Deletion -/

theorem sound_quiet : Quiet Sound := fun _ _ hs _ => hs

/-- A step that works on the files leaves the marks and the result as they are. -/
theorem sound_files {α : Type} (work : FileWork α) : Keeps Sound (fun _ => True) (files work) :=
  keeps_files fun _ hs _ _ => hs

/-- After a scan, marks that are stale are taken away. -/
theorem rescan_sound (deleted : List Text) : Keeps Sound (fun _ => True) (rescan deleted) := by
  refine keeps_get fun s hs => ?_
  have hend : ∀ t : Session, t.keys.Nodup → t.marked.Nodup → Keeps Sound (fun _ => True) (do
      set t
      modify Session.pruned
      let t ← get
      say (t.result.summaryText t.ignored.keys.length)) := fun t hkeys hmarks _ _ =>
    say_keeps sound_quiet _ t.pruned (Session.pruned_sound hkeys hmarks)
  dsimp only
  split
  · rename_i r scanner hscan
    exact hend _ (Scanner.nodup_keys (congrArg Prod.fst hscan)) hs.marks_nodup
  · rename_i f scanner hscan
    have hset : Sound { s with scanner := scanner } := hs
    refine (keeps_set hset).bind fun _ _ => ?_
    split
    · refine hend _ ?_ hs.marks_nodup
      exact List.Nodup.sublist (List.filter_sublist.map _) hs.keys_nodup
    · exact fun _ ht => ht

theorem finishDeletion_sound (origin : Origin) (deleted : List Text) : Keeps Sound Plain (finishDeletion origin deleted) :=
  (rescan_sound deleted).bind fun _ _ => back_keeps sound_quiet origin

theorem removeFolders_sound (folders : List Text) : Keeps Sound (fun _ => True) (removeFolders folders) := by
  refine (sound_files _).bind fun report _ => ?_
  split
  · exact sayIn_keeps sound_quiet _ _
  · exact (sayIn_keeps sound_quiet _ _).bind fun _ _ => keeps_forM fun _ _ => sayIn_keeps sound_quiet _ _

theorem offerCleanup_sound (origin : Origin) (deleted : List Text) :
    Keeps Sound (fun _ => True) (offerCleanup origin deleted) := by
  refine findFolders_keeps.bind fun folders _ => ?_
  split
  · exact (finishDeletion_sound origin deleted).trivial
  · exact (sayIn_keeps sound_quiet _ _).bind fun _ _ => (preview_keeps sound_quiet _).bind fun _ _ => keeps_pure .intro

theorem deleteMarked_sound (origin : Origin) (backup : Option Text) :
    Keeps Sound (fun _ => True) (deleteMarked origin backup) := by
  refine keeps_get fun s _ => (sound_files _).bind fun report _ => (sayDeletion_keeps sound_quiet _ _).bind fun _ _ => ?_
  refine (keeps_modify fun t ht => ?_).bind fun _ _ => offerCleanup_sound origin _
  exact ⟨ht.keys_nodup, ht.marks_nodup.filter _, fun key hkey => ht.marked key (List.mem_filter.1 hkey).1⟩

theorem confirmDeletion_sound (origin : Origin) (yes : Bool) :
    Keeps Sound (fun _ => True) (confirmDeletion origin yes) := by
  unfold confirmDeletion
  split
  · exact (sayIn_keeps sound_quiet _ _).bind fun _ _ => (back_keeps sound_quiet origin).trivial
  · refine keeps_get fun s _ => (keeps_need _).bind fun settings _ => ?_
    split
    · exact deleteMarked_sound origin _
    · exact keeps_pure .intro

theorem confirmBackup_sound (origin : Origin) (yes : Bool) : Keeps Sound (fun _ => True) (confirmBackup origin yes) := by
  unfold confirmBackup
  split
  · exact keeps_pure .intro
  · exact deleteMarked_sound origin none

theorem confirmCleanup_keeps {I : Session → Prop} (hI : Quiet I) {deleted folders : List Text}
    (hremove : Keeps I (fun _ => True) (removeFolders folders)) (hrescan : Keeps I (fun _ => True) (rescan deleted))
    (origin : Origin) (yes : Bool) : Keeps I Plain (confirmCleanup origin deleted folders yes) := by
  have hfinish : Keeps I Plain (finishDeletion origin deleted) := hrescan.bind fun _ _ => back_keeps hI origin
  unfold confirmCleanup
  dsimp only
  split
  · exact hremove.bind fun _ _ => hfinish
  · exact hfinish

theorem confirmFolders_keeps {I : Session → Prop} (hI : Quiet I) {folders : List Text}
    (hremove : Keeps I (fun _ => True) (removeFolders folders))
    (hset : ∀ s left, I s → I { s with result := { s.result with emptyFolders := left } }) (yes : Bool) :
    Keeps I Plain (confirmFolders folders yes) := by
  have hlook : Keeps I Plain (do
      let left ← findFolders
      modify fun s => { s with result := { s.result with emptyFolders := left } }
      mainMenu) :=
    findFolders_keeps.bind fun left _ => (keeps_modify fun s => hset s left).bind fun _ _ => mainMenu_keeps hI
  unfold confirmFolders
  dsimp only
  split
  · exact hremove.bind fun _ _ => hlook
  · exact hlook

theorem confirmRoutes_keeps {I : Session → Prop} (hI : Quiet I) {paths : List Value}
    (hdelete : ∀ table : RouteTable, Keeps I (fun _ => True) (files (table.delete paths))) (scan : RouteScan) (yes : Bool) :
    Keeps I Plain (confirmRoutes scan paths yes) := by
  unfold confirmRoutes
  split
  · exact (sayIn_keeps hI _ _).bind fun _ _ => routeList_keeps hI scan
  · exact routeTable_keeps.bind fun table _ => (hdelete table).bind fun removed _ =>
      (sayIn_keeps hI _ _).bind fun _ _ => (keeps_look _).bind fun scan _ => routeList_keeps hI scan

theorem saveResult_sound (name : Text) : Keeps Sound Plain (saveResult name) :=
  keeps_get fun _ _ => (sound_files _).bind fun _ _ => (sayIn_keeps sound_quiet _ _).bind fun _ _ =>
    mainMenu_keeps sound_quiet

/-- An answer keeps the marks on the keys of the result. -/
theorem answer_sound (line : Text) (screen : Screen) : Keeps Sound (fun _ => True) (answer line screen) := by
  have hplain : Plain (.ask screen) → screen ≠ .resultFile → Keeps Sound (fun _ => True) (answer line screen) :=
    fun hplain hsave => keeps_sound fun keys => (answer_keeps (soundFor_stable keys) hplain hsave line).trivial
  cases screen with
  | mainMenu => exact hplain .mainMenu (by rintro ⟨⟩)
  | actions => exact hplain .actions (by rintro ⟨⟩)
  | filterMenu => exact hplain .filterMenu (by rintro ⟨⟩)
  | ignoredActions => exact hplain .ignoredActions (by rintro ⟨⟩)
  | ignoredRoutes scan => exact hplain (.ignoredRoutes scan) (by rintro ⟨⟩)
  | routes scan => exact hplain (.routes scan) (by rintro ⟨⟩)
  | resultFile => exact (saveResult_sound _).trivial
  | confirmDeletion origin =>
    exact withYesNo_keeps sound_quiet .intro false line fun yes => confirmDeletion_sound origin yes
  | confirmBackup origin => exact withYesNo_keeps sound_quiet .intro false line fun yes => confirmBackup_sound origin yes
  | backupFolder origin => exact keeps_get fun s _ => deleteMarked_sound origin _
  | confirmCleanup origin deleted folders =>
    exact withYesNo_keeps sound_quiet .intro true line fun yes =>
      (confirmCleanup_keeps sound_quiet (removeFolders_sound folders) (rescan_sound deleted) origin yes).trivial
  | confirmFolders folders =>
    exact withYesNo_keeps sound_quiet .intro false line fun yes =>
      (confirmFolders_keeps sound_quiet (removeFolders_sound folders) (fun _ _ hs => hs) yes).trivial
  | confirmRoutes scan paths =>
    exact withYesNo_keeps sound_quiet .intro false line fun yes =>
      (confirmRoutes_keeps sound_quiet (fun _ => sound_files _) scan yes).trivial

end Dialog

end ActionSweep
