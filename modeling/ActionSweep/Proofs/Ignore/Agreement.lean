/-
The keys of a list in memory and in its file. Whatever calls are made on a list after it was loaded, it holds texts and
none of them twice, and a list that is read anew has the same keys in the same order as long as the path leads to
something. A save leaves nothing at the path only where a link stands beside the file: what is moved into place is then
the link.
-/
import ActionSweep.Proofs.Files.Replacing
import ActionSweep.Proofs.Ignore.Saving
import ActionSweep.Proofs.Json.RoundTrip
import ActionSweep.Proofs.Sample
import Mathlib.Data.List.Nodup

namespace ActionSweep

open Outcome (bind_ok work_bind_ok left)

theorem Value.same_text {v : Value} {t : Text} : v.same (.text t) = true ↔ v = .text t := by
  cases v <;> simp [Value.same, Value.sameScalar, Value.wholeNumber?]

namespace IgnoreList

variable {l l' : IgnoreList} {disk disk' : Disk} {keys : List Value}

/-! ## Keys -/

/-- Texts, none of them twice. -/
structure Distinct (keys : List Value) : Prop where
  texts : ∀ v ∈ keys, ∃ t, v = .text t
  nodup : keys.Nodup

theorem distinct_nil : Distinct [] := ⟨by simp, List.nodup_nil⟩

theorem isIgnored_text {t : Text} : l.isIgnored (.text t) = true ↔ .text t ∈ l.keys := by
  simp [isIgnored, Value.same_text]

theorem Distinct.concat (h : Distinct keys) {t : Text} (hnew : .text t ∉ keys) : Distinct (keys ++ [.text t]) where
  texts v hv := by
    rcases List.mem_append.1 hv with hv | hv
    · exact h.texts v hv
    · exact ⟨t, List.mem_singleton.1 hv⟩
  nodup := by
    refine List.nodup_append.2 ⟨h.nodup, List.nodup_singleton _, fun v hv w hw => ?_⟩
    rw [List.mem_singleton.1 hw]
    rintro rfl
    exact hnew hv

theorem Distinct.sublist (h : Distinct keys) {some : List Value} (hsub : some.Sublist keys) : Distinct some :=
  ⟨fun v hv => h.texts v (hsub.subset hv), h.nodup.sublist hsub⟩

/-- Some keys with a value, if it is a text that is none of them. -/
def withKey (keys : List Value) : Value → List Value
  | .text t => if keys.any (·.same (.text t)) then keys else keys ++ [.text t]
  | _ => keys

theorem keysOf_eq (values : List Value) : keysOf values = values.foldl withKey [] := rfl

theorem withKey_new {t : Text} (h : .text t ∉ keys) : withKey keys (.text t) = keys ++ [.text t] := by
  rw [withKey, if_neg]
  simpa [Value.same_text] using h

theorem Distinct.withKey (h : Distinct keys) (v : Value) : Distinct (withKey keys v) := by
  cases v with
  | text t =>
    by_cases ht : .text t ∈ keys
    · rw [IgnoreList.withKey, if_pos (by simpa [Value.same_text] using ht)]
      exact h
    · rw [withKey_new ht]
      exact h.concat ht
  | _ => exact h

theorem distinct_keysOf (values : List Value) : Distinct (keysOf values) := by
  have hfold : ∀ (values keys : List Value), Distinct keys → Distinct (values.foldl withKey keys) := by
    intro values
    induction values with
    | nil => exact fun _ h => h
    | cons v values ih => exact fun keys h => ih _ (h.withKey v)
  rw [keysOf_eq]
  exact hfold values [] distinct_nil

theorem keysOf_distinct (h : Distinct keys) : keysOf keys = keys := by
  have hfold : ∀ rest front : List Value, Distinct (front ++ rest) → rest.foldl withKey front = front ++ rest := by
    intro rest
    induction rest with
    | nil => exact fun front _ => (List.append_nil front).symm
    | cons v rest ih =>
      intro front h
      obtain ⟨t, rfl⟩ := h.texts v (by simp)
      have hnew : .text t ∉ front := fun hmem => (List.nodup_append.1 h.nodup).2.2 _ hmem _ (List.mem_cons_self ..) rfl
      rw [List.foldl_cons, withKey_new hnew, ih _ (by rwa [List.append_assoc]), List.append_assoc]
      rfl
  rw [keysOf_eq]
  exact hfold keys [] h

/-! ## Loading -/

theorem distinct_keysIn {v : Value} (h : keysIn v = .ok keys) : Distinct keys := by
  unfold keysIn at h
  split at h
  · cases h
    exact distinct_keysOf _
  · dsimp only at h
    split at h
    · obtain ⟨values, -, rfl⟩ := Outcome.map_ok.1 h
      exact distinct_keysOf values
    · cases h
      exact distinct_nil
  · cases h
    exact distinct_nil

theorem load_ok (h : l.load disk = .ok l') : l'.path = l.path ∧ Distinct l'.keys := by
  unfold load at h
  obtain ⟨found, -, h⟩ := bind_ok.1 h
  cases found with
  | none =>
    cases h
    exact ⟨rfl, distinct_nil⟩
  | some v =>
    obtain ⟨keys, hkeys, h⟩ := bind_ok.1 h
    cases h
    cases hin : keysIn v with
    | error m =>
      rw [hin] at hkeys
      cases hkeys
    | ok keys' =>
      rw [hin] at hkeys
      cases hkeys
      exact ⟨rfl, distinct_keysIn hin⟩

theorem load_absent (h : disk.present l.path.text = .ok false) : l.load disk = .ok (new l.path) := by
  unfold load document
  rw [h]
  rfl

/-- A list that was loaded has no keys, or there is something at its path. -/
theorem present_of_load (h : l.load disk = .ok l') :
    disk.present l.path.text = .ok true ∨ disk.present l.path.text = .ok false ∧ l'.keys = [] := by
  cases hpresent : disk.present l.path.text with
  | error f =>
    unfold load document at h
    rw [hpresent] at h
    cases h
  | ok there =>
    cases there with
    | true => exact .inl rfl
    | false =>
      rw [load_absent hpresent] at h
      cases h
      exact .inr ⟨rfl, rfl⟩

theorem readable_toValue (h : Distinct l.keys) (now : Stamp) {room : Nat} (hroom : 2 ≤ room) :
    Json.Readable room (l.toValue now) := by
  have hkeys : ∀ v ∈ l.keys, Json.Readable (room - 2) v := by
    intro v hv
    obtain ⟨t, rfl⟩ := h.texts v hv
    exact trivial
  have hnames : (["ignored", "lastUpdated", "version"] : List Text).Nodup := by decide
  exact ⟨by omega, hnames, ⟨by omega, Json.readableItems_iff.2 hkeys⟩, trivial, trivial, trivial⟩

/-- A list is read back from the file that is written for it. -/
theorem load_saved (hkeys : Distinct l.keys) {now : Stamp} {place : List Text}
    (h : disk.resolve .target l.path.text = .ok (.found place (.file (Utf8.encode (Json.render (l.toValue now)))))) :
    l.load disk = .ok l := by
  have hroom : 2 ≤ disk.around.nesting := Nat.le_trans (by decide) disk.around.roomy
  obtain ⟨hstrict, hread⟩ := Json.readFile_render (readable_toValue hkeys now hroom).fits
  have hpresent : disk.present l.path.text = .ok true := Disk.present_ok.2 ⟨place, _, h⟩
  have hbytes := Disk.read_ok.2 ⟨place, h⟩
  have hdocument : document l.path disk = .ok (some (l.toValue now)) := by
    unfold document
    rw [hpresent, hbytes]
    simp [hstrict, hread, Except.mapError, bind, Except.bind, pure, Except.pure]
  have hin : keysIn (l.toValue now) = .ok l.keys := by
    show (if (Value.list l.keys).truthy then (Value.list l.keys).items.map keysOf else .ok []) = _
    by_cases hnil : l.keys = []
    · simp [Value.truthy, hnil]
    · rw [if_pos (by simpa [Value.truthy] using hnil)]
      exact congrArg Except.ok (keysOf_distinct hkeys)
  unfold load
  rw [hdocument]
  show ((keysIn (l.toValue now)).mapError Fault.misuse >>= _) = _
  rw [hin]
  rfl

/-! ## Saving -/

theorem save_ok {now : Stamp} (h : l.save now disk = .ok () disk') : ∃ beside moment,
    l.path.withExtension? ".tmp" = some beside ∧ FileWork.ensureFolder l.path.parent disk = .ok () moment ∧
      FileWork.replaceFile beside l.path (Json.render (l.toValue now)) moment = .ok () disk' := by
  obtain ⟨_, moment, hfolder, h⟩ := work_bind_ok.1 h
  cases hbeside : l.path.withExtension? ".tmp" with
  | none =>
    rw [hbeside] at h
    cases h
  | some beside =>
    rw [hbeside] at h
    exact ⟨beside, moment, rfl, hfolder, h⟩

end IgnoreList

/-! ## Soundness -/

theorem SavingStep.sound {path : Path} {disk disk' : Disk} (h : SavingStep path disk disk') (hdisk : disk.Sound) : disk'.Sound := by
  cases h with
  | folder _ h => exact hdisk.makeFolder h
  | write _ h => exact hdisk.write h
  | move _ hfile h => exact hdisk.move h hfile
  | remove _ h => exact hdisk.removeFile h

theorem sound_of_saving {path : Path} {disk disk' : Disk} (h : Relation.ReflTransGen (SavingStep path) disk disk')
    (hdisk : disk.Sound) : disk'.Sound := by
  induction h with
  | refl => exact hdisk
  | tail _ hstep ih => exact hstep.sound ih

/-- The folder of a path was made, and nothing else. -/
theorem sound_ensureFolder {path : Path} {disk disk' : Disk} (hdisk : disk.Sound)
    (h : FileWork.ensureFolder path.parent disk = .ok () disk') : disk'.Sound := by
  have hsaving : Relation.ReflTransGen (SavingStep path) disk (left (FileWork.makeFolders path.parent path.parent.parts.length disk)) :=
    FileWork.makeFolders_saving _ disk ⟨rfl, List.dropLast_prefix path.parts⟩
  rw [show FileWork.makeFolders path.parent path.parent.parts.length disk = .ok () disk' from h] at hsaving
  exact sound_of_saving hsaving hdisk

/-! ## Calls -/

/-- A call of a list, of the ones that read or change it. -/
inductive IgnoreCall
  | load
  | save (now : Stamp)
  | add (key : Text) (now : Stamp)
  | remove (key : Text) (now : Stamp)

def IgnoreCall.work : IgnoreCall → IgnoreWork Unit
  | load => IgnoreWork.load
  | save now => IgnoreWork.save now
  | add key now => IgnoreWork.add (.text key) now
  | remove key now => IgnoreWork.remove (.text key) now

namespace IgnoreWork

variable {path : Path} {k k' : KeptList}

/-- A list holds distinct keys, and they are read anew from its file, if there is anything at its path. -/
structure Settled (path : Path) (k : KeptList) : Prop where
  kept : k.list.path = path
  sound : k.disk.Sound
  keys : IgnoreList.Distinct k.list.keys
  file : k.disk.present path.text = .ok true → (IgnoreList.new path).load k.disk = .ok k.list

/-- The file of a list can be replaced once the folders on the way to it are made. -/
def Savable (path : Path) (disk : Disk) : Prop :=
  ∀ moment, FileWork.ensureFolder path.parent disk = .ok () moment → moment.Replaceable path ".tmp"

theorem load_ok (h : load k = .ok () k') : k.list.load k.disk = .ok k'.list ∧ k'.disk = k.disk := by
  unfold load at h
  split at h
  · rename_i hload
    cases h
    exact ⟨hload, rfl⟩
  · cases h

theorem load_settled (hpath : k.list.path = path) (hdisk : k.disk.Sound) (h : load k = .ok () k') :
    Settled path k' ∧ (IgnoreList.new path).load k'.disk = .ok k'.list := by
  subst hpath
  obtain ⟨hload, hsame⟩ := load_ok h
  obtain ⟨hpath, hkeys⟩ := IgnoreList.load_ok hload
  rw [← hsame] at hdisk hload
  exact ⟨⟨hpath, hdisk, hkeys, fun _ => hload⟩, hload⟩

theorem save_ok {now : Stamp} (h : save now k = .ok () k') : k.list.save now k.disk = .ok () k'.disk ∧ k'.list = k.list := by
  unfold save at h
  split at h
  · rename_i hsave
    cases h
    exact ⟨hsave, rfl⟩
  · cases h

theorem save_settled (hnormal : path.Normal) (hpath : k.list.path = path) (hdisk : k.disk.Sound)
    (hkeys : IgnoreList.Distinct k.list.keys) {now : Stamp} (h : save now k = .ok () k') : Settled path k' := by
  subst hpath
  obtain ⟨hsave, hlist⟩ := save_ok h
  obtain ⟨beside, moment, hbeside, hfolder, hreplace⟩ := IgnoreList.save_ok hsave
  have hmoment := sound_ensureFolder hdisk hfolder
  refine ⟨congrArg IgnoreList.path hlist, ?_, hlist ▸ hkeys, fun hpresent => ?_⟩
  · obtain ⟨between, hwrite, hmove⟩ := FileWork.replaceFile_ok hreplace
    exact (hmoment.write hwrite).move hmove (Disk.write_noFolder hwrite)
  · obtain ⟨place, e, hx⟩ := Disk.present_ok.1 hpresent
    rw [FileWork.replaceFile_leaves hmoment hnormal (by decide) (by decide) hbeside hreplace hx] at hx
    rw [hlist]
    exact IgnoreList.load_saved hkeys hx

/-- A list whose file can be replaced is read anew after it was saved, and its file can be replaced again. -/
theorem save_savable (hnormal : path.Normal) (hpath : k.list.path = path) (hdisk : k.disk.Sound)
    (hkeys : IgnoreList.Distinct k.list.keys) (hsavable : Savable path k.disk) {now : Stamp} (h : save now k = .ok () k') :
    Savable path k'.disk ∧ (IgnoreList.new path).load k'.disk = .ok k'.list := by
  subst hpath
  obtain ⟨hsave, hlist⟩ := save_ok h
  obtain ⟨beside, moment, hbeside, hfolder, hreplace⟩ := IgnoreList.save_ok hsave
  have hmoment := sound_ensureFolder hdisk hfolder
  obtain ⟨root', hrun, hread, hagain⟩ := (hsavable moment hfolder).replaceFile hmoment.grounded hnormal (by decide) (by decide)
    hbeside (Json.render (k.list.toValue now))
  have hdisk' : k'.disk = moment.setRoot root' := by
    injection hreplace.symm.trans hrun
  rw [hdisk', hlist]
  obtain ⟨place, hplace⟩ := Disk.read_ok.1 hread
  refine ⟨fun later hlater => ?_, IgnoreList.load_saved hkeys hplace⟩
  -- the folder is there now, so nothing is made before the next save
  have hsound : (moment.setRoot root').Sound := hdisk' ▸ (save_settled hnormal rfl hdisk hkeys h).sound
  have hparts : k.list.path.parts ≠ [] := by
    intro hnil
    rw [Path.withExtension?, Path.name?, hnil] at hbeside
    cases hbeside
  obtain ⟨spot, d, hparent⟩ := FileWork.parent_there hsound.grounded hnormal hplace hparts
  rw [FileWork.ensureFolder_there hparent] at hlater
  cases hlater
  exact hagain hmoment.ordered

/-! ## Sequences of calls -/

/-- A call loads the list, does nothing, or saves some keys. -/
theorem call_ok (h : Settled path k) {call : IgnoreCall} (hcall : call.work k = .ok () k') :
    load k = .ok () k' ∨ k' = k ∨ ∃ keys now, IgnoreList.Distinct keys ∧ save now ⟨⟨path, keys⟩, k.disk⟩ = .ok () k' := by
  obtain ⟨⟨list, keys⟩, disk⟩ := k
  obtain rfl : list = path := h.kept
  cases call with
  | load => exact .inl hcall
  | save now => exact .inr (.inr ⟨keys, now, h.keys, hcall⟩)
  | add key now =>
    rw [IgnoreCall.work, add_eq] at hcall
    split at hcall
    · cases hcall
      exact .inr (.inl rfl)
    · rename_i hnew
      exact .inr (.inr ⟨_, now, h.keys.concat fun hmem => hnew (IgnoreList.isIgnored_text.2 hmem), hcall⟩)
  | remove key now =>
    rw [IgnoreCall.work, remove_eq] at hcall
    split at hcall
    · exact .inr (.inr ⟨_, now, h.keys.sublist List.eraseP_sublist, hcall⟩)
    · cases hcall
      exact .inr (.inl rfl)

theorem call_settled (hnormal : path.Normal) (h : Settled path k) {call : IgnoreCall} (hcall : call.work k = .ok () k') :
    Settled path k' := by
  rcases call_ok h hcall with hload | rfl | ⟨keys, now, hkeys, hsave⟩
  · exact (load_settled h.kept h.sound hload).1
  · exact h
  · exact save_settled (k := ⟨⟨path, keys⟩, k.disk⟩) hnormal rfl h.sound hkeys hsave

theorem call_savable (hnormal : path.Normal) (h : Settled path k) (hsavable : Savable path k.disk)
    (hfresh : (IgnoreList.new path).load k.disk = .ok k.list) {call : IgnoreCall} (hcall : call.work k = .ok () k') :
    Savable path k'.disk ∧ (IgnoreList.new path).load k'.disk = .ok k'.list := by
  rcases call_ok h hcall with hload | rfl | ⟨keys, now, hkeys, hsave⟩
  · exact ⟨(load_ok hload).2 ▸ hsavable, (load_settled h.kept h.sound hload).2⟩
  · exact ⟨hsavable, hfresh⟩
  · exact save_savable (k := ⟨⟨path, keys⟩, k.disk⟩) hnormal rfl h.sound hkeys hsavable hsave

theorem calls_settled (hnormal : path.Normal) : ∀ (calls : List IgnoreCall) {k : KeptList}, Settled path k →
    calls.forM IgnoreCall.work k = .ok () k' → Settled path k'
  | [], k, h, hcalls => by
    cases hcalls
    exact h
  | call :: calls, k, h, hcalls => by
    obtain ⟨_, moment, hcall, hrest⟩ := work_bind_ok.1 hcalls
    exact calls_settled hnormal calls (call_settled hnormal h hcall) hrest

theorem calls_savable (hnormal : path.Normal) : ∀ (calls : List IgnoreCall) {k : KeptList}, Settled path k →
    Savable path k.disk → (IgnoreList.new path).load k.disk = .ok k.list → calls.forM IgnoreCall.work k = .ok () k' →
    (IgnoreList.new path).load k'.disk = .ok k'.list
  | [], k, _, _, hfresh, hcalls => by
    cases hcalls
    exact hfresh
  | call :: calls, k, h, hsavable, hfresh, hcalls => by
    obtain ⟨_, moment, hcall, hrest⟩ := work_bind_ok.1 hcalls
    obtain ⟨hsavable', hfresh'⟩ := call_savable hnormal h hsavable hfresh hcall
    exact calls_savable hnormal calls (call_settled hnormal h hcall) hsavable' hfresh' hrest

end IgnoreWork

namespace Sample

def listPath : Text := "l.json"

def now : Stamp := ⟨"now", "now"⟩

/-- A list as a bare array, with a key twice and one that is no text, and what is given beside it. -/
def keptDisk (beside : Dir) : Disk := ⟨file listPath "[\"b\", 3, \"b\"]" beside, [], "/"⟩

/-- Two keys are added, and the first one is removed. -/
def listCalls : List IgnoreCall := [.add "a" now, .remove "b" now, .add "c" now]

/-- A link to the list where it is written before it is moved into place. -/
def loopedDisk : Disk := keptDisk (.link "l.tmp" listPath .empty)

end Sample

namespace IgnoreWork

variable {k : KeptList}

/-- After every sequence of calls that begins with a load, and that all end normally, a list holds no key twice, and one
that is read anew has the same keys in the same order exactly if there is something at its path or it has no keys. It
always has them if, once the folders on the way are made, a file or a free name is at the path, and no folder and no
link beside it. Keys are texts here; of all strings a file gives back those in which there is no pair of halves. -/
theorem memory_matches_file {disk : Disk} (hdisk : disk.Sound) {path : Text} {calls : List IgnoreCall}
    (h : (IgnoreCall.load :: calls).forM IgnoreCall.work ⟨.new (Path.ofText path), disk⟩ = .ok () k) :
    k.list.keys.Nodup ∧
      ((IgnoreList.new (Path.ofText path)).load k.disk = .ok k.list ↔ k.disk.present (Path.ofText path).text = .ok true ∨
        k.disk.present (Path.ofText path).text = .ok false ∧ k.list.keys = []) ∧
      (Savable (Path.ofText path) disk → (IgnoreList.new (Path.ofText path)).load k.disk = .ok k.list) ∧
      ∀ {ps : Points} {n : Nat} (rest : Text), (∀ p ∈ ps, p < 0x110000) → ps.length < n →
        (Json.points n (Json.writePoints ps ++ rest).tail = .ok (ps, rest) ↔ ¬ ps.HoldsPair) := by
  have hnormal := Path.normal_ofText path
  obtain ⟨_, moment, hload, hcalls⟩ := work_bind_ok.1 h
  obtain ⟨hloaded, hfresh⟩ := load_settled rfl hdisk hload
  have hsettled := calls_settled hnormal calls hloaded hcalls
  refine ⟨hsettled.keys.nodup, ⟨fun hsame => IgnoreList.present_of_load hsame, ?_⟩, fun hsavable => ?_,
    fun rest hps hn => Json.points_read_iff hps hn rest⟩
  · rintro (hpresent | ⟨habsent, hnil⟩)
    · exact hsettled.file hpresent
    · have hlist : k.list = .new (Path.ofText path) := by
        rw [← hsettled.kept, IgnoreList.new, ← hnil]
      rw [hlist]
      exact IgnoreList.load_absent habsent
  · have hdisk' := (load_ok hload).2
    exact calls_savable hnormal calls hloaded (hdisk' ▸ hsavable) hfresh hcalls

theorem sample_memory_matches_file :
    (Sample.keptDisk .empty).Sound ∧ Savable (Path.ofText Sample.listPath) (Sample.keptDisk .empty) ∧
      ∃ k, (IgnoreCall.load :: Sample.listCalls).forM IgnoreCall.work
          ⟨.new (Path.ofText Sample.listPath), Sample.keptDisk .empty⟩ = .ok () k ∧ k.list.keys.length = 2 ∧
        k.list.keys.Nodup ∧ (IgnoreList.new (Path.ofText Sample.listPath)).load k.disk = .ok k.list := by
  have hdisk : (Sample.keptDisk .empty).Sound := ⟨⟨_, rfl⟩, by decide +kernel⟩
  have hsavable : Savable (Path.ofText Sample.listPath) (Sample.keptDisk .empty) := by
    intro moment hfolder
    have hthere : FileWork.ensureFolder (Path.ofText Sample.listPath).parent (Sample.keptDisk .empty) =
        .ok () (Sample.keptDisk .empty) := rfl
    cases hthere.symm.trans hfolder
    refine ⟨⟨.found [Sample.listPath] (.file (Utf8.encode "[\"b\", 3, \"b\"]")), rfl, by rintro _ _ ⟨⟩⟩, fun beside hbeside => ?_⟩
    have hname : (Path.ofText Sample.listPath).withExtension? ".tmp" = some (Path.ofText "l.tmp") := by decide +kernel
    cases hname.symm.trans hbeside
    exact ⟨.free [] "l.tmp", rfl, by rintro _ _ ⟨⟩⟩
  obtain ⟨_, k, hrun, htwo⟩ : ∃ u k, (IgnoreCall.load :: Sample.listCalls).forM IgnoreCall.work
      ⟨.new (Path.ofText Sample.listPath), Sample.keptDisk .empty⟩ = .ok u k ∧ k.list.keys.length = 2 :=
    Outcome.done_of_check (by decide +kernel)
  obtain ⟨hnodup, -, hfresh, -⟩ := memory_matches_file hdisk hrun
  exact ⟨hdisk, hsavable, k, hrun, htwo, hnodup, hfresh hsavable⟩

/-- Where the file beside a list is a link to the list, a save leaves a link to itself, and the list is read as empty. -/
theorem linked_sibling_loses_keys :
    Sample.loopedDisk.Sound ∧ ∃ k k', [IgnoreCall.load, .add "a" Sample.now].forM IgnoreCall.work
        ⟨.new (Path.ofText Sample.listPath), Sample.loopedDisk⟩ = .ok () k ∧
      (IgnoreList.new (Path.ofText Sample.listPath)).load k.disk = .ok k' ∧
      k.list.isIgnored (.text "a") = true ∧ k'.keys = [] ∧ k' ≠ k.list := by
  obtain ⟨_, k, hrun, hkey, hlost⟩ : ∃ u k, [IgnoreCall.load, .add "a" Sample.now].forM IgnoreCall.work
      ⟨.new (Path.ofText Sample.listPath), Sample.loopedDisk⟩ = .ok u k ∧ k.list.isIgnored (.text "a") = true ∧
        k.disk.present (Path.ofText Sample.listPath).text = .ok false := Outcome.done_of_check (by decide +kernel)
  refine ⟨⟨⟨_, rfl⟩, by decide +kernel⟩, k, .new (Path.ofText Sample.listPath), hrun, IgnoreList.load_absent hlost, hkey, rfl, ?_⟩
  rintro hsame
  rw [← hsame] at hkey
  cases hkey

end IgnoreWork

end ActionSweep
