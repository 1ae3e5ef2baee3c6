/-
What saving a list of ignored keys does to the files. It makes folders, writes the file beside that of the list,
moves it into place, and removes it where that fails; whatever stood elsewhere before stands there afterwards.
-/
import ActionSweep.IgnoreList
import ActionSweep.Proofs.Files.Failing

namespace ActionSweep

open Outcome (left reaches_bind)
open Relation (ReflTransGen)

variable {path : Path} {paths : List Path} {disk disk' : Disk} {place : List Text} {e : Entry}

/-! ## Steps -/

/-- One change of the files while a list with a given path is saved. -/
inductive SavingStep (path : Path) (disk disk' : Disk) : Prop
  | folder {front : Path} (hfront : front.anchor = path.anchor ∧ front.parts <+: path.parts)
      (h : disk.makeFolder front.text = .ok disk')
  | write {beside : Path} {bytes : Bytes} (hbeside : path.withExtension? ".tmp" = some beside)
      (h : disk.write beside.text bytes = .ok disk')
  | move {beside : Path} (hbeside : path.withExtension? ".tmp" = some beside)
      (hfile : ∀ place inside, disk.resolve .entry beside.text ≠ .ok (.found place (.folder inside)))
      (h : disk.move beside.text path.text = .ok disk')
  | remove {beside : Path} (hbeside : path.withExtension? ".tmp" = some beside)
      (h : disk.removeFile beside.text = .ok disk')

/-- Files become others while lists with given paths are saved. -/
def Saved (paths : List Path) : Disk → Disk → Prop :=
  ReflTransGen fun disk disk' => ∃ path ∈ paths, SavingStep path disk disk'

/-- Where something may change when a list is saved: at its file, at the file beside it, and, if that is a link,
where the link leads. -/
inductive SavingPlace (disk : Disk) (path : Path) (place : List Text) : Prop
  | list (h : disk.LeadsTo .entry path.text place)
  | beside {beside : Path} (hbeside : path.withExtension? ".tmp" = some beside) (h : disk.LeadsTo .entry beside.text place)
  | behind {beside : Path} {link : List Text} {t : Text} (hbeside : path.withExtension? ".tmp" = some beside)
      (hlink : disk.resolve .entry beside.text = .ok (.found link (.link t))) (h : disk.LeadsTo .writing beside.text place)

theorem savingPlace_iff : SavingPlace disk path place ↔ disk.LeadsTo .entry path.text place ∨
    ∃ beside ∈ (path.withExtension? ".tmp").toList, disk.LeadsTo .entry beside.text place ∨
      (match disk.resolve .entry beside.text with
        | .ok (.found _ (.link _)) => true
        | _ => false) = true ∧ disk.LeadsTo .writing beside.text place := by
  simp only [Option.mem_toList]
  constructor
  · rintro (h | ⟨hbeside, h⟩ | ⟨hbeside, hlink, h⟩)
    · exact .inl h
    · exact .inr ⟨_, hbeside, .inl h⟩
    · exact .inr ⟨_, hbeside, .inr ⟨by rw [hlink], h⟩⟩
  · rintro (h | ⟨beside, hbeside, h | ⟨hlink, h⟩⟩)
    · exact .list h
    · exact .beside hbeside h
    · split at hlink
      · exact .behind hbeside ‹_› h
      · cases hlink

instance : Decidable (SavingPlace disk path place) := decidable_of_iff' _ savingPlace_iff

theorem Disk.makeFolder_stillHas {t : Text} (h : disk.makeFolder t = .ok disk') (he : disk.root.find? place = some e) :
    disk'.root.StillHas place e := by
  rcases (Disk.makeFolder_changes h).stillHas he with hstill | ⟨-, hnone⟩
  · exact hstill
  · rw [he] at hnone
    cases hnone

theorem SavingStep.stillHas (h : SavingStep path disk disk') (he : disk.root.find? place = some e) :
    disk'.root.StillHas place e ∨ (∀ inside, e ≠ .folder inside) ∧ SavingPlace disk path place := by
  cases h with
  | folder hfront h => exact .inl (Disk.makeFolder_stillHas h he)
  | write hbeside h =>
    refine ((Disk.write_changes h).stillHas he).imp_right (And.imp_right ?_)
    rintro ⟨x, hx, hplace⟩
    rcases Disk.resolve_entry_or_link (by decide) hx with hentry | ⟨link, t, hlink⟩
    · exact .beside hbeside ⟨x, hentry, hplace⟩
    · exact .behind hbeside hlink ⟨x, hx, hplace⟩
  | move hbeside hfile h =>
    refine ((Disk.move_changes h hfile).stillHas he).imp_right (And.imp_right ?_)
    rintro (hplace | hplace)
    · exact .beside hbeside hplace
    · exact .list hplace
  | remove hbeside h => exact ((Disk.removeFile_changes h).stillHas he).imp_right (And.imp_right (.beside hbeside))

/-- What stays in place, unless there is a reason, stays when the next step leaves it in place, unless there is the same
reason. -/
theorem Dir.stillHas_trans {d d' : Dir} {P : Prop} (h : d.StillHas place e ∨ (∀ inside, e ≠ .folder inside) ∧ P)
    (hnext : ∀ e', d.find? place = some e' → d'.StillHas place e' ∨ (∀ inside, e' ≠ .folder inside) ∧ P) :
    d'.StillHas place e ∨ (∀ inside, e ≠ .folder inside) ∧ P := by
  obtain ⟨e', he', hshell⟩ | hreason := h
  · obtain ⟨e'', he'', hshell'⟩ | ⟨hleaf, hP⟩ := hnext e' he'
    · exact .inl ⟨e'', he'', hshell'.trans hshell⟩
    · refine .inr ⟨?_, hP⟩
      rintro inside rfl
      obtain ⟨d, rfl⟩ := Entry.shell_eq_folder.1 hshell
      exact hleaf d rfl
  · exact .inr hreason

theorem Saved.save (h : Saved paths disk disk') (hpath : path ∈ paths) {disk'' : Disk}
    (hsaving : ReflTransGen (SavingStep path) disk' disk'') : Saved paths disk disk'' :=
  h.trans (ReflTransGen.mono (fun _ _ hstep => ⟨path, hpath, hstep⟩) _ _ hsaving)

/-! ## Work -/

namespace FileWork

theorem left_unlessFolder (p : Path) (f : Fault) (disk : Disk) : left (unlessFolder p f disk) = disk := by
  unfold unlessFolder
  split <;> rfl

/-- What holds of making each of some folders holds of making them all. -/
theorem makeFolders_reaches {R : Disk → Disk → Prop} (hR : ∀ {front : Path} {disk disk' : Disk},
    front.anchor = path.anchor ∧ front.parts <+: path.parts → disk.makeFolder front.text = .ok disk' → R disk disk') :
    ∀ (n : Nat) {front : Path} (disk : Disk), front.anchor = path.anchor ∧ front.parts <+: path.parts →
      ReflTransGen R disk (left (makeFolders front n disk))
  | 0, front, disk, hfront => by
    unfold makeFolders
    split
    · rename_i h
      exact .single (hR hfront h)
    · rw [left_unlessFolder]
  | n + 1, front, disk, hfront => by
    unfold makeFolders
    split
    · rename_i h
      exact .single (hR hfront h)
    · split
      · split
        · exact .refl
        -- a folder is missing above this one
        · have ih : ReflTransGen R disk (left (makeFolders front.parent n disk)) :=
            makeFolders_reaches hR n disk ⟨hfront.1, (List.dropLast_prefix front.parts).trans hfront.2⟩
          split
          · rename_i hparent
            rwa [hparent] at ih
          · rename_i hparent
            rw [hparent] at ih
            split
            · rename_i h
              exact ih.tail (hR hfront h)
            · rwa [left_unlessFolder]
      · rw [left_unlessFolder]
    · exact .refl

theorem makeFolders_saving (n : Nat) {front : Path} (disk : Disk)
    (hfront : front.anchor = path.anchor ∧ front.parts <+: path.parts) :
    ReflTransGen (SavingStep path) disk (left (makeFolders front n disk)) :=
  makeFolders_reaches .folder n disk hfront

/-- What holds of writing a file beside another one, of moving it and of removing it holds of replacing the other one. -/
theorem replaceFile_reaches {R : Disk → Disk → Prop} {beside : Path} {t : Text} {disk : Disk}
    (hwrite : ∀ disk', disk.write beside.text (Utf8.encode t) = .ok disk' → R disk disk')
    (hmove : ∀ disk' disk'', disk.write beside.text (Utf8.encode t) = .ok disk' →
      disk'.move beside.text path.text = .ok disk'' → R disk' disk'')
    (hremove : ∀ disk' disk'', disk' = disk ∨ disk.write beside.text (Utf8.encode t) = .ok disk' →
      disk'.removeFile beside.text = .ok disk'' → R disk' disk'') :
    ReflTransGen R disk (left (replaceFile beside path t disk)) := by
  cases h : replaceFile beside path t disk with
  | ok _ disk' =>
    obtain ⟨moment, hwritten, hmoved⟩ := replaceFile_ok h
    exact .tail (.single (hwrite moment hwritten)) (hmove moment disk' hwritten hmoved)
  | error f disk' =>
    obtain ⟨moment, hstage, hend⟩ := replaceFile_error h
    have hstage' : moment = disk ∨ disk.write beside.text (Utf8.encode t) = .ok moment := hstage.imp_right And.left
    have hmoment : ReflTransGen R disk moment := by
      obtain rfl | hwritten := hstage'
      · exact .refl
      · exact .single (hwrite moment hwritten)
    obtain rfl | hremoved := hend
    · exact hmoment
    · exact hmoment.tail (hremove moment disk' hstage' hremoved)

theorem replaceFile_saving {beside : Path} (hbeside : path.withExtension? ".tmp" = some beside) (t : Text) (disk : Disk) :
    ReflTransGen (SavingStep path) disk (left (replaceFile beside path t disk)) :=
  replaceFile_reaches (fun _ h => .write hbeside h) (fun _ _ h h' => .move hbeside (Disk.write_noFolder h) h')
    fun _ _ _ h => .remove hbeside h

end FileWork

namespace IgnoreList

theorem save_saving (l : IgnoreList) (now : Stamp) (disk : Disk) :
    ReflTransGen (SavingStep l.path) disk (left (l.save now disk)) := by
  unfold save
  refine reaches_bind (FileWork.makeFolders_saving _ disk ⟨rfl, List.dropLast_prefix l.path.parts⟩) fun _ disk' _ => ?_
  cases hbeside : l.path.withExtension? ".tmp" with
  | none => exact .refl
  | some beside => exact FileWork.replaceFile_saving hbeside _ disk'

/-- The disks on which a list is written beside its file and moved into place when it is saved: when the folders on the
way to it were made, and when it was written. -/
def savingDisks (l : IgnoreList) (now : Stamp) (disk : Disk) : List Disk :=
  let made := left (FileWork.ensureFolder l.path.parent disk)
  made :: match l.path.withExtension? ".tmp" with
    | none => []
    | some beside => (made.write beside.text (Utf8.encode (Json.render (l.toValue now)))).toOption.toList

/-- A list is saved by making folders, and then by steps from the disks on which it is written and moved. -/
theorem save_reaches (l : IgnoreList) (now : Stamp) (disk : Disk) :
    ReflTransGen (fun moment after => (∃ t, moment.makeFolder t = .ok after) ∨
      moment ∈ l.savingDisks now disk ∧ SavingStep l.path moment after) disk (left (l.save now disk)) := by
  unfold save
  refine reaches_bind (FileWork.makeFolders_reaches (fun _ h => .inl ⟨_, h⟩) _ disk ⟨rfl, List.prefix_rfl⟩)
    fun _ made hmade => ?_
  have hdisks : l.savingDisks now disk = made :: match l.path.withExtension? ".tmp" with
      | none => []
      | some beside => (made.write beside.text (Utf8.encode (Json.render (l.toValue now)))).toOption.toList := by
    unfold savingDisks
    rw [hmade]
    rfl
  rw [hdisks]
  cases hbeside : l.path.withExtension? ".tmp" with
  | none => exact .refl
  | some beside =>
    have hwritten : ∀ {disk'}, made.write beside.text (Utf8.encode (Json.render (l.toValue now))) = .ok disk' →
        disk' ∈ made :: (made.write beside.text (Utf8.encode (Json.render (l.toValue now)))).toOption.toList := by
      intro disk' h
      rw [h]
      exact List.mem_cons_of_mem _ (List.mem_singleton_self disk')
    refine FileWork.replaceFile_reaches (fun _ h => .inr ⟨List.mem_cons_self .., .write hbeside h⟩)
      (fun _ _ h h' => .inr ⟨hwritten h, .move hbeside (Disk.write_noFolder h) h'⟩) fun disk' _ hstage h => .inr ⟨?_, .remove hbeside h⟩
    obtain rfl | h := hstage
    · exact List.mem_cons_self ..
    · exact hwritten h

/-- When a list is saved, everything stays in place but a file or a link where it is written or moved. -/
theorem save_stillHas (l : IgnoreList) (now : Stamp) (he : disk.root.find? place = some e) :
    (left (l.save now disk)).root.StillHas place e ∨ (∀ inside, e ≠ .folder inside) ∧
      ∃ moment ∈ l.savingDisks now disk, SavingPlace moment l.path place := by
  have hreaches := l.save_reaches now disk
  generalize left (l.save now disk) = after at hreaches ⊢
  induction hreaches with
  | refl => exact .inl (Dir.stillHas_self he)
  | tail _ hstep ih =>
    refine Dir.stillHas_trans ih fun e' he' => ?_
    obtain ⟨t, h⟩ | ⟨hmoment, hstep⟩ := hstep
    · exact .inl (Disk.makeFolder_stillHas h he')
    · exact (hstep.stillHas he').imp_right (And.imp_right fun hplace => ⟨_, hmoment, hplace⟩)

end IgnoreList

namespace IgnoreWork

/-- Work on a list that keeps its path, and changes files only by saving it. -/
def Saves (work : IgnoreWork Unit) : Prop :=
  ∀ k, (left (work k)).list.path = k.list.path ∧ ReflTransGen (SavingStep k.list.path) k.disk (left (work k)).disk

theorem save_saves (now : Stamp) : Saves (save now) := by
  intro k
  have hsave := k.list.save_saving now k.disk
  unfold save
  split
  · rename_i h
    rw [h] at hsave
    exact ⟨rfl, hsave⟩
  · rename_i h
    rw [h] at hsave
    exact ⟨rfl, hsave⟩

theorem add_eq (key : Value) (now : Stamp) (k : KeptList) : add key now k =
    if k.list.isIgnored key then .ok () k else save now { k with list := k.list.added key } := by
  show (if (!k.list.isIgnored key) = true then _ else _ : IgnoreWork Unit) k = _
  cases k.list.isIgnored key with
  | true => rfl
  | false => rfl

theorem remove_eq (key : Value) (now : Stamp) (k : KeptList) : remove key now k =
    if k.list.isIgnored key then save now { k with list := k.list.removed key } else .ok () k := by
  show (if k.list.isIgnored key = true then _ else _ : IgnoreWork Unit) k = _
  cases k.list.isIgnored key with
  | true => rfl
  | false => rfl

theorem add_saves (key : Value) (now : Stamp) : Saves (add key now) := by
  intro k
  rw [add_eq]
  split
  · exact ⟨rfl, .refl⟩
  · exact save_saves now { k with list := k.list.added key }

theorem remove_saves (key : Value) (now : Stamp) : Saves (remove key now) := by
  intro k
  rw [remove_eq]
  split
  · exact save_saves now { k with list := k.list.removed key }
  · exact ⟨rfl, .refl⟩

/-- When a list and its file are changed, everything stays in place but a file or a link where the list is written or
moved, and then the list has got longer or shorter. -/
def StaysBut (work : IgnoreWork Unit) (now : Stamp) : Prop :=
  ∀ (k : KeptList) {place : List Text} {e : Entry}, k.disk.root.find? place = some e →
    (left (work k)).disk.root.StillHas place e ∨ (∀ inside, e ≠ .folder inside) ∧
      (left (work k)).list.keys.length ≠ k.list.keys.length ∧
      ∃ moment ∈ (left (work k)).list.savingDisks now k.disk, SavingPlace moment (left (work k)).list.path place

theorem save_staysBut (now : Stamp) (k : KeptList) (he : k.disk.root.find? place = some e) :
    (left (save now k)).list = k.list ∧ ((left (save now k)).disk.root.StillHas place e ∨ (∀ inside, e ≠ .folder inside) ∧
      ∃ moment ∈ k.list.savingDisks now k.disk, SavingPlace moment k.list.path place) := by
  have hsave := k.list.save_stillHas now he
  unfold save
  split
  · rename_i h
    rw [h] at hsave
    exact ⟨rfl, hsave⟩
  · rename_i h
    rw [h] at hsave
    exact ⟨rfl, hsave⟩

theorem add_staysBut (key : Value) (now : Stamp) : StaysBut (add key now) now := by
  intro k place e he
  rw [add_eq]
  split
  · exact .inl (Dir.stillHas_self he)
  · obtain ⟨hlist, hstays⟩ := save_staysBut now { k with list := k.list.added key } he
    rw [hlist]
    refine hstays.imp_right (And.imp_right fun hsaving => ⟨?_, hsaving⟩)
    have hlength : (k.list.added key).keys.length = k.list.keys.length + 1 := List.length_append
    show (k.list.added key).keys.length ≠ _
    omega

theorem remove_staysBut (key : Value) (now : Stamp) : StaysBut (remove key now) now := by
  intro k place e he
  rw [remove_eq]
  split
  · rename_i hkey
    obtain ⟨hlist, hstays⟩ := save_staysBut now { k with list := k.list.removed key } he
    rw [hlist]
    refine hstays.imp_right (And.imp_right fun hsaving => ⟨?_, hsaving⟩)
    obtain ⟨v, hv, hsame⟩ := List.any_eq_true.1 hkey
    have hlength : (k.list.removed key).keys.length = k.list.keys.length - 1 := List.length_eraseP_of_mem hv hsame
    have hpos : 0 < k.list.keys.length := List.length_pos_of_mem hv
    show (k.list.removed key).keys.length ≠ _
    omega
  · exact .inl (Dir.stillHas_self he)

end IgnoreWork

end ActionSweep
