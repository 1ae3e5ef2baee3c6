/-
Removing one folder. What is removed is an empty folder, at the place that its path leads to; a path that the file system
refuses, or that leads to something else, is a fault of the file system.
-/
import ActionSweep.Proofs.Files.Clearing

namespace ActionSweep

namespace Disk

variable {disk disk' : Disk} {aim : Aim} {t : Text} {p : Path} {f : Fault} {place : List Text}

/-! ## Faults -/

/-- A text without a zero character is refused by the file system, if at all. -/
theorem resolve_fault (hzero : '\x00' ∉ t) (h : disk.resolve aim t = .error f) : f.isFile = true := by
  unfold resolve at h
  rw [if_neg (by simpa using hzero)] at h
  generalize (if t.isEmpty then .error .notFound
    else if pathLimit < (Utf8.encode t).length then .error .nameTooLong
    else resolveParts disk.root aim linkLimit (if ['/'].isPrefixOf t then [] else disk.workingFolder) (steps t) :
      Except FileProblem Place) = x at h
  cases x with
  | error problem =>
    cases h
    rfl
  | ok x => cases h

theorem test_fault {q : Entry → Bool} (h : disk.test t q = .error f) : f.isFile = true := by
  unfold test at h
  split at h
  · cases h
  · cases h
  · split at h
    · cases h
    · cases h
      rfl
  · cases h
  · rename_i g hno hr
    cases h
    refine resolve_fault (fun hzero => ?_) hr
    unfold resolve at hr
    rw [if_pos (by simpa using hzero)] at hr
    cases hr
    exact hno rfl

theorem present_fault (h : disk.present t = .error f) : f.isFile = true := test_fault h

theorem isFolder_fault (h : disk.isFolder t = .error f) : f.isFile = true := test_fault h

/-- What is done with the place of a path is refused by the file system, if at all. -/
theorem resolve_bind_fault {α : Type} {next : Place → Except Fault α} (hzero : '\x00' ∉ t)
    (hnext : ∀ x g, next x = .error g → g.isFile = true) (h : disk.resolve aim t >>= next = .error f) : f.isFile = true := by
  cases hx : disk.resolve aim t with
  | error g =>
    rw [hx] at h
    cases h
    exact resolve_fault hzero hx
  | ok x =>
    rw [hx] at h
    exact hnext x f h

theorem list_fault (hzero : '\x00' ∉ t) (h : disk.list t = .error f) : f.isFile = true := by
  refine resolve_bind_fault hzero (fun x g hg => ?_) h
  split at hg <;> cases hg <;> rfl

theorem read_fault (hzero : '\x00' ∉ t) (h : disk.read t = .error f) : f.isFile = true := by
  refine resolve_bind_fault hzero (fun x g hg => ?_) h
  split at hg <;> cases hg <;> rfl

theorem write_fault {bytes : Bytes} (hzero : '\x00' ∉ t) (h : disk.write t bytes = .error f) : f.isFile = true := by
  refine resolve_bind_fault hzero (fun x g hg => ?_) h
  split at hg <;> cases hg <;> rfl

theorem makeFolder_fault (hzero : '\x00' ∉ t) (h : disk.makeFolder t = .error f) : f.isFile = true := by
  refine resolve_bind_fault hzero (fun x g hg => ?_) h
  split at hg <;> cases hg
  rfl

/-- A folder that the path names is removed if it is empty. -/
theorem removeFolder_named {d : Dir} (h : disk.resolve .entry t = .ok (.found place (.folder d))) (hnamed : nameless? t = none) :
    disk.removeFolder t = if d.isEmpty then .ok (disk.setRoot (disk.root.eraseAt place)) else .error (refuse .notEmpty t) := by
  unfold removeFolder
  rw [h]
  simp only [bind, Except.bind, hnamed]
  rfl

theorem removeFolder_nameless {d : Dir} {problem : FileProblem} (h : disk.resolve .entry t = .ok (.found place (.folder d)))
    (hnameless : nameless? t = some problem) : disk.removeFolder t = .error (refuse problem t) := by
  unfold removeFolder
  rw [h]
  simp only [bind, Except.bind, hnameless]
  rfl

theorem removeFolder_fault (hzero : '\x00' ∉ t) (h : disk.removeFolder t = .error f) : f.isFile = true := by
  cases hx : disk.resolve .entry t with
  | error g =>
    rw [removeFolder, hx] at h
    cases h
    exact resolve_fault hzero hx
  | ok x =>
    cases x with
    | free folder name =>
      rw [removeFolder, hx] at h
      cases h
      rfl
    | found place e =>
      cases e with
      | folder d =>
        cases hnamed : nameless? t with
        | some problem =>
          rw [removeFolder_nameless hx hnamed] at h
          cases h
          rfl
        | none =>
          rw [removeFolder_named hx hnamed] at h
          split at h
          · cases h
          · cases h
            rfl
      | file b | link u =>
        rw [removeFolder, hx] at h
        cases h
        rfl

/-! ## One folder -/

/-- A path that can be removed by its name ends with a name. -/
theorem name_of_named (hp : p.Normal) (h : nameless? p.text = none) :
    ∃ front n, p = ⟨p.anchor, front ++ [n]⟩ ∧ n ≠ ['.', '.'] := by
  obtain ⟨a, parts⟩ := p
  rcases List.eq_nil_or_concat' parts with rfl | ⟨front, n, rfl⟩
  · cases a <;> exact absurd h (by decide)
  · exact ⟨front, n, rfl, notUp_of_named hp h⟩

/-- What is removed is an empty folder, where its path leads. -/
theorem removeFolder_ok (hp : p.Normal) (h : disk.removeFolder p.text = .ok disk') :
    ∃ place, disk.resolve .entry p.text = .ok (.found place (.folder .empty)) ∧ place ≠ [] ∧
      disk' = disk.setRoot (disk.root.eraseAt place) := by
  obtain ⟨x, hx, hremove⟩ := Outcome.bind_ok.1 h
  cases x with
  | free folder name => cases hremove
  | found place e =>
    cases e with
    | file b | link u => cases hremove
    | folder d =>
      cases hnamed : nameless? p.text with
      | some problem =>
        rw [removeFolder_nameless hx hnamed] at h
        cases h
      | none =>
        rw [removeFolder_named hx hnamed] at h
        split at h
        · rename_i hempty
          cases h
          have hd : d = .empty := by
            cases d with
            | empty => rfl
            | file _ _ _ | link _ _ _ | folder _ _ _ => cases hempty
          subst hd
          refine ⟨place, hx, ?_, rfl⟩
          obtain ⟨front, n, hparts, hup⟩ := name_of_named hp hnamed
          have hn : Path.IsPart n := hp n (by rw [hparts]; simp)
          have hleads := ((resolve_text_ok hp).1 hx).2
          rw [hparts] at hleads
          obtain ⟨folder, hfolder⟩ := resolveParts_last ⟨hn.nonempty, hn.noDot, hup⟩ hleads
          rw [show place = folder ++ [n] from hfolder]
          simp
        · cases h

/-- A path that names an empty folder itself can be removed. -/
theorem removeFolder_runs (hnamed : nameless? t = none) (h : disk.resolve .entry t = .ok (.found place (.folder .empty))) :
    disk.removeFolder t = .ok (disk.setRoot (disk.root.eraseAt place)) := by
  rw [removeFolder_named h hnamed]
  rfl

theorem clears_eraseAt (hroot : disk.root.WellFormed) (hne : place ≠ []) (h : disk.root.find? place = some (.folder .empty)) :
    Clears [place] disk (disk.setRoot (disk.root.eraseAt place)) :=
  ⟨rfl, Dir.cleared_eraseAt hroot.ordered hne h, hroot.eraseAt hne h⟩

/-- Removing a folder clears its place. -/
theorem removeFolder_clears (hroot : disk.root.WellFormed) (hp : p.Normal) (h : disk.removeFolder p.text = .ok disk') :
    ∃ place, disk.resolve .entry p.text = .ok (.found place (.folder .empty)) ∧ Clears [place] disk disk' := by
  obtain ⟨place, hx, hne, rfl⟩ := removeFolder_ok hp h
  exact ⟨place, hx, clears_eraseAt hroot hne (resolve_stands hx)⟩

end Disk

theorem FileWork.ask_ok {question : Disk → Except Fault α} {disk disk' : Disk} {a : α} (h : ask question disk = .ok a disk') :
    question disk = .ok a ∧ disk' = disk := by
  unfold ask at h
  split at h
  · rename_i hq
    cases h
    exact ⟨hq, rfl⟩
  · cases h

end ActionSweep
