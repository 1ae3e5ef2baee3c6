/-
Entries that are put into a tree. What is put under a name is found there, and everything else as before;
so a tree to which a file was added, with the folders on the way that were missing, has the files that it
had and the one that was added.
-/
import ActionSweep.Proofs.Files.Tree

namespace ActionSweep

namespace Dir

/-! ## Putting an entry under a name -/

theorem get?_put (n k : Text) (e : Entry) : ∀ d : Dir, (d.put n e).get? k = if n = k then some e else d.get? k
  | empty => by cases e <;> rfl
  | file m b rest | link m b rest | folder m b rest => by
    have ih := get?_put n k e rest
    unfold put
    split
    · rename_i hm
      subst hm
      cases e <;> simp only [cons, get?] <;> split <;> rfl
    · split
      · cases e <;> rfl
      · rename_i hm _
        simp only [get?, ih]
        by_cases hk : m = k
        · subst hk
          rw [if_pos rfl, if_neg (Ne.symm hm), if_pos rfl]
        · rw [if_neg hk, if_neg hk]

theorem find?_put (n k : Text) (e : Entry) (path : List Text) (d : Dir) :
    (d.put n e).find? (k :: path) = if n = k then e.find? path else d.find? (k :: path) := by
  rw [find?_cons, get?_put, find?_cons]
  split
  · rw [Option.bind_some]
  · rfl

/-! ## Adding a file -/

/-- The content of the folder with a name, which is empty if nothing has the name yet. -/
def roomFor (n : Text) (d : Dir) : Option Dir :=
  match d.get? n with
  | none => some .empty
  | some (.folder inside) => some inside
  | some _ => none

/-- The tree with a file added at a path where nothing stands, and with the folders on the way that are
missing. There is none if a file or a link stands on the way. -/
def addFile? (b : Bytes) : List Text → Dir → Option Dir
  | [], _ => none
  | [n], d => if d.get? n = none then some (d.put n (.file b)) else none
  | n :: m :: path, d => do
    let inside ← d.roomFor n
    let inside' ← addFile? b (m :: path) inside
    return d.put n (.folder inside')

theorem find?_of_roomFor {n : Text} {d inside : Dir} (h : d.roomFor n = some inside) (path : List Text) {e : Entry}
    (hleaf : ∀ inner, e ≠ .folder inner) : d.find? (n :: path) = some e ↔ inside.find? path = some e := by
  unfold roomFor at h
  rw [find?_cons]
  split at h
  · rename_i hn
    cases h
    rw [hn]
    cases path with
    | nil => simpa [find?] using (hleaf empty).symm
    | cons m path => rw [find?_cons]; rfl
  · rename_i hn
    cases h
    rw [hn, Option.bind_some, Entry.find?_folder]
  · cases h

/-- The files and links of a tree with a file added are those of the tree and the added file. -/
theorem leaf_addFile? {b : Bytes} {e : Entry} (hleaf : ∀ inner, e ≠ .folder inner) : ∀ {names : List Text} {d d' : Dir},
    d.addFile? b names = some d' → ∀ path, d'.find? path = some e ↔ d.find? path = some e ∨ path = names ∧ e = .file b
  | [], _, _, h, _ => by cases h
  | [n], d, d', h, path => by
    unfold addFile? at h
    simp only [Option.ite_none_right_eq_some, Option.some.injEq] at h
    obtain ⟨hnone, rfl⟩ := h
    cases path with
    | nil => simp [find?, fun inner => (hleaf inner).symm]
    | cons k path =>
      rw [find?_put]
      split
      · rename_i hk
        subst hk
        rw [find?_cons, hnone]
        cases path <;> simp [Entry.find?, eq_comm]
      · rename_i hk
        simp [Ne.symm hk]
  | n :: m :: names, d, d', h, path => by
    unfold addFile? at h
    simp only [Option.bind_eq_bind, Option.bind_eq_some_iff, Option.pure_def, Option.some.injEq] at h
    obtain ⟨inside, hroom, inside', hadd, rfl⟩ := h
    cases path with
    | nil => simp [find?, fun inner => (hleaf inner).symm]
    | cons k path =>
      rw [find?_put]
      split
      · rename_i hk
        subst hk
        have ih := leaf_addFile? hleaf hadd path
        rw [Entry.find?_folder, ih, find?_of_roomFor hroom path hleaf, List.cons.injEq]
        simp
      · rename_i hk
        simp [Ne.symm hk]

/-- The files of a tree with a file added are those of the tree and the added one. -/
theorem find?_addFile? {b : Bytes} {names : List Text} {d d' : Dir} (h : d.addFile? b names = some d') (path : List Text)
    (c : Bytes) : d'.find? path = some (.file c) ↔ d.find? path = some (.file c) ∨ path = names ∧ c = b := by
  rw [leaf_addFile? (by rintro _ ⟨⟩) h path, Entry.file.injEq]

/-- No file stood where one was added. -/
theorem not_file_of_addFile? {b : Bytes} : ∀ {names : List Text} {d d' : Dir}, d.addFile? b names = some d' →
    ∀ c, d.find? names ≠ some (.file c)
  | [], _, _, h, _ => by cases h
  | [n], d, d', h, c => by
    unfold addFile? at h
    simp only [Option.ite_none_right_eq_some] at h
    rw [find?_singleton, h.1]
    simp
  | n :: m :: names, d, d', h, c => by
    unfold addFile? at h
    simp only [Option.bind_eq_bind, Option.bind_eq_some_iff] at h
    obtain ⟨inside, hroom, inside', hadd, -⟩ := h
    rw [ne_eq, find?_of_roomFor hroom _ (by rintro _ ⟨⟩)]
    exact not_file_of_addFile? hadd c

/-- The folders of a tree with a file added are those of the tree and the ones on the way to the file. -/
theorem folder_addFile? {b : Bytes} : ∀ {names : List Text} {d d' : Dir}, d.addFile? b names = some d' →
    ∀ path, (∃ inside, d'.find? path = some (.folder inside)) ↔
      (∃ inside, d.find? path = some (.folder inside)) ∨ path <+: names ∧ path ≠ names
  | [], _, _, h, _ => by cases h
  | [n], d, d', h, path => by
    unfold addFile? at h
    simp only [Option.ite_none_right_eq_some, Option.some.injEq] at h
    obtain ⟨hnone, rfl⟩ := h
    cases path with
    | nil => simp [find?]
    | cons k path =>
      rw [find?_put]
      split
      · rename_i hk
        subst hk
        rw [find?_cons, hnone]
        cases path <;> simp [Entry.find?]
      · rename_i hk
        simp [Ne.symm hk]
  | n :: m :: names, d, d', h, path => by
    unfold addFile? at h
    simp only [Option.bind_eq_bind, Option.bind_eq_some_iff, Option.pure_def, Option.some.injEq] at h
    obtain ⟨inside, hroom, inside', hadd, rfl⟩ := h
    cases path with
    | nil => simp [find?]
    | cons k path =>
      rw [find?_put]
      split
      · rename_i hk
        subst hk
        rw [Entry.find?_folder, folder_addFile? hadd path, find?_cons]
        unfold roomFor at hroom
        split at hroom
        · rename_i hn
          cases hroom
          rw [hn]
          cases path with
          | nil => simp [find?]
          | cons j path => simp [find?_cons, get?]
        · rename_i hn
          cases hroom
          rw [hn, Option.bind_some, Entry.find?_folder]
          simp
        · cases hroom
      · rename_i hk
        simp [Ne.symm hk]

/-- The tree with files added one after the other. -/
def addFiles? (added : List (List Text × Bytes)) (d : Dir) : Option Dir := added.foldlM (fun d f => d.addFile? f.2 f.1) d

end Dir

end ActionSweep
