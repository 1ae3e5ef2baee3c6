/-
What is found where a file was moved. A path to which the file at a path beside it was moved leads to that file
afterwards, if it leads to anything: the walk there ends at the entry that was moved, and if that is a link, where
the link led before. It leads to nothing if the link leads through the path itself, or the path through its last name.
-/
import ActionSweep.Proofs.Files.Effects

namespace ActionSweep

namespace Dir

variable {d : Dir} {e : Entry} {path : List Text}

/-- What stands in a tree from which something was erased stood in it before. -/
theorem Ordered.stillHas_of_eraseAt {place : List Text} (hd : d.Ordered) (hplace : place ≠ [])
    (h : (d.eraseAt place).find? path = some e) : d.StillHas path e := by
  have hshell := sameBut_eraseAt place d path (by
    rintro q hq hbegin
    rw [List.mem_singleton.1 hq] at hbegin
    rw [hd.find?_eraseAt hplace hbegin] at h
    cases h)
  rw [h, Option.map_some, eq_comm, Option.map_eq_some_iff] at hshell
  exact hshell

theorem Ordered.stillHas_of_erased {p q : List Text} (hd : d.Ordered) (hp : p ≠ []) (hq : q ≠ [])
    (h : ((d.eraseAt p).eraseAt q).find? path = some e) : d.StillHas path e := by
  obtain ⟨f, hf, hshell⟩ := hd.eraseAt.stillHas_of_eraseAt hq h
  obtain ⟨g, hg, hshell'⟩ := hd.stillHas_of_eraseAt hp hf
  exact ⟨g, hg, hshell'.trans hshell⟩

/-- What stands in a tree with a file or a link put into it is that entry, or stands in the tree without its place. -/
theorem find?_putAt_leaf {folder : List Text} {n : Text} {f : Entry} (hleaf : ∀ inside, e ≠ .folder inside) (hfolder : d.FolderAt folder)
    (h : (d.putAt (folder ++ [n]) e).find? path = some f) :
    (d.eraseAt (folder ++ [n])).StillHas path f ∨ path = folder ++ [n] ∧ f = e := by
  obtain ⟨inside, hinside⟩ := hfolder
  have hput : (d.putAt (folder ++ [n]) e).find? (folder ++ [n]) = some e := by
    rw [find?_concat folder n (find?_putAt n e hinside), get?_put, if_pos rfl]
  by_cases hpath : folder ++ [n] <+: path
  · obtain ⟨more, rfl⟩ := hpath
    by_cases hmore : more = []
    · subst hmore
      rw [List.append_nil] at h ⊢
      exact .inr ⟨rfl, Option.some.inj (h.symm.trans hput)⟩
    · rw [find?_below_leaf (not_folderAt_of_leaf hput hleaf) hmore] at h
      cases h
  · have hbelow : ∀ place ∈ [folder ++ [n]], ¬ place <+: path := by simpa using hpath
    have hshell := (sameBut_eraseAt (folder ++ [n]) d path hbelow).trans (sameBut_putAt e (folder ++ [n]) d path hbelow).symm
    rw [h, Option.map_some, Option.map_eq_some_iff] at hshell
    exact .inl hshell

end Dir

namespace Disk

/-! ## Walks that find something -/

/-- A part that leads down in a folder. -/
structure LeadsDown (part : Text) : Prop where
  down : part ≠ [] ∧ part ≠ ['.'] ∧ part ≠ ['.', '.']
  short : (Utf8.encode part).length ≤ nameLimit

/-- A walk from a place along the parts of a path finds an entry behind links, of which it passes at most `n`. -/
inductive Finds (root : Dir) (place : List Text) (e : Entry) : Nat → List Text → List Text → Prop
  | here {n : Nat} (h : root.find? place = some e) : Finds root place e n place []
  | stay {n : Nat} {here parts : List Text} {part : Text} (hpart : part = [] ∨ part = ['.'])
      (h : Finds root place e n here parts) : Finds root place e n here (part :: parts)
  | up {n : Nat} {here parts : List Text} (h : Finds root place e n here.dropLast parts) :
      Finds root place e n here (['.', '.'] :: parts)
  | down {n : Nat} {here parts : List Text} {part : Text} {inside : Dir} (hpart : LeadsDown part)
      (hfind : root.find? (here ++ [part]) = some (.folder inside)) (h : Finds root place e n (here ++ [part]) parts) :
      Finds root place e n here (part :: parts)
  | file {n : Nat} {here : List Text} {part : Text} {b : Bytes} (hpart : LeadsDown part) (hplace : here ++ [part] = place)
      (he : e = .file b) (hfind : root.find? place = some e) : Finds root place e n here [part]
  | link {n : Nat} {here parts : List Text} {part t : Text} (hpart : LeadsDown part)
      (hfind : root.find? (here ++ [part]) = some (.link t))
      (h : Finds root place e n (if ['/'].isPrefixOf t then [] else here) (steps t ++ parts)) :
      Finds root place e (n + 1) here (part :: parts)

section Finds

variable {root root' : Dir} {place : List Text} {e : Entry}

theorem walk_found {n : Nat} {jump : List Text → List Text → Except FileProblem Place}
    (hjump : ∀ here parts, jump here parts = .ok (.found place e) → ∃ m, n = m + 1 ∧ Finds root place e m here parts) :
    ∀ (parts here : List Text), walk root .target jump here parts = .ok (.found place e) → Finds root place e n here parts
  | [], here, h => by
    simp only [walk] at h
    split at h
    · cases h
      exact .here ‹_›
    · cases h
  | part :: parts, here, h => by
    rcases part_cases part with hp | rfl | hp
    · rw [walk_skip hp] at h
      exact .stay hp (walk_found hjump parts here h)
    · rw [walk_up] at h
      exact .up (walk_found hjump parts _ h)
    · rw [walk_down hp (by rintro ⟨⟩)] at h
      split at h
      · cases h
      rename_i hlen
      have hdown : LeadsDown part := ⟨hp, Nat.le_of_not_lt hlen⟩
      split at h
      · split at h <;> cases h
      · exact .down hdown ‹_› (walk_found hjump parts _ h)
      · split at h
        · rename_i hempty
          cases h
          rw [List.isEmpty_iff.1 hempty]
          exact .file hdown rfl rfl ‹_›
        · cases h
      · rw [if_neg (by simp)] at h
        obtain ⟨m, rfl, hfinds⟩ := hjump _ _ h
        exact .link hdown ‹_› hfinds

theorem finds_of_resolveParts : ∀ {n : Nat} {here parts : List Text},
    resolveParts root .target n here parts = .ok (.found place e) → Finds root place e n here parts
  | 0, here, parts, h => walk_found (by rintro _ _ ⟨⟩) parts here h
  | n + 1, here, parts, h => walk_found (fun _ _ h => ⟨n, rfl, finds_of_resolveParts h⟩) parts here h

theorem resolveParts_of_finds {n : Nat} {here parts : List Text} (h : Finds root place e n here parts) :
    resolveParts root .target n here parts = .ok (.found place e) := by
  induction h with
  | here h => simp only [resolveParts_follow, walk, h]
  | stay hpart _ ih => rw [resolveParts_follow, walk_skip hpart, ← resolveParts_follow, ih]
  | up _ ih => rw [resolveParts_follow, walk_up, ← resolveParts_follow, ih]
  | down hpart hfind _ ih =>
    rw [resolveParts_follow, walk_down hpart.down (by rintro ⟨⟩), if_neg (Nat.not_lt.2 hpart.short), hfind]
    rw [resolveParts_follow] at ih
    exact ih
  | file hpart hplace he hfind =>
    subst hplace he
    rw [resolveParts_follow, walk_down hpart.down (by rintro ⟨⟩), if_neg (Nat.not_lt.2 hpart.short), hfind]
    rfl
  | link hpart hfind _ ih =>
    rw [resolveParts_follow, walk_down hpart.down (by rintro ⟨⟩), if_neg (Nat.not_lt.2 hpart.short), hfind]
    dsimp only
    rw [if_neg (by simp)]
    exact ih

theorem Finds.stands {n : Nat} {here parts : List Text} (h : Finds root place e n here parts) : root.find? place = some e := by
  induction h with
  | here h => exact h
  | stay _ _ ih | up _ ih | down _ _ _ ih | link _ _ _ ih => exact ih
  | file _ _ _ h => exact h

/-- A walk in a tree finds the same in a tree with what it finds on the way, unless it passes something else. -/
theorem Finds.passes (Special : List Text → Entry → Prop) {R : Prop}
    (hways : ∀ path f, root.find? path = some f → root'.StillHas path f ∨ Special path f)
    (hfolder : ∀ path inside, ¬ Special path (.folder inside)) (hfile : ∀ b, Special place (.file b) → e = .file b → R)
    {limit : Nat} (hlink : ∀ {here part t n rest e'}, n < limit → Special (here ++ [part]) (.link t) → e'.shell = e.shell →
      Finds root' place e' n (if ['/'].isPrefixOf t then [] else here) (steps t ++ rest) → R)
    {n : Nat} (hn : n ≤ limit) {here parts : List Text} (hhere : root.FolderAt here) (h : Finds root place e n here parts) :
    (∃ e', e'.shell = e.shell ∧ Finds root' place e' n here parts) ∨ R := by
  induction h with
  | here h =>
    obtain ⟨inside, hinside⟩ := hhere
    rw [hinside] at h
    cases h
    rcases hways _ _ hinside with ⟨e', he', hshell⟩ | hspecial
    · exact .inl ⟨e', hshell, .here he'⟩
    · exact absurd hspecial (hfolder _ _)
  | stay hpart h ih => exact (ih hn hhere).imp_left fun ⟨e', hshell, h'⟩ => ⟨e', hshell, .stay hpart h'⟩
  | up h ih => exact (ih hn hhere.dropLast).imp_left fun ⟨e', hshell, h'⟩ => ⟨e', hshell, .up h'⟩
  | down hpart hfind h ih =>
    rcases hways _ _ hfind with ⟨f, hf, hshell⟩ | hspecial
    · obtain ⟨inside', rfl⟩ := Entry.shell_eq_folder.1 hshell
      exact (ih hn ⟨_, hfind⟩).imp_left fun ⟨e', hshell, h'⟩ => ⟨e', hshell, .down hpart hf h'⟩
    · exact absurd hspecial (hfolder _ _)
  | file hpart hplace he hfind =>
    subst he
    rcases hways _ _ hfind with ⟨f, hf, hshell⟩ | hspecial
    · rw [Entry.shell_eq_file.1 hshell] at hf
      exact .inl ⟨_, rfl, .file hpart hplace rfl hf⟩
    · exact .inr (hfile _ hspecial rfl)
  | link hpart hfind h ih =>
    rcases hways _ _ hfind with ⟨f, hf, hshell⟩ | hspecial
    · rw [Entry.shell_eq_link.1 hshell] at hf
      exact (ih (Nat.le_of_lt hn) (hhere.start _)).imp_left fun ⟨e', hshell, h'⟩ => ⟨e', hshell, .link hpart hf h'⟩
    · rcases ih (Nat.le_of_lt hn) (hhere.start _) with ⟨e', hshell, h'⟩ | hR
      · exact .inr (hlink hn hspecial hshell h')
      · exact .inr hR

/-- Everything a tree has besides what is somewhere else leads to the same. -/
theorem Finds.mono (hways : ∀ path f, root.find? path = some f → root'.StillHas path f) {n : Nat} {here parts : List Text}
    (hhere : root.FolderAt here) (h : Finds root place e n here parts) :
    ∃ e', e'.shell = e.shell ∧ Finds root' place e' n here parts :=
  (h.passes (fun _ _ => False) (R := False) (fun path f hf => .inl (hways path f hf)) (fun _ _ => id)
    (fun _ h => h.elim) (fun _ h => h.elim) (Nat.le_refl n) hhere).resolve_right id

/-! ## What walks have in common -/

theorem finds_stay {n : Nat} {here parts : List Text} {part : Text} (hpart : part = [] ∨ part = ['.'])
    (h : Finds root place e n here (part :: parts)) : Finds root place e n here parts := by
  cases h with
  | stay _ h => exact h
  | up h => exact absurd hpart (by decide)
  | down hdown _ _ | file hdown _ _ _ | link hdown _ _ =>
    rcases hpart with rfl | rfl
    · exact absurd rfl hdown.down.1
    · exact absurd rfl hdown.down.2.1

theorem finds_up {n : Nat} {here parts : List Text} (h : Finds root place e n here (['.', '.'] :: parts)) :
    Finds root place e n here.dropLast parts := by
  cases h with
  | stay hpart _ => exact absurd hpart (by decide)
  | up h => exact h
  | down hdown _ _ | file hdown _ _ _ | link hdown _ _ => exact absurd rfl hdown.down.2.2

/-- Where a walk leads down it finds what stands there, in a folder or behind a link. -/
inductive FindsBelow (root : Dir) (place : List Text) (e : Entry) (n : Nat) (here parts : List Text) (part : Text) : Prop
  | folder {inside : Dir} (hfind : root.find? (here ++ [part]) = some (.folder inside))
      (h : Finds root place e n (here ++ [part]) parts)
  | file {b : Bytes} (hfind : root.find? (here ++ [part]) = some (.file b)) (hplace : here ++ [part] = place)
      (he : e = .file b) (hend : parts = [])
  | link {m : Nat} {t : Text} (hm : m + 1 = n) (hfind : root.find? (here ++ [part]) = some (.link t))
      (h : Finds root place e m (if ['/'].isPrefixOf t then [] else here) (steps t ++ parts))

theorem finds_down {n : Nat} {here parts : List Text} {part : Text} (hpart : LeadsDown part)
    (h : Finds root place e n here (part :: parts)) : FindsBelow root place e n here parts part := by
  cases h with
  | stay hstay _ =>
    rcases hstay with rfl | rfl
    · exact absurd rfl hpart.down.1
    · exact absurd rfl hpart.down.2.1
  | up _ => exact absurd rfl hpart.down.2.2
  | down _ hfind h => exact .folder hfind h
  | file _ hplace he hfind =>
    subst he
    exact .file (hplace ▸ hfind) hplace rfl rfl
  | link _ hfind h => exact .link rfl hfind h

/-- Behind a path to a file nothing else is found, and no path leads on. -/
theorem Finds.behind {b : Bytes} {p : List Text} {f : Entry} {n : Nat} {here parts : List Text} (hhere : root.FolderAt here)
    (h : Finds root place (.file b) n here parts) :
    ∀ {m : Nat} {rest : List Text}, Finds root p f m here (parts ++ rest) → p = place ∧ f = .file b ∧ rest = [] := by
  induction h with
  | here h =>
    obtain ⟨inside, hinside⟩ := hhere
    rw [hinside] at h
    cases h
  | stay hpart _ ih => exact fun h' => ih hhere (finds_stay hpart h')
  | up _ ih => exact fun h' => ih hhere.dropLast (finds_up h')
  | down hpart hfind _ ih =>
    intro m rest h'
    cases finds_down hpart h' with
    | folder hfind' h' => exact ih ⟨_, hfind⟩ h'
    | file hfind' _ _ _ | link _ hfind' _ =>
      rw [hfind] at hfind'
      cases hfind'
  | file hpart hplace he hfind =>
    subst hplace
    cases he
    intro m rest h'
    cases finds_down hpart h' with
    | file hfind' hplace' he' hend =>
      rw [hfind] at hfind'
      cases hfind'
      exact ⟨hplace'.symm, he', hend⟩
    | folder hfind' _ | link _ hfind' _ =>
      rw [hfind] at hfind'
      cases hfind'
  | link hpart hfind _ ih =>
    intro m rest h'
    cases finds_down hpart h' with
    | folder hfind' _ | file hfind' _ _ _ =>
      rw [hfind] at hfind'
      cases hfind'
    | link _ hfind' h' =>
      rw [hfind] at hfind'
      cases hfind'
      change Finds root p f _ _ (_ ++ (_ ++ rest)) at h'
      rw [← List.append_assoc] at h'
      exact ih (hhere.start _) h'

/-! ## Writing -/

/-- A path at which a file is written finds that file. -/
theorem walk_written {x : Place} {b : Bytes} (hfile : ∀ e, root.find? x.path = some e → ∃ c, e = .file c) (hx : x.NoFolder)
    (hput : ∀ folder name, x.path = folder ++ [name] → root.FolderAt folder → root'.find? x.path = some (.file b))
    (hchanges : root.ChangesAt root' (· = x.path)) {n : Nat} {jump : List Text → List Text → Except FileProblem Place}
    (hjump : ∀ here parts, root.FolderAt here → jump here parts = .ok x → ∃ m, n = m + 1 ∧ Finds root' x.path (.file b) m here parts) :
    ∀ (parts here : List Text), root.FolderAt here → walk root .writing jump here parts = .ok x →
      Finds root' x.path (.file b) n here parts
  | [], here, ⟨d, hd⟩, h => by
    simp only [walk, hd] at h
    cases h
    exact absurd rfl (hx here d)
  | part :: parts, here, hhere, h => by
    rcases part_cases part with hp | rfl | hp
    · rw [walk_skip hp] at h
      exact .stay hp (walk_written hfile hx hput hchanges hjump parts here hhere h)
    · rw [walk_up] at h
      exact .up (walk_written hfile hx hput hchanges hjump parts _ hhere.dropLast h)
    · rw [walk_down hp (noSlash_of_walk hp h)] at h
      split at h
      · cases h
      rename_i hlen
      have hdown : LeadsDown part := ⟨hp, Nat.le_of_not_lt hlen⟩
      have hstays : ∀ e, root.find? (here ++ [part]) = some e → (∀ c, e ≠ .file c) → root'.StillHas (here ++ [part]) e := by
        intro e he hno
        refine (hchanges.stillHas he).resolve_right ?_
        rintro ⟨-, hplace⟩
        obtain ⟨c, hc⟩ := hfile e (hplace ▸ he)
        exact hno c hc
      split at h
      · split at h
        · rename_i hempty
          cases h
          rw [List.isEmpty_iff.1 hempty]
          exact .file hdown rfl rfl (hput here part rfl hhere)
        · cases h
      · rename_i inside hfind
        obtain ⟨f, hf, hshell⟩ := hstays _ hfind (by rintro _ ⟨⟩)
        obtain ⟨inside', rfl⟩ := Entry.shell_eq_folder.1 hshell
        exact .down hdown hf (walk_written hfile hx hput hchanges hjump parts _ ⟨inside, hfind⟩ h)
      · split at h
        · rename_i hempty
          cases h
          rw [List.isEmpty_iff.1 hempty]
          exact .file hdown rfl rfl (hput here part rfl hhere)
        · cases h
      · rename_i t hfind
        obtain ⟨f, hf, hshell⟩ := hstays _ hfind (by rintro _ ⟨⟩)
        rw [Entry.shell_eq_link.1 hshell] at hf
        rw [if_neg (by simp)] at h
        obtain ⟨m, rfl, hfinds⟩ := hjump _ _ (hhere.start _) h
        exact .link hdown hf hfinds

theorem finds_written {x : Place} {b : Bytes} (hfile : ∀ e, root.find? x.path = some e → ∃ c, e = .file c) (hx : x.NoFolder)
    (hput : ∀ folder name, x.path = folder ++ [name] → root.FolderAt folder → root'.find? x.path = some (.file b))
    (hchanges : root.ChangesAt root' (· = x.path)) : ∀ {n : Nat} {here parts : List Text}, root.FolderAt here →
      resolveParts root .writing n here parts = .ok x → Finds root' x.path (.file b) n here parts
  | 0, here, parts, hhere, h => walk_written hfile hx hput hchanges (by rintro _ _ _ ⟨⟩) parts here hhere h
  | n + 1, here, parts, hhere, h =>
    walk_written hfile hx hput hchanges (fun _ _ hhere h => ⟨n, rfl, finds_written hfile hx hput hchanges hhere h⟩) parts here hhere h

end Finds

variable {disk disk' : Disk}

/-- A file that was written stands where its path led. -/
theorem write_stands (hdisk : disk.Grounded) {t : Text} {bytes : Bytes} {x : Place} (hx : disk.resolve .writing t = .ok x)
    (h : disk.write t bytes = .ok disk') : disk'.resolve .target t = .ok (.found x.path (.file bytes)) := by
  obtain ⟨y, hy, hfile, hno, rfl⟩ := write_ok h
  obtain rfl : x = y := Except.ok.inj (hx.symm.trans hy)
  obtain ⟨hask, hparts⟩ := resolve_ok.1 hx
  have hput : ∀ folder name, x.path = folder ++ [name] → disk.root.FolderAt folder →
      (disk.root.putAt x.path (.file bytes)).find? x.path = some (.file bytes) := by
    rintro folder name hplace ⟨inside, hinside⟩
    rw [hplace, Dir.find?_concat folder name (Dir.find?_putAt name _ hinside), Dir.get?_put, if_pos rfl]
  have hchanges : disk.root.ChangesAt (disk.root.putAt x.path (.file bytes)) (· = x.path) :=
    .of_sameBut (Dir.sameBut_putAt _ _ _) (Dir.not_folderAt_of_file hfile) rfl
  have hfinds := finds_written hfile hno hput hchanges (Dir.FolderAt.start hdisk _) hparts
  exact resolve_ok.2 ⟨hask, resolveParts_of_finds hfinds⟩

/-- A path at which a file was written leads to that file. -/
theorem write_finds (hdisk : disk.Grounded) {t : Text} {bytes : Bytes} (h : disk.write t bytes = .ok disk') :
    ∃ place, disk'.resolve .target t = .ok (.found place (.file bytes)) := by
  obtain ⟨x, hx, -⟩ := write_ok h
  exact ⟨x.path, write_stands hdisk hx h⟩

/-! ## Moving -/

section Names

variable {a : Anchor} {front folder : List Text} {d : Dir} {n : Text} {place : List Text} {e : Entry}

/-- A name leads to its entry in the folder, or to what stands behind it if that is a link. -/
theorem Askable.finds (hn : Askable a front n) (h : disk.LeadsToFolder ⟨a, front⟩ folder d)
    (hx : disk.resolve .target (Path.mk a (front ++ [n])).text = .ok (.found place e)) :
    d.get? n = some e ∨ ∃ t m, d.get? n = some (.link t) ∧
      Finds disk.root place e m (if ['/'].isPrefixOf t then [] else folder) (steps t) := by
  have hleads := ((resolve_text_ok hn.normal).1 hx).2
  obtain ⟨m, hm⟩ := h.append .target hn.part.nonempty
  rw [hm, resolveParts_name h.find? hn.part hn.notUp, if_neg (Nat.not_lt.2 hn.shortName)] at hleads
  split at hleads
  · rename_i t hlink
    rw [if_neg (by decide)] at hleads
    cases m with
    | zero => cases hleads
    | succ m => exact .inr ⟨t, m, hlink, finds_of_resolveParts hleads⟩
  · cases he : d.get? n with
    | none =>
      rw [he] at hleads
      cases hleads
    | some f =>
      rw [he] at hleads
      cases hleads
      exact .inl rfl

theorem Askable.entry (hn : Askable a front n) (h : disk.LeadsToFolder ⟨a, front⟩ folder d)
    (hx : disk.resolve .entry (Path.mk a (front ++ [n])).text = .ok (.found place e)) :
    d.get? n = some e ∧ place = folder ++ [n] := by
  rw [hn.resolve h (.inl rfl)] at hx
  cases he : d.get? n with
  | none =>
    rw [he] at hx
    cases hx
  | some f =>
    rw [he] at hx
    cases hx
    exact ⟨rfl, rfl⟩

theorem Askable.path (hn : Askable a front n) (h : disk.LeadsToFolder ⟨a, front⟩ folder d) {x : Place}
    (hx : disk.resolve .entry (Path.mk a (front ++ [n])).text = .ok x) : x.path = folder ++ [n] := by
  rw [hn.resolve h (.inl rfl)] at hx
  cases hx
  cases d.get? n <;> rfl

/-- A name that is gone from its folder leads to nothing in a tree with nothing else in it. -/
theorem LeadsToFolder.gone (h : disk.LeadsToFolder ⟨a, front⟩ folder d) (hn : Askable a front n) {root : Dir}
    (hways : ∀ path f, root.find? path = some f → disk.root.StillHas path f)
    (hstart : root.FolderAt (if (Path.mk a front).isAbsolute then [] else disk.workingFolder))
    (hnone : root.find? (folder ++ [n]) = none) :
    ¬ Finds root place e linkLimit (if (Path.mk a front).isAbsolute then [] else disk.workingFolder) (front ++ [n]) := by
  intro hfinds
  have hparts := resolveParts_of_finds hfinds
  obtain ⟨folder', inside, hfront⟩ := resolveParts_front hn.part.nonempty linkLimit hstart hparts
  obtain ⟨f, -, hfront'⟩ := (finds_of_resolveParts hfront).mono hways hstart
  have hfolder : folder' = folder := by
    have hboth := (resolveParts_of_finds hfront').symm.trans h
    cases hboth
    rfl
  subst hfolder
  have hfind := resolveParts_found hfront
  obtain ⟨m, hm⟩ : ∃ m, resolveParts root .target linkLimit
      (if (Path.mk a front).isAbsolute then [] else disk.workingFolder) (front ++ [n]) = resolveParts root .target m folder' [n] :=
    resolveParts_append (List.cons_ne_nil n []) (by rintro ⟨⟩) hfront
  rw [Dir.find?_concat folder' n hfind] at hnone
  rw [hm, resolveParts_name hfind hn.part hn.notUp, if_neg (Nat.not_lt.2 hn.shortName), hnone] at hparts
  cases hparts

end Names

/-- A path to which an entry was moved that is a file, or led to it, finds that file, if it finds anything: `without` is
the tree without what was moved and without what stood there before. -/
theorem finds_moved {a : Anchor} {front folder : List Text} {d : Dir} {name : Text} (h : disk.LeadsToFolder ⟨a, front⟩ folder d)
    (hn : Askable a front name) {moved : Entry} {place : List Text} {b : Bytes}
    (hkind : moved = .file b ∨ ∃ t m, moved = .link t ∧
      Finds disk.root place (.file b) m (if ['/'].isPrefixOf t then [] else folder) (steps t))
    {without root : Dir} (hbefore : ∀ path f, without.find? path = some f → disk.root.StillHas path f)
    (hfolders : ∀ path, disk.root.FolderAt path → without.FolderAt path ∧ root.FolderAt path)
    (hnone : without.find? (folder ++ [name]) = none)
    (hafter : ∀ path f, root.find? path = some f → without.StillHas path f ∨ path = folder ++ [name] ∧ f = moved)
    {start p : List Text} (hstart : disk.root.FolderAt start) (hhere : start = if (Path.mk a front).isAbsolute then [] else disk.workingFolder)
    {e : Entry} (hfinds : Finds root p e linkLimit start (front ++ [name])) : e = .file b := by
  subst hhere
  refine (hfinds.passes (fun path f => path = folder ++ [name] ∧ f = moved) hafter ?_ ?_ ?_
    (Nat.le_refl linkLimit) (hfolders _ hstart).2).resolve_left ?_
  · rintro path inside ⟨-, rfl⟩
    rcases hkind with hfile | ⟨t, m, hlink, -⟩
    · cases hfile
    · cases hlink
  · rintro c ⟨-, rfl⟩ rfl
    rcases hkind with hfile | ⟨t, m, hlink, -⟩
    · exact hfile
    · cases hlink
  · -- what is found behind the link was found behind it before, which is the file
    rintro here part t n rest e' - ⟨hplace, rfl⟩ hshell hbehind
    obtain ⟨rfl, -⟩ := List.append_inj' hplace rfl
    obtain ⟨m, hlink⟩ : ∃ m, Finds disk.root place (.file b) m (if ['/'].isPrefixOf t then [] else here) (steps t) := by
      rcases hkind with hfile | ⟨u, m, hlink, hfinds⟩
      · cases hfile
      · cases hlink
        exact ⟨m, hfinds⟩
    obtain ⟨f, hf, hfound⟩ := hbehind.mono hbefore ((hfolders here ⟨d, h.find?⟩).1.start _)
    obtain ⟨-, rfl, -⟩ := hlink.behind (Dir.FolderAt.start ⟨d, h.find?⟩ _) hfound
    rw [← Entry.shell_eq_file.1 (hshell.symm.trans hf.symm)]
  · rintro ⟨e', -, hwithout⟩
    exact h.gone hn hbefore (hfolders _ hstart).1 hnone hwithout

/-- A path to which the file at a path beside it was moved leads to that file, if it leads to anything. -/
theorem move_leaves (hdisk : disk.Grounded) (hordered : disk.root.Ordered) {a : Anchor} {front : List Text} {name beside : Text}
    (hpath : (Path.mk a (front ++ [name])).Normal) (hbeside : (Path.mk a (front ++ [beside])).Normal)
    {place : List Text} {b : Bytes} (hfile : disk.resolve .target (Path.mk a (front ++ [beside])).text = .ok (.found place (.file b)))
    (h : disk.move (Path.mk a (front ++ [beside])).text (Path.mk a (front ++ [name])).text = .ok disk')
    {p : List Text} {e : Entry} (hx : disk'.resolve .target (Path.mk a (front ++ [name])).text = .ok (.found p e)) :
    e = .file b := by
  obtain ⟨q, moved, goal, hsource, hgoal, hnb, hnn, hmove⟩ := move_ok h
  obtain ⟨folder, d, hfront⟩ := leadsToFolder_of_resolve hdisk hbeside hsource
  have hb := askable_of_resolve hfront hbeside (notUp_of_named hbeside hnb) hsource
  have hn := askable_of_resolve hfront hpath (notUp_of_named hpath hnn) hgoal
  obtain ⟨hget, rfl⟩ := hb.entry hfront hsource
  have hgoalPath := hn.path hfront hgoal
  have hmoved := resolve_stands hsource
  have hkind : moved = .file b ∨ ∃ t m, moved = .link t ∧
      Finds disk.root place (.file b) m (if ['/'].isPrefixOf t then [] else folder) (steps t) := by
    rcases hb.finds hfront hfile with hfound | ⟨t, m, hlink, hfinds⟩
    · exact .inl (Option.some.inj (hget.symm.trans hfound))
    · exact .inr ⟨t, m, Option.some.inj (hget.symm.trans hlink), hfinds⟩
  have hleaf : ∀ inside, moved ≠ .folder inside := by
    rintro inside rfl
    rcases hkind with hfile | ⟨t, m, hlink, -⟩
    · cases hfile
    · cases hlink
  rcases moveEntry_ok hmoved (resolve_stands hgoal) hmove with ⟨rfl, hsame⟩ | ⟨hno, hne, rfl⟩
  · -- both paths are one, and nothing is moved
    rw [hgoalPath, List.append_cancel_left_eq] at hsame
    rw [← (List.cons.inj hsame).1, hfile] at hx
    cases hx
    rfl
  · rw [hgoalPath] at hno hx
    have hplaces : ∀ place ∈ [folder ++ [beside]] ++ [folder ++ [name]], ¬ disk.root.FolderAt place ∧ True := by
      simpa using ⟨Dir.not_folderAt_of_leaf hmoved hleaf, hno⟩
    have hone : disk.root.ChangesAt (disk.root.eraseAt (folder ++ [beside])) fun _ => True :=
      .of_sameBut (Dir.sameBut_eraseAt _ _) (Dir.not_folderAt_of_leaf hmoved hleaf) trivial
    have hwithout : disk.root.ChangesAt ((disk.root.eraseAt (folder ++ [beside])).eraseAt (folder ++ [name])) fun _ => True :=
      ⟨_, (Dir.sameBut_eraseAt _ _).trans (Dir.sameBut_eraseAt _ _), hplaces⟩
    have hafter : disk.root.ChangesAt ((disk.root.eraseAt (folder ++ [beside])).putAt (folder ++ [name]) moved) fun _ => True :=
      ⟨_, (Dir.sameBut_eraseAt _ _).trans (Dir.sameBut_putAt _ _ _), hplaces⟩
    exact finds_moved hfront hn hkind (fun path f hf => hordered.stillHas_of_erased (by simp) (by simp) hf) (fun path hfolder => ⟨hwithout.folderAt hfolder, hafter.folderAt hfolder⟩)
      (hordered.eraseAt.find?_eraseAt (by simp) (List.prefix_refl _))
      (fun path f hf => Dir.find?_putAt_leaf hleaf (hone.folderAt ⟨d, hfront.find?⟩) hf)
      (hdisk.start ⟨a, front⟩) rfl (finds_of_resolveParts ((resolve_text_ok hpath).1 hx).2)

end Disk

namespace FileWork

variable {disk disk' : Disk} {path beside : Path} {t : Text}

/-- A file that was replaced was written beside its path, and moved. -/
theorem replaceFile_ok (h : replaceFile beside path t disk = .ok () disk') : ∃ moment,
    disk.write beside.text (Utf8.encode t) = .ok moment ∧ moment.move beside.text path.text = .ok disk' := by
  unfold replaceFile at h
  split at h
  · rename_i hsteps
    cases h
    obtain ⟨_, moment, hwrite, hmove⟩ := Outcome.work_bind_ok.1 hsteps
    exact ⟨moment, change_ok hwrite, change_ok hmove⟩
  · split at h <;> cases h

theorem replaceFile_around (h : replaceFile beside path t disk = .ok () disk') : disk'.around = disk.around := by
  obtain ⟨moment, hwrite, hmove⟩ := replaceFile_ok h
  rw [Disk.move_around hmove, Disk.write_around hwrite]

/-- A path at which a file was replaced leads to the new file, if it leads to anything. -/
theorem replaceFile_leaves (hdisk : disk.Sound) (hpath : path.Normal) {extension : Text} (hslash : '/' ∉ extension)
    (hlong : 3 ≤ extension.length) (hbeside : path.withExtension? extension = some beside)
    (h : replaceFile beside path t disk = .ok () disk') {place : List Text} {e : Entry}
    (hx : disk'.resolve .target path.text = .ok (.found place e)) : e = .file (Utf8.encode t) := by
  obtain ⟨moment, hwrite, hmove⟩ := replaceFile_ok h
  obtain ⟨front, n, k, hp, rfl, hnormal, -⟩ := hpath.withExtension? hslash hlong hbeside
  obtain ⟨spot, hfile⟩ := Disk.write_finds hdisk.grounded hwrite
  have hmoment := hdisk.write hwrite
  rw [hp] at hpath hmove hx
  exact Disk.move_leaves hmoment.grounded hmoment.ordered hpath hnormal hfile hmove hx

/-! ## Folders that are there -/

/-- The text of the folder of a path can be asked about, if that of the path can. -/
theorem asks_parent {a : Anchor} {front : List Text} {n : Text}
    (h : '\x00' ∉ (Path.mk a (front ++ [n])).text ∧ (Utf8.encode (Path.mk a (front ++ [n])).text).length ≤ Disk.pathLimit) :
    '\x00' ∉ (Path.mk a front).text ∧ (Utf8.encode (Path.mk a front).text).length ≤ Disk.pathLimit := by
  by_cases hfront : front = []
  · subst hfront
    rw [Path.text_of_parts_nil rfl]
    cases a <;> decide
  · have htext : (Path.mk a (front ++ [n])).text = (Path.mk a front).text ++ ("/" ++ n) := by
      rw [Path.text_of_parts_ne_nil (show (Path.mk a front).parts ≠ [] from hfront), Path.text_of_parts_ne_nil (by simp)]
      show a.text ++ Text.join "/" (front ++ [n]) = a.text ++ Text.join "/" front ++ ("/" ++ n)
      rw [Text.join_append (List.cons_ne_nil n []) hfront]
      simp only [List.append_assoc]
      rfl
    rw [htext, Utf8.encode, List.flatMap_append, List.length_append] at h
    exact ⟨fun hzero => h.1 (List.mem_append_left _ hzero), Nat.le_trans (Nat.le_add_right _ _) h.2⟩

/-- The folder of a path that leads somewhere is there. -/
theorem parent_there (hdisk : disk.Grounded) (hpath : path.Normal) {x : Place} (hx : disk.resolve .target path.text = .ok x)
    (hne : path.parts ≠ []) : ∃ place d, disk.resolve .target path.parent.text = .ok (.found place (.folder d)) := by
  obtain ⟨a, parts⟩ := path
  obtain ⟨front, n, rfl⟩ := List.eq_nil_or_concat' parts |>.resolve_left hne
  obtain ⟨place, d, hfront⟩ := Disk.leadsToFolder_of_resolve hdisk hpath hx
  have hparent : (Path.mk a (front ++ [n])).parent = ⟨a, front⟩ := by
    rw [Path.parent, List.dropLast_concat]
  rw [hparent]
  refine ⟨place, d, (Disk.resolve_text_ok fun part hpart => hpath part (List.mem_append_left _ hpart)).2 ⟨?_, hfront⟩⟩
  exact asks_parent ((Disk.resolve_text_ok hpath).1 hx).1

/-- A folder that is there need not be made. -/
theorem ensureFolder_there {place : List Text} {d : Dir} (h : disk.resolve .target path.text = .ok (.found place (.folder d))) :
    ensureFolder path disk = .ok () disk := by
  have hmake : disk.makeFolder path.text = .error (Disk.refuse .alreadyExists path.text) := by
    unfold Disk.makeFolder
    rcases Disk.resolve_entry_or_link (by decide) h with hentry | ⟨spot, u, hlink⟩
    · rw [hentry]
      rfl
    · rw [hlink]
      rfl
  have hfolder : disk.isFolder path.text = .ok true := by
    unfold Disk.isFolder Disk.test
    rw [h]
  unfold ensureFolder
  cases path.parts.length with
  | zero => simp only [makeFolders, hmake, unlessFolder, hfolder]
  | succ n => simp [makeFolders, hmake, Disk.refuse, unlessFolder, hfolder]

end FileWork

end ActionSweep
