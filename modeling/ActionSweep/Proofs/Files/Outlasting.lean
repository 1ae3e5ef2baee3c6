/-
Trees that differ at some places only. A path to a folder leads where it led, unless it passes such a place.
-/
import ActionSweep.Proofs.Files.Order
import ActionSweep.Proofs.Files.Project

namespace ActionSweep

/-- An entry without what is inside it. -/
def Entry.shell : Entry → Entry
  | .folder _ => .folder .empty
  | e => e

theorem Entry.shell_eq_folder {e : Entry} : e.shell = .folder .empty ↔ ∃ d, e = .folder d := by
  cases e <;> simp [shell]

theorem Entry.shell_eq_file {e : Entry} {b : Bytes} : e.shell = .file b ↔ e = .file b := by
  cases e <;> simp [shell]

theorem Entry.shell_eq_link {e : Entry} {t : Text} : e.shell = .link t ↔ e = .link t := by
  cases e <;> simp [shell]

namespace Dir

/-! ## Changes at some places -/

/-- Trees that differ at most at some places and below them. On the way there, folders stay folders. -/
def SameBut (places : List (List Text)) (d d' : Dir) : Prop :=
  ∀ path, (∀ place ∈ places, ¬ place <+: path) → (d'.find? path).map Entry.shell = (d.find? path).map Entry.shell

theorem SameBut.trans {places more : List (List Text)} {d d' d'' : Dir} (h : SameBut places d d')
    (h' : SameBut more d' d'') : SameBut (places ++ more) d d'' := by
  intro path hpath
  rw [h' path fun place hplace => hpath place (List.mem_append_right _ hplace),
    h path fun place hplace => hpath place (List.mem_append_left _ hplace)]

theorem SameBut.mono {places more : List (List Text)} {d d' : Dir} (h : SameBut places d d') (hsub : places ⊆ more) :
    SameBut more d d' := fun path hpath => h path fun place hplace => hpath place (hsub hplace)

theorem sameBut_name {n : Text} {d d' : Dir} (h : ∀ k, n ≠ k → d'.get? k = d.get? k) : SameBut [[n]] d d' := by
  intro path hpath
  cases path with
  | nil => rfl
  | cons k path =>
    have hk : n ≠ k := by
      rintro rfl
      exact hpath [n] (List.mem_singleton_self _) (List.prefix_append [n] path)
    rw [find?_cons, find?_cons, h k hk]

theorem sameBut_below {n : Text} {place : List Text} {d inside inside' : Dir} (hn : d.get? n = some (.folder inside))
    (h : SameBut [place] inside inside') : SameBut [n :: place] d (d.put n (.folder inside')) := by
  intro path hpath
  cases path with
  | nil => rfl
  | cons k path =>
    rw [find?_put]
    split
    · rename_i hk
      subst hk
      rw [find?_cons, hn, Option.bind_some, Entry.find?_folder, Entry.find?_folder]
      refine h path fun q hq hprefix => hpath _ (List.mem_singleton_self _) ?_
      rw [List.mem_singleton.1 hq] at hprefix
      exact List.cons_prefix_cons.2 ⟨rfl, hprefix⟩
    · rfl

theorem sameBut_putAt (e : Entry) : ∀ (place : List Text) (d : Dir), SameBut [place] d (d.putAt place e)
  | [], _ => fun path hpath => absurd (List.nil_prefix (l := path)) (hpath [] (List.mem_singleton_self _))
  | [n], d => sameBut_name fun k hk => by rw [putAt, get?_put, if_neg hk]
  | n :: m :: place, d => by
    rw [putAt]
    · split
      · rename_i inside hn
        exact sameBut_below hn (sameBut_putAt e (m :: place) inside)
      · exact fun _ _ => rfl
    · exact List.cons_ne_nil m place

theorem get?_erase {n k : Text} (hk : n ≠ k) : ∀ d : Dir, (d.erase n).get? k = d.get? k
  | empty => rfl
  | file m b rest | link m b rest | folder m b rest => by
    have ih := get?_erase hk rest
    unfold erase
    split
    · rename_i hm
      rw [get?, if_neg (hm ▸ hk)]
    · rw [get?, get?, ih]

theorem sameBut_eraseAt : ∀ (place : List Text) (d : Dir), SameBut [place] d (d.eraseAt place)
  | [], _ => fun path hpath => absurd (List.nil_prefix (l := path)) (hpath [] (List.mem_singleton_self _))
  | [n], d => sameBut_name fun k hk => by rw [eraseAt, get?_erase hk]
  | n :: m :: place, d => by
    rw [eraseAt]
    · split
      · rename_i inside hn
        exact sameBut_below hn (sameBut_eraseAt (m :: place) inside)
      · exact fun _ _ => rfl
    · exact List.cons_ne_nil m place

/-- A folder with an entry put into it, where it stands. -/
theorem find?_putAt (n : Text) (e : Entry) : ∀ {place : List Text} {d inside : Dir},
    d.find? place = some (.folder inside) → (d.putAt (place ++ [n]) e).find? place = some (.folder (inside.put n e))
  | [], d, inside, h => by
    cases h
    rfl
  | k :: place, d, inside, h => by
    rw [find?_cons, Option.bind_eq_some_iff] at h
    obtain ⟨f, hf, h⟩ := h
    cases f with
    | folder d' =>
      rw [Entry.find?_folder] at h
      rw [List.cons_append, putAt, hf]
      · dsimp only
        rw [find?_put, if_pos rfl, Entry.find?_folder, find?_putAt n e h]
      · simp
    | file b | link t => cases place <;> cases h

/-- A folder stands at a place. -/
def FolderAt (root : Dir) (place : List Text) : Prop := ∃ d, root.find? place = some (.folder d)

theorem FolderAt.dropLast {root : Dir} {place : List Text} (h : root.FolderAt place) : root.FolderAt place.dropLast := by
  obtain ⟨d, hd⟩ := h
  rcases List.eq_nil_or_concat' place with rfl | ⟨front, n, rfl⟩
  · exact ⟨root, rfl⟩
  · obtain ⟨inside, hinside, -⟩ := find?_folder_of_append (List.cons_ne_nil n []) hd
    exact ⟨inside, by rw [List.dropLast_concat, hinside]⟩

theorem FolderAt.start {root : Dir} {here : List Text} (h : root.FolderAt here) (b : Bool) :
    root.FolderAt (if b then [] else here) := by
  cases b with
  | false => exact h
  | true => exact ⟨root, rfl⟩

end Dir

/-- A file, or a name that is free. -/
def Place.NoFolder (x : Place) : Prop := ∀ place d, x ≠ .found place (.folder d)

/-- What a name leads to in the folder at a place. -/
def Place.named (folder : List Text) (n : Text) : Option Entry → Place
  | none => .free folder n
  | some e => .found (folder ++ [n]) e

namespace Disk

open ActionSweep.Path (IsPart)

/-! ## Paths to folders -/

section Walks

variable {root : Dir} {jump jump' : List Text → List Text → Except FileProblem Place}

/-- Behind a path that does not lead to a folder, no path leads to one. -/
theorem walk_deadEnd
    (hjump : ∀ here parts x rest place d, root.FolderAt here → jump here parts = .ok x → x.NoFolder →
      jump' here (parts ++ rest) ≠ .ok (.found place (.folder d))) :
    ∀ (parts here : List Text) {x : Place}, root.FolderAt here → walk root .target jump here parts = .ok x →
      x.NoFolder → ∀ rest place d, walk root .target jump' here (parts ++ rest) ≠ .ok (.found place (.folder d))
  | [], here, x, ⟨inside, hhere⟩, h, hx, _, _, _ => by
    simp only [walk, hhere] at h
    cases h
    exact absurd rfl (hx here inside)
  | part :: parts, here, x, hhere, h, hx, rest, place, d => by
    rw [List.cons_append]
    rcases part_cases part with hp | rfl | hp
    · rw [walk_skip hp] at h ⊢
      exact walk_deadEnd hjump parts here hhere h hx rest place d
    · rw [walk_up] at h ⊢
      exact walk_deadEnd hjump parts _ hhere.dropLast h hx rest place d
    · rw [walk_down hp (by rintro ⟨⟩)] at h ⊢
      split at h
      · cases h
      rename_i hlen
      rw [if_neg hlen]
      split at h
      · split
        · rintro ⟨⟩
        · rintro ⟨⟩
      · rename_i inside hfolder
        exact walk_deadEnd hjump parts _ ⟨inside, hfolder⟩ h hx rest place d
      · split
        · rintro ⟨⟩
        · rintro ⟨⟩
      · rw [if_neg (by simp)] at h
        rw [if_neg (by simp), ← List.append_assoc]
        exact hjump _ _ x rest place d (hhere.start _) h hx

/-- The path to a folder in which a name leads somewhere. -/
theorem walk_front {aim : Aim} {n : Text} (hn : n ≠ [])
    (hjump : ∀ here front x, root.FolderAt here → jump here (front ++ [n]) = .ok x →
      ∃ place d, jump' here front = .ok (.found place (.folder d))) :
    ∀ (front here : List Text) {x : Place}, root.FolderAt here → walk root aim jump here (front ++ [n]) = .ok x →
      ∃ place d, walk root .target jump' here front = .ok (.found place (.folder d))
  | [], here, _, ⟨d, hd⟩, _ => ⟨here, d, by simp only [walk, hd]⟩
  | part :: front, here, x, hhere, h => by
    rw [List.cons_append] at h
    rcases part_cases part with hp | rfl | hp
    · rw [walk_skip hp] at h ⊢
      exact walk_front hn hjump front here hhere h
    · rw [walk_up] at h ⊢
      exact walk_front hn hjump front _ hhere.dropLast h
    · have hmore : (front ++ [n]).isEmpty = false := by simp
      have hslash : front ++ [n] ≠ [[]] := by
        intro he
        rcases List.append_eq_singleton_iff.1 he with ⟨-, he⟩ | ⟨-, he⟩
        · exact hn (List.cons.inj he).1
        · cases he
      rw [walk_down hp fun _ => hslash, hmore] at h
      rw [walk_down hp (by rintro ⟨⟩)]
      split at h
      · cases h
      rename_i hlen
      rw [if_neg hlen]
      split at h
      · cases h
      · rename_i inside hfolder
        exact walk_front hn hjump front _ ⟨inside, hfolder⟩ h
      · cases h
      · rw [Bool.false_and, if_neg (by decide), ← List.append_assoc] at h
        rw [if_neg (by simp)]
        exact hjump _ _ x (hhere.start _) h

/-- A link whose target is no folder. -/
def DeadLink (root : Dir) (here : List Text) (t : Text) : Prop :=
  ∃ n x, resolveParts root .target n (if ['/'].isPrefixOf t then [] else here) (steps t) = .ok x ∧ x.NoFolder

/-- Folders stay, and so do links, unless their target is no folder. -/
structure Outlasts (root root' : Dir) : Prop where
  folder : ∀ place, root.FolderAt place → root'.FolderAt place
  link : ∀ place t, root.find? place = some (.link t) →
    root'.find? place = some (.link t) ∨ DeadLink root place.dropLast t

theorem walk_outlasts {root' : Dir} (hout : Outlasts root root')
    (hjump : ∀ here parts place d, root.FolderAt here → jump here parts = .ok (.found place (.folder d)) →
      ∃ d', jump' here parts = .ok (.found place (.folder d')))
    (hdead : ∀ here t parts place d, root.FolderAt here → DeadLink root here t →
      jump (if ['/'].isPrefixOf t then [] else here) (steps t ++ parts) ≠ .ok (.found place (.folder d))) :
    ∀ (parts here : List Text) {place : List Text} {d : Dir}, root.FolderAt here →
      walk root .target jump here parts = .ok (.found place (.folder d)) →
      ∃ d', walk root' .target jump' here parts = .ok (.found place (.folder d'))
  | [], here, place, d, hhere, h => by
    obtain ⟨d', hd'⟩ := hout.folder here hhere
    obtain ⟨inside, hinside⟩ := hhere
    simp only [walk, hinside] at h
    cases h
    exact ⟨d', by simp only [walk, hd']⟩
  | part :: parts, here, place, d, hhere, h => by
    rcases part_cases part with hp | rfl | hp
    · rw [walk_skip hp] at h ⊢
      exact walk_outlasts hout hjump hdead parts here hhere h
    · rw [walk_up] at h ⊢
      exact walk_outlasts hout hjump hdead parts _ hhere.dropLast h
    · rw [walk_down hp (by rintro ⟨⟩)] at h ⊢
      split at h
      · cases h
      rename_i hlen
      rw [if_neg hlen]
      split at h
      · split at h <;> cases h
      · rename_i inside hfolder
        obtain ⟨inside', hfolder'⟩ := hout.folder _ ⟨inside, hfolder⟩
        rw [hfolder']
        exact walk_outlasts hout hjump hdead parts _ ⟨inside, hfolder⟩ h
      · split at h <;> cases h
      · rename_i t hlink
        rw [if_neg (by simp)] at h
        rcases hout.link _ t hlink with hlink' | hd
        · rw [hlink']
          dsimp only
          rw [if_neg (by simp)]
          exact hjump _ _ place d (hhere.start _) h
        · rw [List.dropLast_concat] at hd
          exact absurd h (hdead here t parts place d hhere hd)

end Walks

section Resolution

variable {root : Dir}

theorem resolveParts_deadEnd : ∀ (m n : Nat) {here parts : List Text} {x : Place}, root.FolderAt here →
    resolveParts root .target m here parts = .ok x → x.NoFolder →
    ∀ rest place d, resolveParts root .target n here (parts ++ rest) ≠ .ok (.found place (.folder d))
  | 0, n, here, parts, x, hhere, h, hx => by
    obtain ⟨jump', hjump'⟩ := resolveParts_walk root .target n
    rw [hjump']
    exact walk_deadEnd (by rintro _ _ _ _ _ _ _ ⟨⟩) parts here hhere h hx
  | m + 1, 0, here, parts, x, hhere, h, hx =>
    walk_deadEnd (by rintro _ _ _ _ _ _ _ _ _ ⟨⟩) parts here hhere
      (show walk root .target (resolveParts root .target m) here parts = .ok x from h) hx
  | m + 1, n + 1, here, parts, x, hhere, h, hx =>
    walk_deadEnd
      (fun _ _ _ rest place d hhere h hx => resolveParts_deadEnd m n hhere h hx rest place d) parts here hhere h hx

theorem resolveParts_front {aim : Aim} {n : Text} (hn : n ≠ []) :
    ∀ (links : Nat) {here front : List Text} {x : Place}, root.FolderAt here →
      resolveParts root aim links here (front ++ [n]) = .ok x →
      ∃ place d, resolveParts root .target links here front = .ok (.found place (.folder d))
  | 0, here, front, x, hhere, h => walk_front hn (by rintro _ _ _ _ ⟨⟩) front here hhere h
  | links + 1, here, front, x, hhere, h =>
    walk_front hn (fun _ _ _ hhere h => resolveParts_front hn links hhere h) front here hhere h

/-- Paths to folders lead to the same places in a tree in which folders and the links to them stay. -/
theorem resolveParts_outlasts {root' : Dir} (hout : Outlasts root root') :
    ∀ (n : Nat) {here parts place : List Text} {d : Dir}, root.FolderAt here →
      resolveParts root .target n here parts = .ok (.found place (.folder d)) →
      ∃ d', resolveParts root' .target n here parts = .ok (.found place (.folder d'))
  | 0, here, parts, place, d, hhere, h =>
    walk_outlasts hout (by rintro _ _ _ _ _ ⟨⟩) (by rintro _ _ _ _ _ _ _ ⟨⟩) parts here hhere h
  | n + 1, here, parts, place, d, hhere, h =>
    walk_outlasts hout (fun _ _ _ _ hhere h => resolveParts_outlasts hout n hhere h)
      (fun _ _ rest place d hhere ⟨m, _, hx, hno⟩ => resolveParts_deadEnd m n (hhere.start _) hx hno rest place d)
      parts here hhere h

/-- How a walk goes on at a link. -/
def follow (root : Dir) (aim : Aim) : Nat → List Text → List Text → Except FileProblem Place
  | 0 => fun _ _ => .error .tooManyLinks
  | n + 1 => resolveParts root aim n

theorem resolveParts_follow (root : Dir) (aim : Aim) (n : Nat) : resolveParts root aim n = walk root aim (follow root aim n) := by
  cases n with
  | zero => rfl
  | succ n => rfl

theorem resolveParts_name {aim : Aim} {m : Nat} {folder : List Text} {d : Dir} {n : Text}
    (hfind : root.find? folder = some (.folder d)) (hn : IsPart n) (hup : n ≠ ['.', '.']) :
    resolveParts root aim m folder [n] =
      if nameLimit < (Utf8.encode n).length then .error .nameTooLong
      else match d.get? n with
        | some (.link t) =>
          if aim = .entry then .ok (.found (folder ++ [n]) (.link t))
          else follow root aim m (if ['/'].isPrefixOf t then [] else folder) (steps t)
        | e => .ok (.named folder n e) := by
  rw [resolveParts_follow, walk_down ⟨hn.nonempty, hn.noDot, hup⟩ (by simp), Dir.find?_concat folder n hfind]
  refine if_congr Iff.rfl rfl ?_
  cases hget : d.get? n with
  | none => rfl
  | some e =>
    cases e with
    | file b => rfl
    | folder inside =>
      have hinside : root.find? (folder ++ [n]) = some (.folder inside) := by
        rw [Dir.find?_concat folder n hfind, hget]
      simp only [walk, hinside]
      rfl
    | link t => simp

/-- Nothing, a file, or a link whose target is no folder. -/
def Removable (root : Dir) (place : List Text) : Prop :=
  ∀ e, root.find? place = some e → (∃ b, e = .file b) ∨ ∃ t, e = .link t ∧ DeadLink root place.dropLast t

theorem Removable.not_below {place path : List Text} (h : Removable root place) (hpath : root.FolderAt path) :
    ¬ place <+: path := by
  rintro ⟨more, rfl⟩
  obtain ⟨d, hd⟩ := hpath
  by_cases hmore : more = []
  · rw [hmore, List.append_nil] at hd
    rcases h _ hd with ⟨b, ⟨⟩⟩ | ⟨t, ⟨⟩, -⟩
  · obtain ⟨inside, hinside, -⟩ := Dir.find?_folder_of_append hmore hd
    rcases h _ hinside with ⟨b, ⟨⟩⟩ | ⟨t, ⟨⟩, -⟩

/-- Changes where no folder stands, and no link to one, let folders and the links to them stay. -/
theorem outlasts_of_sameBut {root' : Dir} {places : List (List Text)} (hsame : root.SameBut places root')
    (hplaces : ∀ place ∈ places, Removable root place) : Outlasts root root' where
  folder path hpath := by
    have hshell := hsame path fun place hplace => (hplaces place hplace).not_below hpath
    obtain ⟨d, hd⟩ := hpath
    rw [hd, Option.map_some, Option.map_eq_some_iff] at hshell
    obtain ⟨e, he, hfolder⟩ := hshell
    obtain ⟨d', rfl⟩ := Entry.shell_eq_folder.1 hfolder
    exact ⟨d', he⟩
  link path t hlink := by
    by_cases hin : path ∈ places
    · rcases hplaces path hin _ hlink with ⟨b, ⟨⟩⟩ | ⟨_, ⟨⟩, hdead⟩
      exact .inr hdead
    · -- a link stands in a folder, so it stands below none of the places
      have hbelow : ∀ place ∈ places, ¬ place <+: path := by
        rintro place hplace ⟨more, rfl⟩
        have hmore : more ≠ [] := by
          rintro rfl
          exact hin (by rwa [List.append_nil])
        obtain ⟨inside, hinside, -⟩ := Dir.find?_folder_of_append hmore hlink
        exact (hplaces place hplace).not_below ⟨inside, hinside⟩ (List.prefix_refl place)
      have hshell := hsame path hbelow
      rw [hlink, Option.map_some, Option.map_eq_some_iff] at hshell
      obtain ⟨e, he, hshell⟩ := hshell
      rw [Entry.shell_eq_link.1 hshell] at he
      exact .inl he

end Resolution

end Disk

end ActionSweep
