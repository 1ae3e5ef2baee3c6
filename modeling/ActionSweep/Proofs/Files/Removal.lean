/-
A file tree without some of its files. Every other entry keeps its place and its order, folders stay
even if nothing is left in them, and a path leads where it led before unless a removed file stood
there. Removing files one by one removes them all at once.
-/
import ActionSweep.Deletion
import ActionSweep.Proofs.Files.Project
import ActionSweep.Proofs.Outcome

namespace ActionSweep

namespace Dir

/-- Without the files at some places; `here` is the place of the folder itself. -/
def drop (gone : List Text → Bool) (here : List Text) : Dir → Dir
  | empty => empty
  | file n b rest =>
    if gone (here ++ [n]) then rest.drop gone here else file n b (rest.drop gone here)
  | link n t rest => link n t (rest.drop gone here)
  | folder n d rest => folder n (d.drop gone (here ++ [n])) (rest.drop gone here)

end Dir

/-- What is left of an entry without the files at some places. -/
def Entry.drop (gone : List Text → Bool) (place : List Text) : Entry → Option Entry
  | .file b => if gone place then none else some (.file b)
  | .link t => some (.link t)
  | .folder d => some (.folder (d.drop gone place))

theorem Entry.drop_gone {gone : List Text → Bool} {place : List Text} (b : Bytes) (h : gone place = true) :
    (Entry.file b).drop gone place = none :=
  if_pos h

theorem Entry.drop_kept {gone : List Text → Bool} {place : List Text} (b : Bytes) (h : gone place = false) :
    (Entry.file b).drop gone place = some (.file b) :=
  if_neg (by rw [h]; decide)

theorem Entry.drop_folder {gone : List Text → Bool} {place : List Text} {e : Entry} {left : Dir}
    (h : e.drop gone place = some (.folder left)) : ∃ d, e = .folder d ∧ left = d.drop gone place := by
  cases e with
  | file b =>
    unfold Entry.drop at h
    simp only [Option.ite_none_left_eq_some] at h
    cases h.2
  | link t => cases h
  | folder d =>
    cases h
    exact ⟨d, rfl, rfl⟩

namespace Dir

variable {gone : List Text → Bool}

theorem names_drop (here : List Text) : ∀ d : Dir, (d.drop gone here).names.Sublist d.names
  | empty => .slnil
  | file n b rest => by
    unfold drop
    split
    · exact (names_drop here rest).cons _
    · exact (names_drop here rest).cons_cons _
  | link n t rest => (names_drop here rest).cons_cons _
  | folder n d rest => (names_drop here rest).cons_cons _

theorem WellFormed.drop : ∀ {d : Dir} {here : List Text}, d.WellFormed → (d.drop gone here).WellFormed
  | empty, _, _ => trivial
  | file n b rest, here, ⟨hn, hbelow, hrest⟩ => by
    unfold Dir.drop
    split
    · exact hrest.drop
    · exact ⟨hn, fun m hm => hbelow m ((names_drop here rest).subset hm), hrest.drop⟩
  | link n t rest, here, ⟨hn, hbelow, hrest⟩ =>
    ⟨hn, fun m hm => hbelow m ((names_drop here rest).subset hm), hrest.drop⟩
  | folder n d rest, here, ⟨hn, hbelow, hd, hrest⟩ =>
    ⟨hn, fun m hm => hbelow m ((names_drop here rest).subset hm), hd.drop, hrest.drop⟩

theorem get?_drop (n : Text) : ∀ {d : Dir} {here : List Text}, d.WellFormed →
    (d.drop gone here).get? n = (d.get? n).bind (Entry.drop gone (here ++ [n]))
  | empty, _, _ => rfl
  | file m b rest, here, ⟨_, hbelow, hrest⟩ => by
    have ih : (rest.drop gone here).get? n = _ := get?_drop n hrest
    unfold drop
    by_cases hm : m = n
    · subst hm
      -- the names behind this one are greater, so the rest does not have it again
      have hnone : (rest.drop gone here).get? m = none :=
        get?_eq_none fun h => ne_of_below hbelow ((names_drop here rest).subset h) rfl
      split
      · rename_i hg
        simp [get?, Entry.drop, hg, hnone]
      · rename_i hg
        simp [get?, Entry.drop, hg]
    · split
      · rw [ih, get?, if_neg hm]
      · rw [get?, get?, if_neg hm, if_neg hm, ih]
  | link m t rest, here, ⟨_, _, hrest⟩ => by
    have ih : (rest.drop gone here).get? n = _ := get?_drop n hrest
    unfold drop
    by_cases hm : m = n
    · simp [get?, hm, Entry.drop]
    · rw [get?, get?, if_neg hm, if_neg hm, ih]
  | folder m d rest, here, ⟨_, _, _, hrest⟩ => by
    have ih : (rest.drop gone here).get? n = _ := get?_drop n hrest
    unfold drop
    by_cases hm : m = n
    · subst hm; simp [get?, Entry.drop]
    · rw [get?, get?, if_neg hm, if_neg hm, ih]

/-- What stands at a path afterwards is what is left of what stood there. -/
theorem find?_drop {path : List Text} : ∀ {d : Dir} {here : List Text}, d.WellFormed →
    (d.drop gone here).find? path = (d.find? path).bind (Entry.drop gone (here ++ path)) := by
  induction path with
  | nil => intro d here _; rw [List.append_nil]; rfl
  | cons n path ih =>
    intro d here hd
    rw [find?_cons, find?_cons, get?_drop n hd]
    rcases hg : d.get? n with _ | e
    · rfl
    simp only [Option.bind_some]
    cases path with
    | nil =>
      rw [Entry.find?_nil, Option.bind_some]
      cases Entry.drop gone (here ++ [n]) e with
      | none => rfl
      | some f => exact Entry.find?_nil f
    | cons m path =>
      cases e with
      | folder inside =>
        have hin : (inside.drop gone (here ++ [n])).find? (m :: path) = _ :=
          ih ((hd.get? hg).wellFormed inside rfl)
        rw [List.append_assoc] at hin
        exact hin
      | link t => rfl
      | file b =>
        show (if gone (here ++ [n]) then none else some (Entry.file b)).bind _ = none
        split <;> rfl

theorem drop_file_gone {here : List Text} {n : Text} (b : Bytes) (rest : Dir) (h : gone (here ++ [n]) = true) :
    (file n b rest).drop gone here = rest.drop gone here := by
  rw [drop, if_pos h]

theorem drop_file_kept {here : List Text} {n : Text} (b : Bytes) (rest : Dir) (h : gone (here ++ [n]) = false) :
    (file n b rest).drop gone here = file n b (rest.drop gone here) := by
  rw [drop, if_neg (by rw [h]; decide)]

/-- Removing twice removes what either removal removes. -/
theorem drop_drop (g h : List Text → Bool) :
    ∀ (d : Dir) (here : List Text), (d.drop g here).drop h here = d.drop (fun p => g p || h p) here
  | empty, _ => rfl
  | file n b rest, here => by
    have ih := drop_drop g h rest here
    rcases hg : g (here ++ [n])
    · rw [drop_file_kept b rest hg]
      rcases hh : h (here ++ [n])
      · rw [drop_file_kept b _ hh, drop_file_kept b rest (by simp [hg, hh]), ih]
      · rw [drop_file_gone b _ hh, drop_file_gone b rest (by simp [hh]), ih]
    · rw [drop_file_gone b rest hg, drop_file_gone b rest (by simp [hg]), ih]
  | link n t rest, here => by simp only [drop, drop_drop g h rest here]
  | folder n d rest, here => by
    simp only [drop, drop_drop g h rest here, drop_drop g h d (here ++ [n])]

/-- Nothing changes if nothing below a folder is removed. -/
theorem drop_eq_self : ∀ {d : Dir} {here : List Text}, d.WellFormed →
    (∀ path b, path ≠ [] → d.find? path = some (.file b) → gone (here ++ path) = false) →
    d.drop gone here = d
  | empty, _, _, _ => rfl
  | file n b rest, here, ⟨_, hbelow, hrest⟩, h => by
    have hn := h [n] b (by simp) (by rw [find?_singleton, get?, if_pos rfl])
    unfold drop
    rw [hn, drop_eq_self hrest fun path c hne hc => h path c hne (find?_of_rest (e := .file b) hbelow hne hc)]
    rfl
  | link n t rest, here, ⟨_, hbelow, hrest⟩, h => by
    unfold drop
    rw [drop_eq_self hrest fun path c hne hc => h path c hne (find?_of_rest (e := .link t) hbelow hne hc)]
  | folder n d rest, here, ⟨_, hbelow, hd, hrest⟩, h => by
    unfold drop
    rw [drop_eq_self hrest fun path c hne hc => h path c hne (find?_of_rest (e := .folder d) hbelow hne hc),
      drop_eq_self hd fun path c hne hc => ?_]
    obtain ⟨m, ms, rfl⟩ := List.exists_cons_of_ne_nil hne
    rw [List.append_assoc]
    refine h (n :: m :: ms) c (by simp) ?_
    rw [show Dir.folder n d rest = cons n (.folder d) rest from rfl, find?_first, if_pos rfl]
    exact hc

/-! ## Removing one file -/

/-- Removing a place changes nothing below a name that does not lead there. -/
theorem drop_elsewhere {here path : List Text} {n : Text} {d : Dir} (hd : d.WellFormed) (hn : n ∉ d.names) :
    d.drop (fun p => decide (p = here ++ n :: path)) here = d := by
  refine drop_eq_self hd fun path' b hne hfind => decide_eq_false fun he => hn ?_
  obtain ⟨m, ms, rfl⟩ := List.exists_cons_of_ne_nil hne
  rw [List.append_cancel_left_eq] at he
  cases he
  rw [find?_cons, Option.bind_eq_some_iff] at hfind
  obtain ⟨f, hf, -⟩ := hfind
  exact mem_names_of_get? hf

theorem drop_inside_elsewhere {here path : List Text} {k n : Text} {d : Dir} (hd : d.WellFormed) (hk : k ≠ n) :
    d.drop (fun p => decide (p = here ++ n :: path)) (here ++ [k]) = d := by
  refine drop_eq_self hd fun path' b _ _ => decide_eq_false fun he => hk ?_
  rw [List.append_assoc, List.append_cancel_left_eq] at he
  exact (List.cons.inj he).1

theorem erase_eq_drop {n : Text} {b : Bytes} {here : List Text} :
    ∀ {d : Dir}, d.WellFormed → d.get? n = some (.file b) →
      d.erase n = d.drop (fun p => decide (p = here ++ [n])) here
  | empty, _, h => by cases h
  | file m c rest, ⟨_, hbelow, hrest⟩, h => by
    unfold erase
    by_cases hm : m = n
    · subst hm
      rw [if_pos rfl, drop_file_gone c rest (by simp),
        drop_elsewhere hrest fun h => ne_of_below hbelow h rfl]
    · rw [get?, if_neg hm] at h
      rw [if_neg hm, drop_file_kept c rest (by simpa using hm), erase_eq_drop hrest h]
  | link m t rest, ⟨_, hbelow, hrest⟩, h => by
    rw [get?] at h
    split at h
    · cases h
    · rename_i hm
      rw [erase, if_neg hm, drop, erase_eq_drop hrest h]
  | folder m d rest, ⟨_, hbelow, hd, hrest⟩, h => by
    rw [get?] at h
    split at h
    · cases h
    · rename_i hm
      rw [erase, if_neg hm, drop, erase_eq_drop hrest h, drop_inside_elsewhere hd hm]

/-- A folder is put in the place of the one with its name. -/
theorem put_eq_drop {n : Text} {inside : Dir} {here path : List Text} (hpath : path ≠ []) :
    ∀ {d : Dir}, d.WellFormed → d.get? n = some (.folder inside) →
      d.put n (.folder (inside.drop (fun p => decide (p = here ++ n :: path)) (here ++ [n]))) =
        d.drop (fun p => decide (p = here ++ n :: path)) here
  | empty, _, h => by cases h
  | file m c rest, ⟨_, hbelow, hrest⟩, h => by
    rw [get?] at h
    split at h
    · cases h
    · rename_i hm
      have hlt : ¬ n < m := List.lt_asymm (hbelow n (mem_names_of_get? h))
      rw [put, if_neg hm, if_neg hlt, drop_file_kept c rest (by simp [hpath, hm]), put_eq_drop hpath hrest h]
  | link m t rest, ⟨_, hbelow, hrest⟩, h => by
    rw [get?] at h
    split at h
    · cases h
    · rename_i hm
      have hlt : ¬ n < m := List.lt_asymm (hbelow n (mem_names_of_get? h))
      rw [put, if_neg hm, if_neg hlt, drop, put_eq_drop hpath hrest h]
  | folder m d rest, ⟨_, hbelow, hd, hrest⟩, h => by
    rw [get?] at h
    split at h
    · rename_i hm
      subst hm
      cases h
      rw [put, if_pos rfl, drop, drop_elsewhere hrest fun h => ne_of_below hbelow h rfl]
      rfl
    · rename_i hm
      have hlt : ¬ n < m := List.lt_asymm (hbelow n (mem_names_of_get? h))
      rw [put, if_neg hm, if_neg hlt, drop, put_eq_drop hpath hrest h, drop_inside_elsewhere hd hm]

/-- Erasing a file leaves what is left without it. -/
theorem eraseAt_eq_drop {b : Bytes} :
    ∀ {path here : List Text} {d : Dir}, d.WellFormed → d.find? path = some (.file b) →
      d.eraseAt path = d.drop (fun p => decide (p = here ++ path)) here
  | [], _, _, _, h => by cases h
  | [n], here, d, hd, h => erase_eq_drop hd h
  | n :: m :: path, here, d, hd, h => by
    rw [find?_cons, Option.bind_eq_some_iff] at h
    obtain ⟨f, hf, h⟩ := h
    cases f with
    | folder inside =>
      have ih : _ = inside.drop (fun p => decide (p = (here ++ [n]) ++ m :: path)) (here ++ [n]) :=
        eraseAt_eq_drop ((hd.get? hf).wellFormed inside rfl) h
      rw [List.append_assoc] at ih
      rw [eraseAt, hf]
      · simp only [ih]
        exact put_eq_drop (List.cons_ne_nil m path) hd hf
      · exact List.cons_ne_nil m path
    | file c | link t => cases h

end Dir

/-! ## Where paths lead afterwards -/

namespace Disk

/-- What is left of a file tree without the files at some places. -/
def without (disk : Disk) (gone : List Text → Bool) : Disk := disk.setRoot (disk.root.drop gone [])

/-- Nothing can be found, at a path that leads to a folder or at one that does not. -/
inductive Absent {ε : Type} (fault : FileProblem → ε) : Except ε Place → Prop
  | free (folder : List Text) (name : Text) : Absent fault (.ok (.free folder name))
  | nothing : Absent fault (.error (fault .notFound))

/-- Where a path leads before and after files at some places are removed. -/
inductive Remains {ε : Type} (gone : List Text → Bool) (fault : FileProblem → ε) :
    Except ε Place → Except ε Place → Prop
  | file (place : List Text) (b : Bytes) : gone place = false →
      Remains gone fault (.ok (.found place (.file b))) (.ok (.found place (.file b)))
  | lost (place : List Text) (b : Bytes) (after : Except ε Place) : gone place = true → Absent fault after →
      Remains gone fault (.ok (.found place (.file b))) after
  | link (place : List Text) (t : Text) :
      Remains gone fault (.ok (.found place (.link t))) (.ok (.found place (.link t)))
  | folder (place : List Text) (d : Dir) :
      Remains gone fault (.ok (.found place (.folder d))) (.ok (.found place (.folder (d.drop gone place))))
  | free (folder : List Text) (name : Text) :
      Remains gone fault (.ok (.free folder name)) (.ok (.free folder name))
  | refused (e : ε) : Remains gone fault (.error e) (.error e)
  /-- A path that goes on behind a file that is removed. -/
  | behind : Remains gone fault (.error (fault .notAFolder)) (.error (fault .notFound))

theorem Remains.mapError {ε ζ : Type} {gone : List Text → Bool} {fault : FileProblem → ε} (f : ε → ζ)
    {x x' : Except ε Place} (h : Remains gone fault x x') :
    Remains gone (fun p => f (fault p)) (x.mapError f) (x'.mapError f) := by
  cases h with
  | file place b hg => exact .file place b hg
  | lost place b _ hg ha =>
    refine .lost place b _ hg ?_
    cases ha with
    | free folder name => exact .free folder name
    | nothing => exact .nothing
  | link place t => exact .link place t
  | folder place d => exact .folder place d
  | free folder name => exact .free folder name
  | refused e => exact .refused (f e)
  | behind => exact .behind

section Walks

variable {root : Dir} {aim : Aim}

theorem walk_remains {gone : List Text → Bool} (hroot : root.WellFormed) (haim : aim ≠ .writing)
    {jump jump' : List Text → List Text → Except FileProblem Place}
    (hjump : ∀ here parts, Remains gone id (jump here parts) (jump' here parts)) :
    ∀ parts here : List Text,
      Remains gone id (walk root aim jump here parts) (walk (root.drop gone []) aim jump' here parts)
  | [], here => by
    simp only [walk, Dir.find?_drop hroot, List.nil_append]
    rcases root.find? here with _ | e
    · exact .refused _
    cases e with
    | file b =>
      rcases hg : gone here with _ | _
      · simpa [Entry.drop, hg] using .file here b hg
      · simpa [Entry.drop, hg] using .lost here b _ hg .nothing
    | link t => exact .link here t
    | folder d => exact .folder here d
  | part :: parts, here => by
    rcases part_cases part with hp | rfl | hp
    · rw [walk_skip hp, walk_skip hp]
      exact walk_remains hroot haim hjump parts here
    · rw [walk_up, walk_up]
      exact walk_remains hroot haim hjump parts _
    -- the tree is looked at where the walk goes down, and a removed file shows as nothing there
    · rw [walk_down hp fun h => absurd h haim, walk_down hp fun h => absurd h haim, Dir.find?_drop hroot, List.nil_append]
      split
      · exact .refused _
      rcases root.find? (here ++ [part]) with _ | e
      · simp only [Option.bind_none]
        split
        · exact .free here part
        · exact .refused _
      cases e with
      | folder d => exact walk_remains hroot haim hjump parts _
      | file b =>
        rcases hg : gone (here ++ [part]) with _ | _
        · simp only [Option.bind_some, Entry.drop_kept b hg]
          split
          · exact .file _ b hg
          · exact .refused _
        · simp only [Option.bind_some, Entry.drop_gone b hg]
          split
          · exact .lost _ b _ hg (.free here part)
          · exact .behind
      | link t =>
        simp only [Option.bind_some, Entry.drop]
        split
        · exact .link _ t
        · exact hjump _ _

theorem resolveParts_remains (gone : List Text → Bool) (hroot : root.WellFormed) (haim : aim ≠ .writing) :
    ∀ (n : Nat) (here parts : List Text),
      Remains gone id (resolveParts root aim n here parts) (resolveParts (root.drop gone []) aim n here parts)
  | 0, here, parts => walk_remains hroot haim (fun _ _ => .refused _) parts here
  | n + 1, here, parts => walk_remains hroot haim (resolveParts_remains gone hroot haim n) parts here

end Walks

variable {disk : Disk} {gone : List Text → Bool}

/-- Every path leads where it led before, unless it led to or behind a removed file. -/
theorem resolve_remains (gone : List Text → Bool) (hroot : disk.root.WellFormed) {aim : Aim} (haim : aim ≠ .writing) (path : Text) :
    Remains gone (refuse · path) (disk.resolve aim path) ((disk.without gone).resolve aim path) := by
  unfold resolve
  split
  · exact .refused _
  have hparts := resolveParts_remains gone hroot haim linkLimit
    (if ['/'].isPrefixOf path then [] else disk.workingFolder) (steps path)
  split
  · exact .refused _
  split
  · exact .refused _
  exact hparts.mapError fun problem => refuse problem path

/-- What leads to a folder, or cannot be asked about, is the same afterwards. -/
theorem isFolder_without (hroot : disk.root.WellFormed) (path : Text) :
    (disk.without gone).isFolder path = disk.isFolder path := by
  have h := resolve_remains gone hroot (show Aim.target ≠ .writing by decide) path
  unfold isFolder test
  generalize disk.resolve .target path = x at h ⊢
  generalize (disk.without gone).resolve .target path = x' at h ⊢
  cases h with
  | lost place b _ hg ha =>
    cases ha with
    | free folder name => rfl
    | nothing => rfl
  | file place b hg => rfl
  | link place t => rfl
  | folder place d => rfl
  | free folder name => rfl
  | refused e => rfl
  | behind => rfl

theorem leadsToFolder_without (hroot : disk.root.WellFormed) (path : Text) :
    (disk.without gone).leadsToFolder path = disk.leadsToFolder path := by
  unfold leadsToFolder
  rw [isFolder_without hroot]

/-- A removed file is not present. -/
theorem present_of_gone (hroot : disk.root.WellFormed) {path : Text} {place : List Text} {b : Bytes}
    (h : disk.resolve .target path = .ok (.found place (.file b))) (hg : gone place = true) :
    (disk.without gone).present path = .ok false := by
  have hr := resolve_remains gone hroot (show Aim.target ≠ .writing by decide) path
  rw [h] at hr
  unfold present test
  generalize (disk.without gone).resolve .target path = x' at hr ⊢
  cases hr with
  | file _ _ hg' => rw [hg] at hg'; cases hg'
  | lost _ _ _ _ ha =>
    cases ha with
    | free folder name => rfl
    | nothing => rfl

/-- What is present is present afterwards, unless it is a removed file. -/
theorem present_without (hroot : disk.root.WellFormed) (path : Text)
    (h : ∀ place b, disk.resolve .target path = .ok (.found place (.file b)) → gone place = false) :
    (disk.without gone).present path = disk.present path := by
  have hr := resolve_remains gone hroot (show Aim.target ≠ .writing by decide) path
  unfold present test
  generalize disk.resolve .target path = x at hr h ⊢
  generalize (disk.without gone).resolve .target path = x' at hr ⊢
  cases hr with
  | lost place b _ hg _ => rw [h place b rfl] at hg; cases hg
  | file place b hg => rfl
  | link place t => rfl
  | folder place d => rfl
  | free folder name => rfl
  | refused e => rfl
  | behind => rfl

/-- A folder that leads somewhere keeps what is left in it. -/
theorem resolve_folder_without (hroot : disk.root.WellFormed) {aim : Aim} (haim : aim ≠ .writing)
    {path : Text} {place : List Text} {d : Dir} (h : disk.resolve aim path = .ok (.found place (.folder d))) :
    (disk.without gone).resolve aim path = .ok (.found place (.folder (d.drop gone place))) := by
  have hr := resolve_remains gone hroot haim path
  rw [h] at hr
  generalize (disk.without gone).resolve aim path = x' at hr ⊢
  cases hr
  rfl

/-- What is listed afterwards is what is left of what was listed. -/
theorem list_without (hroot : disk.root.WellFormed) {path : Text} {place : List Text} {d : Dir}
    (h : disk.resolve .target path = .ok (.found place (.folder d))) :
    (disk.without gone).list path = .ok (d.drop gone place) :=
  list_ok.2 ⟨place, resolve_folder_without hroot (by decide) h⟩

/-- A file that stays is found as before. -/
theorem resolve_file_without (hroot : disk.root.WellFormed) {aim : Aim} (haim : aim ≠ .writing)
    {path : Text} {place : List Text} {b : Bytes} (h : disk.resolve aim path = .ok (.found place (.file b)))
    (hg : gone place = false) :
    (disk.without gone).resolve aim path = .ok (.found place (.file b)) := by
  have hr := resolve_remains gone hroot haim path
  rw [h] at hr
  generalize (disk.without gone).resolve aim path = x' at hr ⊢
  cases hr with
  | file place b _ => rfl
  | lost place b _ hg' _ => rw [hg] at hg'; cases hg'

/-- A file that is found afterwards was there before and stays. -/
theorem resolve_file_of_without (hroot : disk.root.WellFormed) {aim : Aim} (haim : aim ≠ .writing)
    {path : Text} {place : List Text} {b : Bytes}
    (h : (disk.without gone).resolve aim path = .ok (.found place (.file b))) :
    disk.resolve aim path = .ok (.found place (.file b)) ∧ gone place = false := by
  have hr := resolve_remains gone hroot haim path
  rw [h] at hr
  generalize disk.resolve aim path = x at hr ⊢
  cases hr with
  | file place b hg => exact ⟨rfl, hg⟩
  | lost place b _ _ ha => cases ha

/-- Reading ends as before, unless what is read is a removed file. -/
theorem read_without (hroot : disk.root.WellFormed) (path : Text)
    (h : ∀ place b, disk.resolve .target path = .ok (.found place (.file b)) → gone place = false) :
    (disk.without gone).read path = disk.read path ∨
      (∃ f, disk.read path = .error (.file f)) ∧ ∃ f, (disk.without gone).read path = .error (.file f) := by
  have hr := resolve_remains gone hroot (show Aim.target ≠ .writing by decide) path
  unfold read
  generalize disk.resolve .target path = x at hr h ⊢
  generalize (disk.without gone).resolve .target path = x' at hr ⊢
  cases hr with
  | file place b hg => exact .inl rfl
  | lost place b _ hg ha => rw [h place b rfl] at hg; cases hg
  | link place t => exact .inl rfl
  | folder place d => exact .inl rfl
  | free folder name => exact .inl rfl
  | refused e => exact .inl rfl
  | behind => exact .inr ⟨⟨_, rfl⟩, ⟨_, rfl⟩⟩

end Disk

end ActionSweep
