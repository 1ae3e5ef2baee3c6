/-
Removing folders. Whatever a path leads to, what is removed for it are folders without files at or below one place, and
all faults are those of the file system. A path that names a folder itself is removed as a whole or not at all.
-/
import ActionSweep.Proofs.Files.FolderRemoval
import ActionSweep.Proofs.Files.Listing
import ActionSweep.Proofs.Files.Outside

namespace ActionSweep

namespace EmptyFolders

open Disk (Clears)
open ActionSweep.Outcome (left work_bind_ok)

variable {disk disk' : Disk} {start path : Path} {gone : List (List Text)} {α β : Type}

/-! ## Work that removes folders below a path -/

/-- Folders were cleared to which paths behind a path lead, and the work ended well or with a fault of the file system. -/
structure Strips (start : Path) (disk : Disk) (x : EStateM.Result Fault Disk α) (gone : List (List Text)) : Prop where
  clears : Clears gone disk (left x)
  named : ∀ place ∈ gone, ∃ names d, (∀ n ∈ names, IsName n) ∧
    disk.resolve .entry (Path.mk start.anchor (start.parts ++ names)).text = .ok (.found place (.folder d))
  fault : ∀ f disk', x = .error f disk' → f.isFile = true

theorem strips_none (hroot : disk.root.WellFormed) {x : EStateM.Result Fault Disk α} (hx : left x = disk)
    (hfault : ∀ f disk', x = .error f disk' → f.isFile = true) : Strips start disk x [] :=
  ⟨by rw [hx]; exact Disk.clears_refl hroot, by simp, hfault⟩

theorem Strips.bind {work : FileWork α} {next : α → FileWork β} (h : Strips start disk (work disk) gone)
    (hnext : ∀ a disk', work disk = .ok a disk' → disk'.root.WellFormed →
      ∃ more, Strips start disk' (next a disk') more) :
    ∃ all, Strips start disk ((work >>= next) disk) all := by
  show ∃ all, Strips start disk (EStateM.bind work next disk) all
  unfold EStateM.bind
  cases hwork : work disk with
  | error f disk' =>
    rw [hwork] at h
    refine ⟨gone, h.clears, h.named, ?_⟩
    rintro _ _ ⟨⟩
    exact h.fault f disk' rfl
  | ok a disk' =>
    rw [hwork] at h
    obtain ⟨more, hmore⟩ := hnext a disk' hwork h.clears.wellFormed
    refine ⟨gone ++ more, h.clears.trans hmore.clears, fun place hplace => ?_, hmore.fault⟩
    rcases List.mem_append.1 hplace with hplace | hplace
    · exact h.named place hplace
    · obtain ⟨names, d, hnames, hfound⟩ := hmore.named place hplace
      obtain ⟨d', hd'⟩ := h.clears.folder (by decide) hfound
      exact ⟨names, d', hnames, hd'⟩

theorem strips_ask (hroot : disk.root.WellFormed) {question : Disk → Except Fault α}
    (hfault : ∀ f, question disk = .error f → f.isFile = true) : Strips start disk (FileWork.ask question disk) [] := by
  unfold FileWork.ask
  cases hq : question disk with
  | ok a => exact strips_none hroot rfl (by rintro _ _ ⟨⟩)
  | error f =>
    refine strips_none hroot rfl ?_
    rintro _ _ ⟨⟩
    exact hfault f hq

section Names

variable (hstart : start.Normal) (hzero : '\x00' ∉ start.text)
include hstart hzero

theorem strips_remove (hroot : disk.root.WellFormed) (names : List Text) (hnames : ∀ n ∈ names, IsName n) :
    ∃ gone, Strips start disk
      (FileWork.change (·.removeFolder (Path.mk start.anchor (start.parts ++ names)).text) disk) gone := by
  unfold FileWork.change
  dsimp only
  cases hremove : disk.removeFolder (Path.mk start.anchor (start.parts ++ names)).text with
  | error f =>
    refine ⟨[], strips_none hroot rfl ?_⟩
    rintro _ _ ⟨⟩
    exact Disk.removeFolder_fault (Disk.zero_not_mem_below hzero hnames) hremove
  | ok disk' =>
    obtain ⟨place, hx, hclears⟩ := Disk.removeFolder_clears hroot (Disk.normal_below hstart hnames) hremove
    refine ⟨[place], hclears, fun q hq => ?_, by rintro _ _ ⟨⟩⟩
    rw [List.mem_singleton.1 hq]
    exact ⟨names, .empty, hnames, hx⟩

theorem removeBelow_strips : ∀ {d : Dir} (names : List Text) {disk : Disk}, d.WellFormed → disk.root.WellFormed →
    (∀ n ∈ names, IsName n) →
    ∃ gone, Strips start disk (removeBelow ⟨start.anchor, start.parts ++ names⟩ d disk) gone
  | .empty, _, _, _, hroot, _ => ⟨[], strips_none hroot rfl (by rintro _ _ ⟨⟩)⟩
  | .file _ _ rest, _, _, ⟨_, _, hrest⟩, hroot, hnames | .link _ _ rest, _, _, ⟨_, _, hrest⟩, hroot, hnames =>
    removeBelow_strips (d := rest) _ hrest hroot hnames
  | .folder n inside rest, names, disk, ⟨hn, _, hinside, hrest⟩, hroot, hnames => by
    have hmore : ∀ m ∈ names ++ [n], IsName m := by
      simpa [or_imp, forall_and] using ⟨hnames, hn⟩
    rw [removeBelow, Dir.under_name _ hn.part, List.append_assoc]
    refine (strips_ask hroot fun f hf => Disk.list_fault (Disk.zero_not_mem_below hzero hmore) hf).bind fun _ _ _ hroot => ?_
    obtain ⟨_, hstrips⟩ := removeBelow_strips _ hinside hroot hmore
    refine hstrips.bind fun _ _ _ hroot => ?_
    obtain ⟨_, hstrips⟩ := strips_remove hstart hzero hroot _ hmore
    exact hstrips.bind fun _ _ _ hroot => removeBelow_strips _ hrest hroot hnames

theorem removeTree_strips (hroot : disk.root.WellFormed) : ∃ gone, Strips start disk (removeTree start disk) gone := by
  unfold removeTree
  refine (strips_ask hroot fun f hf => Disk.list_fault hzero hf).bind fun d disk' hlist hroot' => ?_
  have hd : d.WellFormed := by
    obtain ⟨place, hplace⟩ := Disk.list_ok.1 (FileWork.ask_ok hlist).1
    exact Disk.wellFormed_of_resolve hroot hstart hplace
  have hbelow := removeBelow_strips hstart hzero [] hd hroot' (by simp)
  have hself := fun (disk : Disk) (hroot : disk.root.WellFormed) => strips_remove hstart hzero hroot [] (by simp)
  rw [List.append_nil] at hbelow hself
  obtain ⟨_, hstrips⟩ := hbelow
  exact hstrips.bind fun _ disk'' _ hroot => hself disk'' hroot

end Names

/-! ## Whole folders -/

theorem askAbout_ok {p : Path} {u : Unit} : askAbout p = .ok u ↔ (Utf8.encode p.text).length ≤ Disk.pathLimit := by
  unfold askAbout
  split
  · rename_i hlong
    simp [Nat.not_le.2 hlong]
  · rename_i hshort
    simp [Nat.le_of_not_lt hshort]

theorem lookInto_folder {p : Path} {n : Text} {inside rest : Dir} : lookInto p (.folder n inside rest) = .ok true ↔
    (Utf8.encode (p.under n).text).length ≤ Disk.pathLimit ∧ lookInto (p.under n) inside = .ok true ∧
      lookInto p rest = .ok true := by
  rw [lookInto, Outcome.bind_ok]
  constructor
  · rintro ⟨u, hask, h⟩
    obtain ⟨b, hb, h⟩ := Outcome.bind_ok.1 h
    cases b with
    | false => cases h
    | true => exact ⟨askAbout_ok.1 hask, hb, h⟩
  · rintro ⟨hshort, hinside, hrest⟩
    exact ⟨(), askAbout_ok.2 hshort, Outcome.bind_ok.2 ⟨true, hinside, hrest⟩⟩

theorem linkFree_of_holdsNoFile : ∀ {d : Dir}, d.holdsNoFile = true → d.LinkFree
  | .empty, _ => trivial
  | .folder n inside rest, h => by
    rw [Dir.holdsNoFile, Bool.and_eq_true] at h
    exact ⟨linkFree_of_holdsNoFile h.1, linkFree_of_holdsNoFile h.2⟩

/-- A folder that looks empty holds no file. -/
theorem holdsNoFile_of_lookInto {p : Path} : ∀ {d : Dir}, lookInto p d = .ok true → d.holdsNoFile = true
  | .empty, _ => rfl
  | .file n b rest, h | .link n b rest, h => by
    obtain ⟨_, -, h⟩ := Outcome.bind_ok.1 h
    cases h
  | .folder n inside rest, h => by
    obtain ⟨-, hinside, hrest⟩ := lookInto_folder.1 h
    rw [Dir.holdsNoFile, holdsNoFile_of_lookInto hinside, holdsNoFile_of_lookInto hrest]
    rfl

/-- What was cleared lies inside the folder at a place. -/
def ClearsInside (disk : Disk) (place : List Text) (disk' : Disk) : Prop :=
  ∃ gone, Clears gone disk disk' ∧ ∀ q ∈ gone, ∃ more, more ≠ [] ∧ q = place ++ more

section Inside

variable {moment moment' : Disk} {place names : List Text} {d : Dir}

theorem clearsInside_refl (hroot : disk.root.WellFormed) : ClearsInside disk place disk :=
  ⟨[], Disk.clears_refl hroot, by simp⟩

theorem ClearsInside.trans (h : ClearsInside disk place moment) (h' : ClearsInside moment (place ++ names) moment') :
    ClearsInside disk place moment' := by
  obtain ⟨gone, hclears, hgone⟩ := h
  obtain ⟨more, hclears', hmore⟩ := h'
  refine ⟨gone ++ more, hclears.trans hclears', fun q hq => ?_⟩
  rcases List.mem_append.1 hq with hq | hq
  · exact hgone q hq
  · obtain ⟨path, hne, rfl⟩ := hmore q hq
    exact ⟨names ++ path, by simp [hne], List.append_assoc ..⟩

/-- The folder itself stays. -/
theorem ClearsInside.folderAt (h : ClearsInside disk place moment) (hplace : disk.root.FolderAt place) :
    moment.root.FolderAt place := by
  obtain ⟨gone, hclears, hgone⟩ := h
  refine (hclears.cleared.folderAt hplace).resolve_right ?_
  rintro ⟨q, hq, hprefix⟩
  obtain ⟨more, hne, rfl⟩ := hgone q hq
  have hlen := hprefix.length_le
  rw [List.length_append] at hlen
  have hpos := List.length_pos_iff.2 hne
  omega

theorem ClearsInside.stays (h : ClearsInside disk place moment) {path : List Text} {e : Entry} (hpath : ¬ place <+: path)
    (he : disk.root.find? path = some e) : moment.root.StillHas path e := by
  obtain ⟨gone, hclears, hgone⟩ := h
  refine hclears.cleared.stays (fun q hq hprefix => hpath ?_) he
  obtain ⟨more, -, rfl⟩ := hgone q hq
  exact (List.prefix_append place more).trans hprefix

variable (hpath : path.Normal) (hzero : '\x00' ∉ path.text) (houtside : disk.LeadsFromOutside path place)
  (hplace : disk.root.FolderAt place)
include houtside hplace

/-- A path that leads to a folder from outside leads to it while what is inside is cleared. -/
theorem ClearsInside.leads (h : ClearsInside disk place moment) :
    ∃ d, moment.leads .target path = .ok (.found place (.folder d)) := by
  obtain ⟨d, hd⟩ := h.folderAt hplace
  obtain ⟨gone, hclears, -⟩ := id h
  refine ⟨d, ?_⟩
  rw [hclears.disk_eq]
  exact houtside.leads hd fun path e hout he => h.stays hout he

include hpath hzero

/-- Behind it, paths over names lead to the folders inside. -/
theorem ClearsInside.resolve (h : ClearsInside disk place moment) {aim : Disk.Aim} (haim : aim ≠ .writing) (hne : names ≠ [])
    (hfind : moment.root.find? (place ++ names) = some (.folder d))
    (hshort : (Utf8.encode (Path.mk path.anchor (path.parts ++ names)).text).length ≤ Disk.pathLimit) :
    moment.resolve aim (Path.mk path.anchor (path.parts ++ names)).text = .ok (.found (place ++ names) (.folder d)) := by
  obtain ⟨top, htop⟩ := h.leads houtside hplace
  obtain ⟨gone, hclears, -⟩ := h
  have hnames : ∀ n ∈ names, IsName n := fun n hn => (hclears.wellFormed.find? hfind).1 n (List.mem_append_right _ hn)
  refine (Disk.resolve_text_ok (Disk.normal_below hpath hnames)).2 ⟨⟨Disk.zero_not_mem_below hzero hnames, hshort⟩, ?_⟩
  refine Disk.leads_names hclears.wellFormed haim htop hne ?_ (.inr (by rintro _ ⟨⟩))
  rw [Dir.find?_inside (Disk.resolveParts_found htop)] at hfind
  exact hfind

/-- An empty folder inside is removed. -/
theorem removeFolder_inside (h : ClearsInside disk place moment) {n : Text}
    (hfind : moment.root.find? (place ++ (names ++ [n])) = some (.folder .empty))
    (hshort : (Utf8.encode (Path.mk path.anchor (path.parts ++ (names ++ [n]))).text).length ≤ Disk.pathLimit) :
    ∃ moment', FileWork.change (·.removeFolder (Path.mk path.anchor (path.parts ++ (names ++ [n]))).text) moment =
        .ok () moment' ∧
      Clears [place ++ (names ++ [n])] moment moment' := by
  have hroot : moment.root.WellFormed := h.choose_spec.1.wellFormed
  have hnames : ∀ m ∈ names ++ [n], IsName m := fun m hm => (hroot.find? hfind).1 m (List.mem_append_right _ hm)
  have hnormal := Disk.normal_below hpath hnames
  have hnamed : Disk.nameless? (Path.mk path.anchor (path.parts ++ (names ++ [n]))).text = none := by
    rw [← List.append_assoc] at hnormal ⊢
    rw [Disk.nameless?_concat hnormal, if_neg (hnames n (by simp)).notUp]
  have hresolve := h.resolve hpath hzero houtside hplace (show Disk.Aim.entry ≠ .writing by decide) (by simp) hfind hshort
  have hremove := Disk.removeFolder_runs hnamed hresolve
  refine ⟨_, ?_, Disk.clears_eraseAt hroot (by simp) hfind⟩
  simp only [FileWork.change, hremove]

omit houtside hplace hpath hzero in
/-- What a tree shows below a place, it shows below the first folder there. -/
theorem shows_first {at_ : List Text} {root : Dir} {n : Text} {inside rest : Dir}
    (hshows : ∀ more, more ≠ [] →
      (root.find? (at_ ++ more)).map Entry.shell = ((Dir.folder n inside rest).find? more).map Entry.shell)
    (more : List Text) : (root.find? (at_ ++ [n] ++ more)).map Entry.shell = (inside.find? more).map Entry.shell := by
  rw [List.append_assoc, List.singleton_append, hshows _ (List.cons_ne_nil n more), Dir.find?_folder, if_pos rfl]

omit houtside hplace hpath hzero in
/-- Without the first folder, a tree shows what is behind it. -/
theorem shows_rest {at_ : List Text} {root root' : Dir} {n : Text} {inside rest : Dir} {gone : List (List Text)}
    (hshows : ∀ more, more ≠ [] →
      (root.find? (at_ ++ more)).map Entry.shell = ((Dir.folder n inside rest).find? more).map Entry.shell)
    (hbelow : ∀ m ∈ rest.names, n < m) (hclears : root.Cleared gone root') (hin : at_ ++ [n] ∈ gone)
    (hgone : ∀ q ∈ gone, at_ ++ [n] <+: q) (more : List Text) (hne : more ≠ []) :
    (root'.find? (at_ ++ more)).map Entry.shell = (rest.find? more).map Entry.shell := by
  obtain ⟨k, more, rfl⟩ := List.exists_cons_of_ne_nil hne
  by_cases hk : n = k
  · subst hk
    have hrest : rest.find? (n :: more) = none := by
      rw [Dir.find?_cons, Dir.get?_eq_none fun hn => Dir.ne_of_below hbelow hn rfl]
      rfl
    rw [hrest, hclears.none hin ⟨more, by simp⟩]
  · have hout : ∀ q ∈ gone, ¬ q <+: at_ ++ k :: more := by
      intro q hq hprefix
      have hfirst := (hgone q hq).trans hprefix
      rw [List.prefix_append_right_inj, List.cons_prefix_cons] at hfirst
      exact hk hfirst.1
    rw [hclears.same _ hout, hshows _ (List.cons_ne_nil k more), Dir.find?_folder, if_neg hk]

/-- Everything inside a folder that looks empty is removed. -/
theorem removeBelow_runs : ∀ {d : Dir} (names : List Text) {moment : Disk}, d.WellFormed →
    lookInto ⟨path.anchor, path.parts ++ names⟩ d = .ok true → ClearsInside disk place moment →
    (∀ more, more ≠ [] → (moment.root.find? (place ++ names ++ more)).map Entry.shell = (d.find? more).map Entry.shell) →
    ∃ moment', removeBelow ⟨path.anchor, path.parts ++ names⟩ d moment = .ok () moment' ∧
      ClearsInside moment (place ++ names) moment' ∧
      ∀ more, more ≠ [] → moment'.root.find? (place ++ names ++ more) = none
  | .empty, names, moment, _, _, h, hshows => by
    refine ⟨moment, rfl, clearsInside_refl h.choose_spec.1.wellFormed, fun more hne => ?_⟩
    obtain ⟨n, more, rfl⟩ := List.exists_cons_of_ne_nil hne
    have hshell := hshows _ hne
    rw [Dir.find?_cons] at hshell
    exact Option.map_eq_none_iff.1 hshell
  | .file n b rest, names, moment, _, hlook, _, _ | .link n b rest, names, moment, _, hlook, _, _ => by
    cases holdsNoFile_of_lookInto hlook
  | .folder n inside rest, names, moment, ⟨hn, hbelow, hinside, hrest⟩, hlook, h, hshows => by
    rw [lookInto_folder, Dir.under_name _ hn.part, List.append_assoc] at hlook
    obtain ⟨hshort, hlookInside, hlookRest⟩ := hlook
    have hfirst := shows_first hshows
    -- the folder is listed,
    obtain ⟨x, hx⟩ : ∃ x, moment.root.find? (place ++ (names ++ [n])) = some (.folder x) := by
      have hshell := hfirst []
      rw [List.append_nil, List.append_assoc, show inside.find? [] = some (.folder inside) from rfl, Option.map_some,
        Option.map_eq_some_iff] at hshell
      obtain ⟨e, he, hshell⟩ := hshell
      obtain ⟨x, rfl⟩ := Entry.shell_eq_folder.1 hshell
      exact ⟨x, he⟩
    have hlist : moment.list (Path.mk path.anchor (path.parts ++ (names ++ [n]))).text = .ok x :=
      Disk.list_ok.2 ⟨_, h.resolve hpath hzero houtside hplace (by decide) (by simp) hx hshort⟩
    -- emptied,
    obtain ⟨moment₁, hrun₁, hclears₁, hnone₁⟩ := removeBelow_runs _ hinside hlookInside h fun more _ => by
      rw [← List.append_assoc]
      exact hfirst more
    have h₁ := h.trans hclears₁
    have hempty : moment₁.root.find? (place ++ (names ++ [n])) = some (.folder .empty) := by
      obtain ⟨y, hy⟩ := hclears₁.folderAt ⟨x, hx⟩
      have hno : ∀ k, y.get? k = none := fun k => by
        rw [← Dir.find?_concat _ k hy]
        exact hnone₁ [k] (by simp)
      rw [hy, Dir.eq_empty_of_get? hno]
    -- and removed; what is left is the rest
    obtain ⟨moment₂, hrun₂, hclears₂⟩ := removeFolder_inside hpath hzero houtside hplace h₁ hempty hshort
    obtain ⟨gone, hclears, hgone⟩ := hclears₁
    have hboth := hclears.trans hclears₂
    have hprefix : ∀ q ∈ gone ++ [place ++ (names ++ [n])], place ++ names ++ [n] <+: q := by
      intro q hq
      rw [List.append_assoc]
      rcases List.mem_append.1 hq with hq | hq
      · obtain ⟨more, -, rfl⟩ := hgone q hq
        exact List.prefix_append _ more
      · rw [List.mem_singleton.1 hq]
    have h₂ : ClearsInside moment (place ++ names) moment₂ := by
      refine ⟨_, hboth, fun q hq => ?_⟩
      obtain ⟨more, rfl⟩ := hprefix q hq
      exact ⟨n :: more, List.cons_ne_nil n more, by simp⟩
    obtain ⟨moment₃, hrun₃, hclears₃, hnone₃⟩ := removeBelow_runs names hrest hlookRest (h.trans h₂)
      (shows_rest hshows hbelow hboth.cleared (by simp) hprefix)
    rw [← List.append_nil (place ++ names)] at hclears₃
    refine ⟨moment₃, ?_, h₂.trans hclears₃, hnone₃⟩
    rw [removeBelow, Dir.under_name _ hn.part, List.append_assoc]
    simp only [bind, EStateM.bind, FileWork.ask, hlist, hrun₁, hrun₂, hrun₃]

end Inside

section Whole

variable {place : List Text} {d : Dir}

/-- A folder that looks empty is removed as a whole, if its path names it. -/
theorem removeTree_runs (hroot : disk.root.WellFormed) (hpath : path.Normal) (hnames : disk.NamesFolder path.text place)
    (hfound : disk.resolve .target path.text = .ok (.found place (.folder d))) (hlook : lookInto path d = .ok true) :
    ∃ disk', removeTree path disk = .ok () disk' := by
  have hask := ((Disk.resolve_text_ok hpath).1 hfound).1
  have hfind : disk.root.find? place = some (.folder d) := Disk.resolve_stands hfound
  have houtside := hnames.outside
  rw [Path.ofText_text hpath] at houtside
  obtain ⟨moment, hrun, hclears, hnone⟩ := removeBelow_runs hpath hask.1 houtside ⟨d, hfind⟩ []
    ((hroot.find? hfind).2 d rfl) (by rwa [List.append_nil]) (clearsInside_refl hroot) fun more _ => by
      rw [List.append_nil, Dir.find?_inside hfind]
  rw [List.append_nil] at hrun hclears hnone
  obtain ⟨top, htop⟩ := hclears.leads houtside ⟨d, hfind⟩
  obtain ⟨gone, hgone, -⟩ := hclears
  obtain ⟨top', hentry⟩ := (hnames.cleared hpath hgone ⟨top, (Disk.resolve_text_ok hpath).2 ⟨hask, htop⟩⟩).entry
  have hno : ∀ n, top'.get? n = none := fun n => by
    rw [← Dir.find?_concat place n (Disk.resolve_stands hentry)]
    exact hnone [n] (by simp)
  rw [Dir.eq_empty_of_get? hno] at hentry
  have hlist := Disk.list_ok.2 ⟨place, hfound⟩
  have hremove := Disk.removeFolder_runs hnames.named hentry
  exact ⟨_, by simp only [removeTree, bind, EStateM.bind, FileWork.ask, FileWork.change, hlist, hrun, hremove]; rfl⟩

/-- What a path leads to when it is to be removed, and what was cleared for it. -/
structure ClearsBelow (disk : Disk) (path : Path) (place : List Text) (gone : List (List Text)) (disk' : Disk) : Prop where
  leads : disk.ReachesFolder path.text place
  clears : Clears gone disk disk'
  below : ∀ q ∈ gone, place <+: q

/-- The ways in which the removal of one folder ends. It stops in between only for paths that do not name the folder. -/
inductive Attempt (disk : Disk) (path : Path) : EStateM.Result Fault Disk Outcome → Prop
  | skipped : Attempt disk path (.ok .skipped disk)
  | refused {f : Fault} (hf : f.isFile = true) : Attempt disk path (.error f disk)
  | deleted {place : List Text} {gone : List (List Text)} {disk' : Disk} (h : ClearsBelow disk path place gone disk')
      (hgone : disk'.root.find? place = none) : Attempt disk path (.ok .deleted disk')
  | stopped {place : List Text} {gone : List (List Text)} {disk' : Disk} {f : Fault} (h : ClearsBelow disk path place gone disk')
      (hf : f.isFile = true) (hnames : ¬ disk.NamesFolder path.text place) : Attempt disk path (.error f disk')

theorem deleteOne_eq (path : Path) (disk : Disk) : deleteOne path disk =
    match disk.present path.text with
    | .error f => .error f disk
    | .ok false => .ok .skipped disk
    | .ok true =>
      match looksEmpty disk path with
      | .error f => .error f disk
      | .ok false => .ok .skipped disk
      | .ok true =>
        match removeTree path disk with
        | .ok () disk' => .ok .deleted disk'
        | .error f disk' => .error f disk' := by
  cases hpresent : disk.present path.text with
  | error f => simp only [deleteOne, bind, EStateM.bind, FileWork.ask, hpresent]
  | ok b =>
    cases b with
    | false =>
      simp only [deleteOne, bind, EStateM.bind, FileWork.ask, hpresent]
      rfl
    | true =>
      cases hlook : looksEmpty disk path with
      | error f =>
        simp only [deleteOne, bind, EStateM.bind, FileWork.ask, hpresent, hlook, Bool.not_true, Bool.false_eq_true,
          if_false]
      | ok b =>
        cases b with
        | false =>
          simp only [deleteOne, bind, EStateM.bind, FileWork.ask, hpresent, hlook, Bool.not_true, Bool.false_eq_true, if_false]
          rfl
        | true =>
          simp only [deleteOne, bind, EStateM.bind, FileWork.ask, hpresent, hlook, Bool.not_true, Bool.false_eq_true, if_false]
          cases removeTree path disk <;> rfl

theorem askAbout_fault {p : Path} {f : Fault} (h : askAbout p = .error f) : f.isFile = true := by
  unfold askAbout at h
  split at h
  · cases h
    rfl
  · cases h

theorem lookInto_fault {f : Fault} : ∀ {d : Dir} {p : Path}, lookInto p d = .error f → f.isFile = true
  | .empty, _, h => by cases h
  | .file n b rest, p, h | .link n b rest, p, h => by
    rw [lookInto] at h
    cases hask : askAbout (p.under n) with
    | error g =>
      rw [hask] at h
      cases h
      exact askAbout_fault hask
    | ok u =>
      rw [hask] at h
      cases h
  | .folder n inside rest, p, h => by
    rw [lookInto] at h
    cases hask : askAbout (p.under n) with
    | error g =>
      rw [hask] at h
      cases h
      exact askAbout_fault hask
    | ok u =>
      cases hinside : lookInto (p.under n) inside with
      | error g =>
        rw [hask, hinside] at h
        cases h
        exact lookInto_fault hinside
      | ok b =>
        rw [hask, hinside] at h
        cases b with
        | false => cases h
        | true => exact lookInto_fault h

theorem looksEmpty_fault {f : Fault} (h : looksEmpty disk path = .error f) : f.isFile = true := by
  unfold looksEmpty at h
  split at h
  · exact lookInto_fault h
  · cases h

/-- What looks empty is a folder. -/
theorem looksEmpty_ok (h : looksEmpty disk path = .ok true) :
    ∃ place d, disk.resolve .target path.text = .ok (.found place (.folder d)) ∧ lookInto path d = .ok true := by
  unfold looksEmpty at h
  split at h
  · rename_i d hd
    obtain ⟨place, hplace⟩ := Disk.list_ok.1 hd
    exact ⟨place, d, hplace, h⟩
  · cases h

/-- Where the path of a removed folder leads, it was; and behind it there are only folders. -/
theorem Strips.below (hroot : disk.root.WellFormed) (hpath : path.Normal)
    (hfound : disk.resolve .target path.text = .ok (.found place (.folder d))) (hempty : d.holdsNoFile = true)
    {x : EStateM.Result Fault Disk α} (h : Strips path disk x gone) : ∀ q ∈ gone, place <+: q := by
  intro q hq
  obtain ⟨names, inside, hnames, hentry⟩ := h.named q hq
  by_cases hnil : names = []
  · subst hnil
    rw [List.append_nil] at hentry
    rw [Disk.resolve_entry_of_folder hfound hentry] at hentry
    cases hentry
    exact List.prefix_refl place
  · have hwf := Disk.wellFormed_of_resolve hroot hpath hfound
    have hproject : disk.HasProject path place d := ⟨hroot, hpath, hfound, linkFree_of_holdsNoFile hempty⟩
    have hleads := ((Disk.resolve_text_ok (Disk.normal_below hpath hnames)).1 hentry).2
    rw [((hproject.leads_iff (by decide) hnil (Path.descends_of_names hnames)).1 hleads).1]
    exact List.prefix_append place names

/-- After a folder was removed it is gone from its place. -/
theorem removeTree_gone (hroot : disk.root.WellFormed) (hpath : path.Normal)
    (hfound : disk.resolve .target path.text = .ok (.found place (.folder d))) (h : removeTree path disk = .ok () disk') :
    disk'.root.find? place = none := by
  obtain ⟨d', moment, hask, hrun⟩ := work_bind_ok.1 h
  obtain ⟨hlist, rfl⟩ := FileWork.ask_ok hask
  obtain ⟨place', hfound'⟩ := Disk.list_ok.1 hlist
  have hwf := Disk.wellFormed_of_resolve hroot hpath hfound'
  obtain ⟨u, rest, hbelow, hself⟩ := work_bind_ok.1 hrun
  obtain ⟨gone, hstrips⟩ := removeBelow_strips hpath ((Disk.resolve_text_ok hpath).1 hfound).1.1 [] hwf hroot (by simp)
  rw [List.append_nil, hbelow] at hstrips
  obtain ⟨spot, hentry, hne, rfl⟩ := Disk.removeFolder_ok hpath (FileWork.change_ok hself)
  obtain ⟨inside, hbefore⟩ := hstrips.clears.folder (by decide) hentry
  rw [Disk.resolve_entry_of_folder hfound hbefore] at hbefore
  cases hbefore
  exact hstrips.clears.wellFormed.ordered.find?_eraseAt hne (List.prefix_refl place)

theorem deleteOne_attempt (hroot : disk.root.WellFormed) (hpath : path.Normal) : Attempt disk path (deleteOne path disk) := by
  rw [deleteOne_eq]
  cases hpresent : disk.present path.text with
  | error f => exact .refused (Disk.present_fault hpresent)
  | ok b =>
    cases b with
    | false => exact .skipped
    | true =>
      cases hlook : looksEmpty disk path with
      | error f => exact .refused (looksEmpty_fault hlook)
      | ok b =>
        cases b with
        | false => exact .skipped
        | true =>
          obtain ⟨place, d, hfound, hd⟩ := looksEmpty_ok hlook
          obtain ⟨gone, hstrips⟩ := removeTree_strips hpath ((Disk.resolve_text_ok hpath).1 hfound).1.1 hroot
          have hbelow := hstrips.below hroot hpath hfound (holdsNoFile_of_lookInto hd)
          have hleads : disk.ReachesFolder path.text place := ⟨d, hfound⟩
          cases hrun : removeTree path disk with
          | ok u disk' =>
            rw [hrun] at hstrips
            exact .deleted ⟨hleads, hstrips.clears, hbelow⟩ (removeTree_gone hroot hpath hfound hrun)
          | error f disk' =>
            rw [hrun] at hstrips
            refine .stopped ⟨hleads, hstrips.clears, hbelow⟩ (hstrips.fault f disk' rfl) fun hnames => ?_
            obtain ⟨disk'', hdone⟩ := removeTree_runs hroot hpath hnames hfound hd
            rw [hrun] at hdone
            cases hdone

end Whole

end EmptyFolders

end ActionSweep
