/-
Making folders in file trees without links. Whatever comes of it, what is gained are folders that the path goes
through, and all else stays; and unless a file stands on the way, the folders are made.
-/
import ActionSweep.Proofs.Files.FolderRemoval
import ActionSweep.Proofs.Files.Outside
import ActionSweep.Proofs.Files.Plain

namespace ActionSweep

open ActionSweep.Path (goes goes_append goes_concat IsPart)

namespace Dir

variable {d d' d'' : Dir} {path : List Text} {b : Bytes} {P Q : List Text → Prop}

/-- A tree that gained folders at some places and kept everything else. -/
structure GainsFolders (P : List Text → Prop) (d d' : Dir) : Prop where
  kept : ∀ path e, d.find? path = some e → d'.StillHas path e
  gained : ∀ path e, d'.find? path = some e → d.StillHas path e ∨ d'.FolderAt path ∧ P path
  ordered : d.Ordered → d'.Ordered

theorem StillHas.find?_file (h : d.StillHas path (.file b)) : d.find? path = some (.file b) := by
  obtain ⟨e', he', hshell⟩ := h
  rw [he', Entry.shell_eq_file.1 hshell]

theorem gainsFolders_refl (P : List Text → Prop) (d : Dir) : GainsFolders P d d :=
  ⟨fun _ _ => stillHas_self, fun _ _ h => .inl (stillHas_self h), id⟩

theorem GainsFolders.folderAt (h : GainsFolders P d d') (hpath : d.FolderAt path) : d'.FolderAt path := by
  obtain ⟨inside, hinside⟩ := hpath
  obtain ⟨e, he, hshell⟩ := h.kept path _ hinside
  obtain ⟨inside', rfl⟩ := Entry.shell_eq_folder.1 hshell
  exact ⟨inside', he⟩

theorem GainsFolders.folder_cases (h : GainsFolders P d d') (hpath : d'.FolderAt path) : d.FolderAt path ∨ P path := by
  obtain ⟨inside, hinside⟩ := hpath
  rcases h.gained path _ hinside with ⟨e, he, hshell⟩ | ⟨-, hP⟩
  · obtain ⟨d, rfl⟩ := Entry.shell_eq_folder.1 hshell
    exact .inl ⟨d, he⟩
  · exact .inr hP

theorem GainsFolders.trans (h : GainsFolders P d d') (h' : GainsFolders P d' d'') : GainsFolders P d d'' where
  kept path e he := by
    obtain ⟨e', he', hshell⟩ := h.kept path e he
    exact StillHas.congr (h'.kept path e' he') hshell
  gained path e he := by
    rcases h'.gained path e he with ⟨e', he', hshell⟩ | hP
    · rcases h.gained path e' he' with hstill | ⟨hfolder, hP⟩
      · exact .inl (hstill.congr hshell)
      · exact .inr ⟨h'.folderAt hfolder, hP⟩
    · exact .inr hP
  ordered hd := h'.ordered (h.ordered hd)

theorem GainsFolders.mono (h : GainsFolders P d d') (hPQ : ∀ path, P path → Q path) : GainsFolders Q d d' :=
  ⟨h.kept, fun path e he => (h.gained path e he).imp_right (And.imp_right (hPQ path)), h.ordered⟩

theorem GainsFolders.file_iff (h : GainsFolders P d d') : d'.find? path = some (.file b) ↔ d.find? path = some (.file b) := by
  refine ⟨fun hb => ?_, fun hb => (h.kept path _ hb).find?_file⟩
  rcases h.gained path _ hb with hstill | ⟨⟨inside, hinside⟩, -⟩
  · exact hstill.find?_file
  · cases hb.symm.trans hinside

theorem GainsFolders.unlinked (h : GainsFolders P d d') (hd : d.Unlinked) : d'.Unlinked := by
  intro path t ht
  rcases h.gained path _ ht with ⟨e, he, hshell⟩ | ⟨⟨inside, hinside⟩, -⟩
  · exact hd path t (Entry.shell_eq_link.1 hshell ▸ he)
  · cases ht.symm.trans hinside

/-- The names of gained folders are names of entries if those of the places are. -/
theorem GainsFolders.wellFormed (h : GainsFolders P d d') (hd : d.WellFormed) (hnames : ∀ path, P path → ∀ n ∈ path, IsName n) :
    d'.WellFormed := by
  refine wellFormed_of_ordered (h.ordered hd.ordered) fun path e he => ?_
  rcases h.gained path e he with ⟨e', he', -⟩ | ⟨-, hP⟩
  · exact (hd.find? he').1
  · exact hnames path hP

/-- A folder made under a free name. -/
theorem gainsFolders_putAt {place : List Text} (hfree : d.find? place = none) : GainsFolders (· = place) d (d.putAt place (.folder .empty)) where
  kept path e he := by
    have hpath : ¬ place <+: path := fun h => by cases (find?_none_below hfree h).symm.trans he
    exact (sameBut_putAt (.folder .empty) place d).stays hpath he
  gained path e he := by
    by_cases hpath : place <+: path
    · rcases find?_putAt_self (.folder .empty) place d with hself | hself
      · obtain ⟨rfl, rfl⟩ := find?_in_empty hself hpath he
        exact .inr ⟨⟨_, he⟩, rfl⟩
      · cases (find?_none_below (hself.trans hfree) hpath).symm.trans he
    · exact .inl ((sameBut_putAt (.folder .empty) place d).stood hpath he)
  ordered hd := Ordered.putAt (by rintro _ ⟨⟩; trivial) hd

end Dir

open Dir (GainsFolders Way)

namespace Disk

variable {disk disk' : Disk} {p : Path}

/-- The places that a path goes through. -/
def Passes (disk : Disk) (p : Path) (place : List Text) : Prop :=
  ∃ front, front <+: p.parts ∧ place = goes (disk.start p) front

/-- What making folders leaves. -/
structure Made (disk disk' : Disk) (p : Path) : Prop where
  disk_eq : disk' = disk.setRoot disk'.root
  gains : GainsFolders (disk.Passes p) disk.root disk'.root
  plain : disk'.Plain

theorem Plain.made (h : disk.Plain) (p : Path) : disk.Made disk p := ⟨rfl, Dir.gainsFolders_refl _ _, h⟩

theorem Made.start (h : disk.Made disk' p) (q : Path) : disk'.start q = disk.start q := by rw [h.disk_eq]; rfl

theorem Made.trans {disk'' : Disk} (h : disk.Made disk' p) (h' : disk'.Made disk'' p) : disk.Made disk'' p where
  disk_eq := by
    rw [h'.disk_eq, h.disk_eq]
    rfl
  gains := h.gains.trans (h'.gains.mono fun place hplace => by
    obtain ⟨front, hfront, hgo⟩ := hplace
    exact ⟨front, hfront, h.start p ▸ hgo⟩)
  plain := h'.plain

/-- For a folder above, fewer places are passed. -/
theorem Made.of_parent (h : disk.Made disk' p.parent) : disk.Made disk' p where
  disk_eq := h.disk_eq
  gains := h.gains.mono fun place hplace => by
    obtain ⟨front, hfront, hgo⟩ := hplace
    exact ⟨front, hfront.trans (List.dropLast_prefix p.parts), hgo⟩
  plain := h.plain

/-- A path that ends under a free name: its folder is there. -/
theorem stops_of_free (hdisk : disk.Plain) (hp : p.Normal) {folder : List Text} {name : Text} {aim : Aim}
    (h : disk.leads aim p = .ok (.free folder name)) : ∃ front, disk.root.Stops (disk.start p) p.parts front name [] ∧
      folder = goes (disk.start p) front ∧ (Utf8.encode name).length ≤ nameLimit ∧ disk.root.find? (folder ++ [name]) = none := by
  obtain ⟨jump, hjump⟩ := resolveParts_walk disk.root aim linkLimit
  unfold leads at h
  have hnone : disk.root.find? (folder ++ [name]) = none := resolveParts_stands h
  rw [hjump] at h
  rcases Dir.way_or_stops p.parts (hdisk.start p) with hway | ⟨front, n, after, hs⟩
  · obtain ⟨d, hd⟩ := hway.folderAt
    cases (walk_end hdisk.wellFormed hway hp hd).symm.trans h
  · replace h := (walk_stops hdisk.wellFormed hdisk.unlinked hs hp).symm.trans h
    split at h
    · cases h
    · rename_i hlong
      cases after with
      | nil =>
        refine ⟨front, ?_⟩
        split at h
        · cases h
        · cases h
          exact ⟨hs, rfl, Nat.not_lt.1 hlong, hnone⟩
      | cons => split at h <;> cases h

/-- A folder that is made is the last of the way. -/
theorem makeFolder_made (hdisk : disk.Plain) (hp : p.Normal) (h : disk.makeFolder p.text = .ok disk') :
    disk.Made disk' p ∧ disk'.root.Way (disk.start p) p.parts := by
  unfold makeFolder at h
  obtain ⟨x, hx, h⟩ := Outcome.bind_ok.1 h
  obtain ⟨⟨hzero, -⟩, hleads⟩ := (resolve_text_ok hp).1 hx
  cases x with
  | found place e => cases h
  | free folder name =>
    obtain ⟨front, hs, rfl, hshort, hnone⟩ := stops_of_free hdisk hp hleads
    cases h
    have hplace : goes (disk.start p) p.parts = goes (disk.start p) front ++ [name] := by rw [hs.split, goes_concat hs.down]
    have hgains := Dir.gainsFolders_putAt hnone
    have hmem : name ∈ p.parts := by simp [hs.split]
    have hname : IsName name := ⟨hp name hmem, hs.down, Path.zero_not_mem_parts hzero name hmem, hshort⟩
    obtain ⟨inside, hinside⟩ := hs.way.folderAt
    have hnames : ∀ n ∈ goes (disk.start p) front ++ [name], IsName n := by
      intro n hn
      rcases List.mem_append.1 hn with hn | hn
      · exact (hdisk.wellFormed.find? hinside).1 n hn
      · rwa [List.mem_singleton.1 hn]
    refine ⟨⟨rfl, hgains.mono ?_, ⟨hgains.wellFormed hdisk.wellFormed ?_, hgains.unlinked hdisk.unlinked,
      hgains.folderAt hdisk.grounded⟩⟩, ?_⟩
    · rintro _ rfl
      exact ⟨p.parts, List.prefix_refl _, hplace.symm⟩
    · rintro _ rfl
      exact hnames
    · rw [hs.split]
      refine (hs.way.mono fun _ => hgains.folderAt).concat ⟨.empty, ?_⟩
      rw [goes_concat hs.down]
      show (disk.root.putAt _ _).find? _ = _
      rw [Dir.find?_concat _ _ (Dir.find?_putAt _ _ hinside), Dir.get?_put, if_pos rfl]

end Disk

namespace FileWork

open Disk (Made Plain)

variable {disk disk' : Disk} {p : Path} {f : Fault}

/-! ## Whatever comes of it -/

/-- What making the folders of a path comes to: they are all there, or the file system refuses. -/
def Makes (disk : Disk) (p : Path) : EStateM.Result Fault Disk Unit → Prop
  | .ok () disk' => disk.Made disk' p ∧ disk'.root.Way (disk.start p) p.parts
  | .error f disk' => disk.Made disk' p ∧ f.isFile = true

theorem makes_unlessFolder (hmade : disk.Made disk' p) (hp : p.Normal) (hf : f.isFile = true) :
    Makes disk p (unlessFolder p f disk') := by
  unfold unlessFolder
  cases hfolder : disk'.isFolder p.text with
  | error g => exact ⟨hmade, Disk.isFolder_fault hfolder⟩
  | ok b =>
    cases b with
    | false => exact ⟨hmade, hf⟩
    | true =>
      obtain ⟨d, hd⟩ := Disk.list_of_isFolder hfolder
      obtain ⟨place, hx⟩ := Disk.list_ok.1 hd
      have hplain := hmade.plain
      have hway := (Disk.way_of_leadsToFolder hplain.wellFormed hplain.unlinked hplain.grounded hp
        ((Disk.resolve_text_ok hp).1 hx).2).1
      exact ⟨hmade, hmade.start p ▸ hway⟩

theorem makes_trans {moment : Disk} {x : EStateM.Result Fault Disk Unit} (hmade : disk.Made moment p) (h : Makes moment p x) :
    Makes disk p x := by
  cases x with
  | ok u disk' => exact ⟨hmade.trans h.1, hmade.start p ▸ h.2⟩
  | error f disk' => exact ⟨hmade.trans h.1, h.2⟩

/-- Making one folder, with a folder that is there already as good. -/
theorem makes_one (hdisk : disk.Plain) (hp : p.Normal) (hzero : '\x00' ∉ p.text) :
    Makes disk p (match disk.makeFolder p.text with
      | .ok disk' => .ok () disk'
      | .error f => unlessFolder p f disk) := by
  cases hmake : disk.makeFolder p.text with
  | ok disk' => exact Disk.makeFolder_made hdisk hp hmake
  | error f => exact makes_unlessFolder (hdisk.made p) hp (Disk.makeFolder_fault hzero hmake)

theorem normal_parent (hp : p.Normal) : p.parent.Normal := fun n hn => hp n (List.mem_of_mem_dropLast hn)

theorem makeFolders_makes : ∀ (n : Nat) {p : Path} {disk : Disk}, disk.Plain → p.Normal → '\x00' ∉ p.text →
    Makes disk p (makeFolders p n disk)
  | 0, _, _, hdisk, hp, hzero => by
    unfold makeFolders
    exact makes_one hdisk hp hzero
  | n + 1, p, disk, hdisk, hp, hzero => by
    unfold makeFolders
    cases hmake : disk.makeFolder p.text with
    | ok disk' => exact Disk.makeFolder_made hdisk hp hmake
    | error f =>
      have hfault := Disk.makeFolder_fault hzero hmake
      cases f with
      | file ff =>
        show Makes disk p (if ff.problem = .notFound then _ else _)
        split
        · split
          · exact ⟨hdisk.made p, rfl⟩
          -- the folder above is made first, and then this one
          · have hparent := makeFolders_makes n hdisk (normal_parent hp) (Path.zero_not_mem_parent hzero)
            cases hrun : makeFolders p.parent n disk with
            | error g moment =>
              rw [hrun] at hparent
              exact ⟨hparent.1.of_parent, hparent.2⟩
            | ok u moment =>
              rw [hrun] at hparent
              exact makes_trans hparent.1.of_parent (makes_one hparent.1.plain hp hzero)
        · exact makes_unlessFolder (hdisk.made p) hp rfl
      | _ => exact ⟨hdisk.made p, hfault⟩

theorem ensureFolder_makes (hdisk : disk.Plain) (hp : p.Normal) (hzero : '\x00' ∉ p.text) : Makes disk p (ensureFolder p disk) :=
  makeFolders_makes _ hdisk hp hzero

/-! ## Where no file stands on the way -/

/-- A path that can be asked about has a folder that can. -/
theorem asks_folder (h : '\x00' ∉ p.text ∧ (Utf8.encode p.text).length ≤ Disk.pathLimit) :
    '\x00' ∉ p.parent.text ∧ (Utf8.encode p.parent.text).length ≤ Disk.pathLimit := by
  obtain ⟨a, parts⟩ := p
  rcases List.eq_nil_or_concat' parts with rfl | ⟨front, n, rfl⟩
  · exact h
  · rw [Path.parent, List.dropLast_concat]
    exact asks_parent h

/-- A folder that can be made with all folders above it. -/
structure Makeable (disk : Disk) (p : Path) : Prop where
  normal : p.Normal
  asks : '\x00' ∉ p.text ∧ (Utf8.encode p.text).length ≤ Disk.pathLimit
  short : ∀ n ∈ p.parts, (Utf8.encode n).length ≤ Disk.nameLimit
  noFile : ∀ place b, disk.Passes p place → disk.root.find? place ≠ some (.file b)

theorem Makeable.parent (h : Makeable disk p) : Makeable disk p.parent where
  normal := normal_parent h.normal
  asks := asks_folder h.asks
  short n hn := h.short n (List.mem_of_mem_dropLast hn)
  noFile place b hplace := by
    obtain ⟨front, hfront, hgo⟩ := hplace
    exact h.noFile place b ⟨front, hfront.trans (List.dropLast_prefix p.parts), hgo⟩

theorem Makeable.made (h : Makeable disk p) {q : Path} (hmade : disk.Made disk' q) : Makeable disk' p where
  normal := h.normal
  asks := h.asks
  short := h.short
  noFile place b hplace hfile := by
    obtain ⟨front, hfront, hgo⟩ := hplace
    exact h.noFile place b ⟨front, hfront, hmade.start p ▸ hgo⟩ (hmade.gains.file_iff.1 hfile)

/-- What making the last folder of a way comes to. -/
inductive Making (disk : Disk) (p : Path) : Prop
  | there (hway : disk.root.Way (disk.start p) p.parts) (h : disk.makeFolder p.text = .error (Disk.refuse .alreadyExists p.text))
  | makes {disk' : Disk} (h : disk.makeFolder p.text = .ok disk')
  | tooEarly (hne : p.parts ≠ []) (hway : ¬ disk.root.Way (disk.start p) p.parent.parts)
      (h : disk.makeFolder p.text = .error (Disk.refuse .notFound p.text))

theorem Makeable.making (hdisk : disk.Plain) (h : Makeable disk p) : Making disk p := by
  have hroot := hdisk.wellFormed
  rcases Dir.way_or_stops p.parts (hdisk.start p) with hway | ⟨front, n, after, hs⟩
  · obtain ⟨d, hd⟩ := Disk.resolve_way hroot h.normal hway h.asks .entry
    refine .there hway ?_
    unfold Disk.makeFolder
    rw [hd]
    rfl
  -- nothing stands under the first name that is no folder
  have hpass : disk.Passes p (goes (disk.start p) front ++ [n]) :=
    ⟨front ++ [n], ⟨after, by rw [hs.split]; simp⟩, (goes_concat hs.down _ _).symm⟩
  have hnone : disk.root.find? (goes (disk.start p) front ++ [n]) = none := by
    cases hfind : disk.root.find? (goes (disk.start p) front ++ [n]) with
    | none => rfl
    | some e =>
      cases e with
      | file b => exact absurd hfind (h.noFile _ b hpass)
      | link t => exact absurd hfind (hdisk.unlinked _ t)
      | folder d => exact absurd ⟨d, hfind⟩ hs.noFolder
  obtain ⟨jump, hjump⟩ := Disk.resolveParts_walk disk.root .entry Disk.linkLimit
  have hleads : disk.leads .entry p = if after.isEmpty then .ok (.free (goes (disk.start p) front) n) else .error .notFound := by
    have hwalk : Disk.walk disk.root .entry jump _ _ = _ := Disk.walk_stops hroot hdisk.unlinked hs h.normal
    rw [if_neg (Nat.not_lt.2 (h.short n (by simp [hs.split]))), hnone] at hwalk
    unfold Disk.leads
    rw [hjump]
    exact hwalk
  have hresolve : disk.resolve .entry p.text = _ := Disk.resolve_text h.normal
  rw [if_neg (by simpa using h.asks.1), if_neg (Nat.not_lt.2 h.asks.2), hleads] at hresolve
  cases after with
  | nil =>
    have hmake : disk.makeFolder p.text =
        .ok (disk.setRoot (disk.root.putAt (goes (disk.start p) front ++ [n]) (.folder .empty))) := by
      unfold Disk.makeFolder
      rw [hresolve]
      rfl
    exact .makes hmake
  | cons m after =>
    refine .tooEarly (by simp [hs.split]) (fun hway => hs.noFolder ?_) ?_
    · rw [← goes_concat hs.down]
      refine hway _ ?_
      rw [Path.parent, hs.split, show front ++ n :: m :: after = front ++ [n] ++ (m :: after) by simp,
        List.dropLast_append_of_ne_nil (List.cons_ne_nil m after)]
      exact List.prefix_append _ _
    · unfold Disk.makeFolder
      rw [hresolve]
      rfl

theorem unlessFolder_runs (hdisk : disk.Plain) (h : Makeable disk p) (hway : disk.root.Way (disk.start p) p.parts) (f : Fault) :
    unlessFolder p f disk = .ok () disk := by
  obtain ⟨d, hd⟩ := Disk.resolve_way hdisk.wellFormed h.normal hway h.asks .target
  unfold unlessFolder Disk.isFolder Disk.test
  rw [hd]

theorem makeFolders_runs : ∀ (n : Nat) {p : Path} {disk : Disk}, disk.Plain → Makeable disk p → p.parts.length ≤ n →
    ∃ disk', makeFolders p n disk = .ok () disk'
  | 0, p, disk, hdisk, h, hn => by
    unfold makeFolders
    cases h.making hdisk with
    | there hway hmake => exact ⟨disk, by rw [hmake]; exact unlessFolder_runs hdisk h hway _⟩
    | makes hmake => exact ⟨_, by rw [hmake]⟩
    | tooEarly hne => exact absurd (List.length_eq_zero_iff.1 (Nat.le_zero.1 hn)) hne
  | n + 1, p, disk, hdisk, h, hn => by
    unfold makeFolders
    cases h.making hdisk with
    | there hway hmake =>
      refine ⟨disk, ?_⟩
      rw [hmake]
      exact unlessFolder_runs hdisk h hway _
    | makes hmake => exact ⟨_, by rw [hmake]⟩
    | tooEarly hne hway hmake =>
      obtain ⟨moment, hrun⟩ := makeFolders_runs n hdisk h.parent (by rw [Path.parent, List.length_dropLast]; omega)
      have hmade := makeFolders_makes n hdisk (normal_parent h.normal) (Path.zero_not_mem_parent h.asks.1)
      rw [hrun] at hmade
      have hagain := h.made hmade.1
      rw [hmake]
      show ∃ disk', (if p.parts.isEmpty then _ else _) = _
      rw [if_neg (by simpa using hne), hrun]
      cases hagain.making hmade.1.plain with
      | there hway' hmake' =>
        refine ⟨moment, ?_⟩
        simp only [hmake']
        exact unlessFolder_runs hmade.1.plain hagain hway' _
      | makes hmake' =>
        simp only [hmake']
        exact ⟨_, rfl⟩
      | tooEarly _ hway' _ => exact absurd (hmade.1.start p ▸ hmade.2) hway'

end FileWork

end ActionSweep
