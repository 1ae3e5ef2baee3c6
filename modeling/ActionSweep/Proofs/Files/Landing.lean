/-
Where a file that is replaced can be found. A file is replaced by a move of the file beside it, and if a link stands
beside it, that link is moved and leads from there on. So the new file is found at the path, unless such a link led to
the very file that was to be replaced.
-/
import ActionSweep.Proofs.Files.Failing

namespace ActionSweep

namespace Dir

variable {d : Dir} {e : Entry} {path place : List Text}

/-- What stands in a tree without a place stands there also after something was put at the place. -/
theorem Ordered.stillHas_putAt (hd : d.Ordered) (hplace : place ≠ []) (f : Entry) (h : (d.eraseAt place).find? path = some e) :
    (d.putAt place f).StillHas path e := by
  have hbelow : ∀ q ∈ [place], ¬ q <+: path := by
    rintro q hq hbegin
    rw [List.mem_singleton.1 hq] at hbegin
    rw [hd.find?_eraseAt hplace hbegin] at h
    cases h
  have hshell := (sameBut_putAt f place d path hbelow).trans (sameBut_eraseAt place d path hbelow).symm
  rw [h, Option.map_some, Option.map_eq_some_iff] at hshell
  exact hshell

end Dir

namespace Disk

/-! ## Walks through a folder -/

section Finds

variable {root : Dir} {place folder : List Text} {e : Entry} {d : Dir}

theorem Finds.weaken {n m : Nat} (hle : n ≤ m) {here parts : List Text} (h : Finds root place e n here parts) :
    Finds root place e m here parts := by
  induction h generalizing m with
  | here h => exact .here h
  | stay hpart _ ih => exact .stay hpart (ih hle)
  | up _ ih => exact .up (ih hle)
  | down hpart hfind _ ih => exact .down hpart hfind (ih hle)
  | file hpart hplace he hfind => exact .file hpart hplace he hfind
  | link hpart hfind _ ih =>
    obtain ⟨m, rfl⟩ := Nat.exists_eq_add_of_lt (Nat.lt_of_succ_le hle)
    exact .link hpart hfind (ih (by omega))

/-- A walk to a folder goes on from there. -/
theorem Finds.append {i m : Nat} {here parts more : List Text} (h : Finds root folder (.folder d) i here parts)
    (hmore : Finds root place e m folder more) : Finds root place e (i + m) here (parts ++ more) := by
  generalize hf : Entry.folder d = f at h
  induction h with
  | here _ => exact hmore.weaken (Nat.le_add_left ..)
  | stay hpart _ ih => exact .stay hpart ih
  | up _ ih => exact .up ih
  | down hpart hfind _ ih => exact .down hpart hfind ih
  | file _ _ he _ =>
    subst hf
    cases he
  | @link n here parts part t hpart hfind _ ih =>
    rw [Nat.succ_add]
    refine .link hpart hfind ?_
    change Finds root place e (n + m) _ (steps t ++ (parts ++ more))
    rw [← List.append_assoc]
    exact ih

/-- A walk along a path to a folder and further is one to the folder and one from there. -/
theorem Finds.split {n k : Nat} {here parts more : List Text} (hfolder : Finds root folder (.folder d) k here parts)
    (h : Finds root place e n here (parts ++ more)) :
    ∃ i m, i + m = n ∧ Finds root folder (.folder d) i here parts ∧ Finds root place e m folder more := by
  generalize hf : Entry.folder d = f at hfolder ⊢
  induction hfolder generalizing n with
  | here hfind => exact ⟨0, n, Nat.zero_add n, .here hfind, h⟩
  | stay hpart _ ih =>
    obtain ⟨i, m, hsum, hto, hfrom⟩ := ih (finds_stay hpart h)
    exact ⟨i, m, hsum, .stay hpart hto, hfrom⟩
  | up _ ih =>
    obtain ⟨i, m, hsum, hto, hfrom⟩ := ih (finds_up h)
    exact ⟨i, m, hsum, .up hto, hfrom⟩
  | down hpart hfind _ ih =>
    cases finds_down hpart h with
    | folder _ h =>
      obtain ⟨i, m, hsum, hto, hfrom⟩ := ih h
      exact ⟨i, m, hsum, .down hpart hfind hto, hfrom⟩
    | file hfind' _ _ _ | link _ hfind' _ =>
      rw [hfind] at hfind'
      cases hfind'
  | file _ _ he _ =>
    subst hf
    cases he
  | link hpart hfind _ ih =>
    cases finds_down hpart h with
    | link hn hfind' h =>
      rw [hfind] at hfind'
      cases hfind'
      change Finds root place e _ _ (_ ++ (_ ++ more)) at h
      rw [← List.append_assoc] at h
      obtain ⟨i, m, hsum, hto, hfrom⟩ := ih h
      exact ⟨i + 1, m, by omega, .link hpart hfind hto, hfrom⟩
    | folder hfind' _ | file hfind' _ _ _ =>
      rw [hfind] at hfind'
      cases hfind'

end Finds

variable {disk disk' : Disk} {a : Anchor} {front folder : List Text} {name beside u : Text} {d : Dir} {place spot : List Text}
  {b c : Bytes}

/-! ## Moving a link -/

/-- A link that leads to a file leads there also without itself and without the path to another file. -/
theorem finds_without (hfolder : disk.LeadsToFolder ⟨a, front⟩ folder d) (hname : Askable a front name)
    (hx : disk.resolve .target (Path.mk a (front ++ [name])).text = .ok (.found place (.file c)))
    (hlink : d.get? beside = some (.link u)) {without : Dir}
    (hbefore : ∀ path f, without.find? path = some f → disk.root.StillHas path f)
    (hways : ∀ path f, disk.root.find? path = some f → without.StillHas path f ∨
      (∀ inside, f ≠ .folder inside) ∧ (path = folder ++ [beside] ∨ path = folder ++ [name]))
    (hhere : without.FolderAt folder) (hother : spot ≠ place) {m : Nat}
    (hfinds : Finds disk.root spot (.file b) m (if ['/'].isPrefixOf u then [] else folder) (steps u)) :
    Finds without spot (.file b) m (if ['/'].isPrefixOf u then [] else folder) (steps u) := by
  have hstart := Dir.FolderAt.start ⟨d, hfolder.find?⟩ (['/'].isPrefixOf u)
  have hat : ∀ n, disk.root.find? (folder ++ [n]) = d.get? n := fun n => Dir.find?_concat folder n hfolder.find?
  have hnamed := hname.finds hfolder hx
  have hgone : ∀ path f, disk.root.find? path = some f → without.StillHas path f ∨ disk.root.find? path = some f ∧
      (∀ inside, f ≠ .folder inside) ∧ (path = folder ++ [beside] ∨ path = folder ++ [name]) :=
    fun path f hf => (hways path f hf).imp_right fun h => ⟨hf, h⟩
  refine (hfinds.passes _ hgone (fun _ _ h => h.2.1 _ rfl) ?_ ?_ (Nat.le_refl m) hstart).elim ?_ id
  · -- the file is not at the path of the other one
    rintro b' ⟨hfile, -, rfl | rfl⟩ -
    · rw [hat, hlink] at hfile
      cases hfile
    · rw [hat] at hfile
      rw [hname.resolve hfolder (.inr fun t ht => by rw [hfile] at ht; cases ht), hfile] at hx
      cases hx
      exact absurd rfl hother
  · rintro here part t n rest e' hn ⟨hpart, -, hplace⟩ hshell hbehind
    obtain rfl := Entry.shell_eq_file.1 hshell
    obtain rfl : folder = here := by
      rcases hplace with hplace | hplace
      · exact (List.append_inj' hplace rfl).1.symm
      · exact (List.append_inj' hplace rfl).1.symm
    obtain ⟨f, hf, hfound⟩ := hbehind.mono hbefore (hhere.start _)
    obtain rfl := Entry.shell_eq_file.1 hf
    rcases hplace with hplace | hplace
    · -- a way through the link itself begins anew behind it
      rw [hplace, hat, hlink] at hpart
      cases hpart
      obtain ⟨-, -, rfl⟩ := hfinds.behind hstart hfound
      rw [List.append_nil] at hbehind
      exact hbehind.weaken (Nat.le_of_lt hn)
    · rw [hplace, hat] at hpart
      rcases hnamed with hfile | ⟨v, k, hlinked, hleads⟩
      · rw [hpart] at hfile
        cases hfile
      · rw [hpart] at hlinked
        cases hlinked
        exact absurd (hleads.behind (Dir.FolderAt.start ⟨d, hfolder.find?⟩ _) hfound).1 hother
  · rintro ⟨f, hf, hfound⟩
    rwa [Entry.shell_eq_file.1 hf] at hfound

theorem Askable.leadsDown (h : Askable a front name) : LeadsDown name :=
  ⟨⟨h.part.nonempty, h.part.noDot, h.notUp⟩, h.shortName⟩

/-- A path leads where a link beside it led, if that link stands there afterwards and leads where it led. -/
theorem resolve_renamed (hdisk : disk.Grounded) (hfolder : disk.LeadsToFolder ⟨a, front⟩ folder d)
    (hbeside : Askable a front beside) (hname : Askable a front name) (hlink : disk.root.find? (folder ++ [beside]) = some (.link u))
    (hfile : disk.resolve .target (Path.mk a (front ++ [beside])).text = .ok (.found spot (.file b))) {root : Dir}
    (hout : Outlasts disk.root root) (hthere : root.find? (folder ++ [name]) = some (.link u))
    (hbehind : ∀ m, Finds disk.root spot (.file b) m (if ['/'].isPrefixOf u then [] else folder) (steps u) →
      Finds root spot (.file b) m (if ['/'].isPrefixOf u then [] else folder) (steps u)) :
    (disk.setRoot root).resolve .target (Path.mk a (front ++ [name])).text = .ok (.found spot (.file b)) := by
  have hwalk := finds_of_resolveParts ((resolve_text_ok hbeside.normal).1 hfile).2
  obtain ⟨i, m, hsum, hto, hfrom⟩ := (finds_of_resolveParts hfolder).split hwalk
  cases finds_down hbeside.leadsDown hfrom with
  | folder hfind _ | file hfind _ _ _ =>
    rw [hlink] at hfind
    cases hfind
  | @link k t hk hfind h =>
    rw [hlink] at hfind
    cases hfind
    rw [List.append_nil] at h
    obtain ⟨d', hto'⟩ := resolveParts_outlasts hout i (hdisk.start ⟨a, front⟩) (resolveParts_of_finds hto)
    have hnow : Finds root spot (.file b) (k + 1) folder [name] :=
      .link hname.leadsDown hthere (by rw [List.append_nil]; exact hbehind k h)
    have hfinds := (finds_of_resolveParts hto').append hnow
    rw [hk, hsum] at hfinds
    exact (resolve_text_ok hname.normal).2 ⟨⟨hname.noZero, hname.shortPath⟩, resolveParts_of_finds hfinds⟩

/-- A path to which the file at a path beside it was moved leads to that file, unless a link was moved that led to the
file that was there. -/
theorem move_lands (hdisk : disk.Grounded) (hordered : disk.root.Ordered)
    (hpath : (Path.mk a (front ++ [name])).Normal) (hbeside : (Path.mk a (front ++ [beside])).Normal)
    (hfile : disk.resolve .target (Path.mk a (front ++ [beside])).text = .ok (.found spot (.file b)))
    (hx : disk.resolve .target (Path.mk a (front ++ [name])).text = .ok (.found place (.file c)))
    (h : disk.move (Path.mk a (front ++ [beside])).text (Path.mk a (front ++ [name])).text = .ok disk') :
    (∃ p, disk'.resolve .target (Path.mk a (front ++ [name])).text = .ok (.found p (.file b))) ∨
      spot = place ∧ ∃ link u, disk.resolve .entry (Path.mk a (front ++ [beside])).text = .ok (.found link (.link u)) := by
  obtain ⟨q, moved, goal, hsource, hgoal, hnb, hnn, hmove⟩ := move_ok h
  obtain ⟨folder, d, hfront⟩ := leadsToFolder_of_resolve hdisk hbeside hsource
  have hb := askable_of_resolve hfront hbeside (notUp_of_named hbeside hnb) hsource
  have hn := askable_of_resolve hfront hpath (notUp_of_named hpath hnn) hgoal
  obtain ⟨hget, rfl⟩ := hb.entry hfront hsource
  have hgoalPath := hn.path hfront hgoal
  have hmoved := resolve_stands hsource
  rcases moveEntry_ok hmoved (resolve_stands hgoal) hmove with ⟨rfl, hsame⟩ | ⟨hno, -, rfl⟩
  · -- both paths are one, and nothing is moved
    rw [hgoalPath, List.append_cancel_left_eq] at hsame
    rw [← (List.cons.inj hsame).1]
    exact .inl ⟨spot, hfile⟩
  rw [hgoalPath] at hno ⊢
  -- the folder stays, and the entry stands there under the other name
  have hremovable : ∀ p ∈ [folder ++ [beside]] ++ [folder ++ [name]], Removable disk.root p := by
    simpa using ⟨hb.removable hfront hfile nofun, hn.removable hfront hx nofun⟩
  have herased : Outlasts disk.root (disk.root.eraseAt (folder ++ [beside])) :=
    outlasts_of_sameBut (Dir.sameBut_eraseAt _ _) fun p hp => hremovable p (List.mem_append_left _ hp)
  have hout : Outlasts disk.root ((disk.root.eraseAt (folder ++ [beside])).putAt (folder ++ [name]) moved) :=
    outlasts_of_sameBut ((Dir.sameBut_eraseAt _ _).trans (Dir.sameBut_putAt _ _ _)) hremovable
  obtain ⟨d', hd'⟩ := herased.folder folder ⟨d, hfront.find?⟩
  have hafter := Dir.find?_putAt name moved hd'
  have hput : (d'.put name moved).get? name = some moved := by rw [Dir.get?_put, if_pos rfl]
  have hfront' := hfront.outlasts hdisk hout hafter
  rcases hb.finds hfront hfile with hfound | ⟨u, -, hlink, -⟩
  · obtain rfl : moved = .file b := Option.some.inj (hget.symm.trans hfound)
    rw [hn.resolve hfront' (.inr fun t ht => by rw [hput] at ht; cases ht), hput]
    exact .inl ⟨_, rfl⟩
  obtain rfl : moved = .link u := Option.some.inj (hget.symm.trans hlink)
  by_cases hother : spot = place
  · exact .inr ⟨hother, _, u, hsource⟩
  -- neither of the two entries is on the way behind the link
  have hchanges : disk.root.ChangesAt ((disk.root.eraseAt (folder ++ [beside])).eraseAt (folder ++ [name]))
      fun p => p = folder ++ [beside] ∨ p = folder ++ [name] :=
    ⟨_, (Dir.sameBut_eraseAt _ _).trans (Dir.sameBut_eraseAt _ _), by
      simpa using ⟨Dir.not_folderAt_of_leaf hmoved nofun, hno⟩⟩
  have hhere := hchanges.folderAt ⟨d, hfront.find?⟩
  have hthere := (Dir.find?_concat folder name hafter).trans hput
  refine .inl ⟨spot, resolve_renamed hdisk hfront hb hn hmoved hfile hout hthere fun m h => ?_⟩
  have hwithout := finds_without hfront hn hx hlink (fun path f hf => hordered.stillHas_of_erased (by simp) (by simp) hf)
    (fun path f hf => hchanges.stillHas hf) hhere hother h
  obtain ⟨f, hf, hnow⟩ := hwithout.mono (fun path g hg => hordered.eraseAt.stillHas_putAt (by simp) (.link u) hg) (hhere.start _)
  rwa [Entry.shell_eq_file.1 hf] at hnow

/-! ## Replacing -/

variable {t : Text}

/-- A path at which a file is there to be written leads to it. -/
theorem resolve_of_writing (hdisk : disk.Grounded) (h : disk.resolve .writing t = .ok (.found place (.file b))) :
    disk.resolve .target t = .ok (.found place (.file b)) := by
  obtain ⟨hask, hparts⟩ := resolve_ok.1 h
  have hstands := resolve_stands h
  have hfile : ∀ e, disk.root.find? (Place.found place (.file b)).path = some e → ∃ c, e = .file c := by
    intro e he
    exact ⟨b, Option.some.inj (he.symm.trans hstands)⟩
  have hfinds := finds_written hfile (by rintro _ _ ⟨⟩) (fun _ _ _ _ => hstands) (Dir.changesAt_refl disk.root _)
    (Dir.FolderAt.start hdisk _) hparts
  exact resolve_ok.2 ⟨hask, resolveParts_of_finds hfinds⟩

/-- Where a link stands at a path at which a file was written, it stood there before. -/
theorem link_before_write (hdisk : disk.Grounded) {bytes : Bytes} (hx : disk.resolve .target t = .ok (.found place (.file b)))
    (h : disk.write t bytes = .ok disk') {link : List Text} {u : Text}
    (hlink : disk'.resolve .entry t = .ok (.found link (.link u))) :
    ∃ spot v, disk.resolve .entry t = .ok (.found spot (.link v)) := by
  refine (resolve_entry_or_link (by decide) hx).resolve_left fun hentry => ?_
  obtain ⟨hwrite, hreplaced⟩ := write_replaces hdisk hx bytes
  rw [hwrite] at h
  cases h
  have hkind := resolve_alike (show Aim.entry ≠ .writing by decide) (hreplaced.alike hentry) t
  change ((disk.setRoot (disk.root.putAt place (.file bytes))).resolve .entry t).map _ = _ at hkind
  rw [hentry, hlink] at hkind
  cases hkind

end Disk

namespace FileWork

variable {disk disk' : Disk} {path beside : Path} {t : Text} {place : List Text} {b : Bytes}

/-- At a path at which a file was replaced the new file is found, unless a link stands beside it that leads to the file. -/
theorem replaceFile_lands (hdisk : disk.Sound) (hpath : path.Normal) {extension : Text} (hslash : '/' ∉ extension)
    (hlong : 3 ≤ extension.length) (hbeside : path.withExtension? extension = some beside)
    (hx : disk.resolve .target path.text = .ok (.found place (.file b))) (h : replaceFile beside path t disk = .ok () disk') :
    (∃ spot, disk'.resolve .target path.text = .ok (.found spot (.file (Utf8.encode t)))) ∨
      (∃ link u, disk.resolve .entry beside.text = .ok (.found link (.link u))) ∧
        disk.resolve .target beside.text = .ok (.found place (.file b)) := by
  obtain ⟨moment, hwrite, hmove⟩ := replaceFile_ok h
  obtain ⟨front, n, k, hp, rfl, hnormal, -⟩ := hpath.withExtension? hslash hlong hbeside
  obtain ⟨y, hy, -⟩ := Disk.write_ok hwrite
  have hstands := Disk.write_stands hdisk.grounded hy hwrite
  obtain ⟨e, he, hkind⟩ := Disk.write_keeps hdisk.grounded hwrite hx
  obtain ⟨c, rfl⟩ := Entry.kind_eq_file.1 hkind
  have hmoment := hdisk.write hwrite
  rw [hp] at hpath he hmove ⊢
  refine (Disk.move_lands hmoment.grounded hmoment.ordered hpath hnormal hstands he hmove).imp_right ?_
  rintro ⟨rfl, link, u, hlink⟩
  have htarget : disk.resolve .target (Path.mk path.anchor (front ++ [k])).text = .ok (.found y.path (.file b)) := by
    have hfile := Disk.resolve_stands hx
    have hthere := Disk.resolve_stands hy
    cases y with
    | free folder name => cases hfile.symm.trans hthere
    | found spot f =>
      obtain rfl : f = .file b := Option.some.inj (hthere.symm.trans hfile)
      exact Disk.resolve_of_writing hdisk.grounded hy
  exact ⟨Disk.link_before_write hdisk.grounded htarget hwrite hlink, htarget⟩

end FileWork

end ActionSweep
