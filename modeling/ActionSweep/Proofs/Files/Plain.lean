/-
Paths in file trees without links. There a path leads where its text says: a name goes down, two dots go back up,
and the first name under which no folder stands is where the way ends.
-/
import ActionSweep.Proofs.Files.Clearing

namespace ActionSweep

/-- Where the parts of a path lead from a place if they meet no link. -/
def Path.goes (here parts : List Text) : List Text :=
  parts.foldl (fun place part => if part = ['.', '.'] then place.dropLast else place ++ [part]) here

namespace Path

variable {here front parts : List Text}

@[simp] theorem goes_nil (here : List Text) : goes here [] = here := rfl

theorem goes_cons (here : List Text) (part : Text) (parts : List Text) :
    goes here (part :: parts) = goes (if part = ['.', '.'] then here.dropLast else here ++ [part]) parts := rfl

theorem goes_append (here front more : List Text) : goes here (front ++ more) = goes (goes here front) more :=
  List.foldl_append

theorem goes_concat {n : Text} (hn : n ≠ ['.', '.']) (here front : List Text) :
    goes here (front ++ [n]) = goes here front ++ [n] := by
  rw [goes_append, goes_cons, if_neg hn, goes_nil]

theorem goes_down : ∀ {parts : List Text}, (['.', '.'] : Text) ∉ parts → ∀ here, goes here parts = here ++ parts
  | [], _, here => (List.append_nil here).symm
  | part :: parts, h, here => by
    obtain ⟨hpart, hparts⟩ := not_or.1 (mt List.mem_cons.2 h)
    rw [goes_cons, if_neg (Ne.symm hpart), goes_down hparts, List.append_assoc, List.singleton_append]

theorem under_relative {t : Text} (h : anchorOf t = .here) (p : Path) : p.under t = ⟨p.anchor, p.parts ++ partsOf t⟩ := if_pos h

theorem mem_of_mem_partsOf {t p : Text} {c : Char} (hp : p ∈ partsOf t) (hc : c ∈ p) : c ∈ t := by
  rw [← Text.join_split '/' t]
  exact Text.mem_join hc (List.mem_filter.1 hp).1

theorem zero_not_mem_text {p : Path} (h : ∀ n ∈ p.parts, '\x00' ∉ n) : '\x00' ∉ p.text := by
  obtain ⟨anchor, parts⟩ := p
  by_cases hne : parts = []
  · subst hne
    cases anchor <;> decide
  · rw [text_of_parts_ne_nil hne, List.mem_append, not_or]
    refine ⟨by cases anchor <;> simp [Anchor.text], fun hmem => ?_⟩
    rcases Text.of_mem_join hmem with hmem | ⟨n, hn, hmem⟩
    · exact absurd hmem (by decide)
    · exact h n hn hmem

theorem zero_not_mem_parts {p : Path} (h : '\x00' ∉ p.text) : ∀ n ∈ p.parts, '\x00' ∉ n := fun n hn hmem =>
  h (by rw [text_of_parts_ne_nil (List.ne_nil_of_mem hn)]; exact List.mem_append_right _ (Text.mem_join hmem hn))

theorem zero_not_mem_parent {p : Path} (h : '\x00' ∉ p.text) : '\x00' ∉ p.parent.text :=
  zero_not_mem_text fun n hn => zero_not_mem_parts h n (List.mem_of_mem_dropLast hn)

/-- What a path goes through behind another one, without two dots. -/
theorem goes_below {rel : List Text} (h : (['.', '.'] : Text) ∉ rel) (here front : List Text) :
    goes here (front ++ rel) = goes here front ++ rel := by
  rw [goes_append, goes_down h]

end Path

open ActionSweep.Path (goes goes_append goes_concat goes_cons goes_below IsPart Descends)

namespace Dir

variable {root root' : Dir} {here front parts more : List Text}

/-- Only folders have anything below them. -/
theorem folderAt_of_append {d : Dir} {path more : List Text} {e : Entry} (hmore : more ≠ []) (h : d.find? (path ++ more) = some e) :
    d.FolderAt path := by
  obtain ⟨inside, hinside, -⟩ := find?_folder_of_append hmore h
  exact ⟨inside, hinside⟩

/-- Folders stand above a folder. -/
theorem FolderAt.above (h : root.FolderAt here) (hfront : front <+: here) : root.FolderAt front := by
  obtain ⟨rest, rfl⟩ := hfront
  by_cases hrest : rest = []
  · rwa [hrest, List.append_nil] at h
  · obtain ⟨d, hd⟩ := h
    exact folderAt_of_append hrest hd

/-- No link stands anywhere. -/
def Unlinked (root : Dir) : Prop := ∀ path t, root.find? path ≠ some (.link t)

theorem LinkFree.unlinked (h : root.LinkFree) : root.Unlinked := fun _ t he => (h.find? he).1 t rfl

/-! ## Ways -/

/-- A folder stands at every place that the parts of a path go through. -/
def Way (root : Dir) (here parts : List Text) : Prop := ∀ front, front <+: parts → root.FolderAt (goes here front)

theorem Way.folderAt (h : root.Way here parts) : root.FolderAt (goes here parts) := h parts (List.prefix_refl parts)

theorem Way.start (h : root.Way here parts) : root.FolderAt here := h [] List.nil_prefix

theorem Way.first (h : root.Way here (front ++ more)) : root.Way here front :=
  fun f hf => h f (hf.trans (List.prefix_append front more))

theorem way_nil (h : root.FolderAt here) : root.Way here [] := by
  intro front hfront
  rwa [List.prefix_nil.1 hfront]

theorem Way.append (h : root.Way here front) (hmore : root.Way (goes here front) more) : root.Way here (front ++ more) := by
  intro f hf
  rcases List.prefix_or_prefix_of_prefix hf (List.prefix_append front more) with hf' | ⟨rest, rfl⟩
  · exact h f hf'
  · rw [goes_append]
    exact hmore rest ((List.prefix_append_right_inj front).1 hf)

theorem Way.concat {n : Text} (h : root.Way here front) (hn : root.FolderAt (goes here (front ++ [n]))) :
    root.Way here (front ++ [n]) := by
  intro f hf
  rcases List.prefix_concat_iff.1 hf with rfl | hf
  · exact hn
  · exact h f hf

theorem Way.tail {part : Text} (h : root.Way here (part :: parts)) : root.Way (goes here [part]) parts :=
  fun f hf => h (part :: f) (List.cons_prefix_cons.2 ⟨rfl, hf⟩)

theorem Way.mono (h : root.Way here parts) (hfolders : ∀ path, root.FolderAt path → root'.FolderAt path) :
    root'.Way here parts := fun front hfront => hfolders _ (h front hfront)

/-- The names along a way are names of entries. -/
theorem Way.names (hroot : root.WellFormed) (h : root.Way here parts) : ∀ n ∈ parts, n = ['.', '.'] ∨ IsName n := by
  intro n hn
  by_cases hup : n = ['.', '.']
  · exact .inl hup
  obtain ⟨before, after, rfl⟩ := List.append_of_mem hn
  obtain ⟨d, hd⟩ := h (before ++ [n]) ⟨after, by simp⟩
  rw [goes_concat hup] at hd
  exact .inr ((hroot.find? hd).1 n (by simp))

/-- A way that ends before its last part: the first name under which no folder stands. -/
structure Stops (root : Dir) (here parts before : List Text) (n : Text) (after : List Text) : Prop where
  split : parts = before ++ n :: after
  way : root.Way here before
  down : n ≠ ['.', '.']
  noFolder : ¬ root.FolderAt (goes here before ++ [n])

theorem way_or_stops : ∀ (parts : List Text) {here : List Text}, root.FolderAt here →
    root.Way here parts ∨ ∃ before n after, root.Stops here parts before n after
  | [], _, hhere => .inl (way_nil hhere)
  | part :: parts, here, hhere => by
    by_cases hstop : part ≠ ['.', '.'] ∧ ¬ root.FolderAt (here ++ [part])
    · exact .inr ⟨[], part, parts, rfl, way_nil hhere, hstop.1, hstop.2⟩
    have hpart : root.FolderAt (goes here [part]) := by
      rw [goes_cons, Path.goes_nil]
      split
      · exact hhere.dropLast
      · rename_i hup
        by_contra hno
        exact hstop ⟨hup, hno⟩
    have hfirst : root.Way here [part] := (way_nil hhere).concat hpart
    rcases way_or_stops parts hpart with hway | ⟨before, n, after, hs⟩
    · exact .inl (hfirst.append hway)
    · refine .inr ⟨part :: before, n, after, by rw [hs.split, List.cons_append], hfirst.append hs.way, hs.down, ?_⟩
      exact hs.noFolder

end Dir

namespace Disk

open Dir (Unlinked Way Stops)

section Walks

variable {root : Dir} {aim : Aim} {jump : List Text → List Text → Except FileProblem Place} {here parts : List Text}

/-- A walk gets to the end of a way. -/
theorem walk_way (hroot : root.WellFormed) : ∀ {front here more : List Text}, root.Way here front →
    (∀ n ∈ front ++ more, IsPart n) → walk root aim jump here (front ++ more) = walk root aim jump (goes here front) more
  | [], _, _, _, _ => rfl
  | part :: front, here, more, hway, hparts => by
    have hpart := hparts part (List.mem_cons_self ..)
    have hrest : ∀ n ∈ front ++ more, IsPart n := fun n hn => hparts n (List.mem_cons_of_mem part hn)
    have ih := walk_way hroot hway.tail hrest
    rw [List.cons_append]
    by_cases hup : part = ['.', '.']
    · subst hup
      rw [walk_up, show goes here (['.', '.'] :: front) = goes here.dropLast front from rfl]
      exact ih
    · have hgo : goes here [part] = here ++ [part] := goes_concat hup here []
      obtain ⟨d, hd⟩ := hway.tail.start
      rw [hgo] at ih hd
      have hshort : (Utf8.encode part).length ≤ nameLimit := ((hroot.find? hd).1 part (by simp)).short
      have hslash : front ++ more ≠ [[]] := fun he => (hrest [] (he ▸ List.mem_singleton_self _)).nonempty rfl
      rw [walk_down ⟨hpart.nonempty, hpart.noDot, hup⟩ fun _ => hslash, if_neg (Nat.not_lt.2 hshort), hd, goes_cons, if_neg hup]
      exact ih

theorem walk_end (hroot : root.WellFormed) (hway : root.Way here parts) (hparts : ∀ n ∈ parts, IsPart n) {e : Entry}
    (he : root.find? (goes here parts) = some e) : walk root aim jump here parts = .ok (.found (goes here parts) e) := by
  rw [← List.append_nil parts, walk_way hroot hway (by simpa using hparts), walk.eq_1, List.append_nil, he]

/-- A walk along a way that ends early. -/
theorem walk_stops (hroot : root.WellFormed) (hless : root.Unlinked) {before after : List Text} {n : Text}
    (hs : root.Stops here parts before n after) (hparts : ∀ n ∈ parts, IsPart n) :
    walk root aim jump here parts =
      if nameLimit < (Utf8.encode n).length then .error .nameTooLong
      else match root.find? (goes here before ++ [n]) with
        | some (.file b) =>
          if after.isEmpty then .ok (.found (goes here before ++ [n]) (.file b)) else .error .notAFolder
        | _ => if after.isEmpty then .ok (.free (goes here before) n) else .error .notFound := by
  obtain ⟨rfl, hway, hup, hno⟩ := hs
  have hn := hparts n (by simp)
  have hslash : after ≠ [[]] := fun he => (hparts [] (by simp [he])).nonempty rfl
  rw [walk_way hroot hway hparts, walk_down ⟨hn.nonempty, hn.noDot, hup⟩ fun _ => hslash]
  cases hfind : root.find? (goes here before ++ [n]) with
  | none => rfl
  | some e =>
    cases e with
    | file b => rfl
    | link t => exact absurd hfind (hless _ t)
    | folder d => exact absurd ⟨d, hfind⟩ hno

/-- A walk down from a folder leads to what stands below it. -/
theorem walk_below (hroot : root.WellFormed) (hless : root.Unlinked) (hhere : root.FolderAt here) {rel : List Text}
    (hdown : Descends rel) (hshort : ∀ n ∈ rel, (Utf8.encode n).length ≤ nameLimit) :
    (∃ e, root.find? (here ++ rel) = some e ∧ walk root aim jump here rel = .ok (.found (here ++ rel) e)) ∨
      root.find? (here ++ rel) = none ∧ ((∃ folder name, walk root aim jump here rel = .ok (.free folder name)) ∨
        ∃ problem, problem.isAbsence = true ∧ walk root aim jump here rel = .error problem) := by
  have hup : (['.', '.'] : Text) ∉ rel := fun hmem => (hdown _ hmem).2 rfl
  have hparts : ∀ n ∈ rel, IsPart n := fun n hn => (hdown n hn).1
  rcases Dir.way_or_stops rel hhere with hway | ⟨before, n, after, hs⟩
  · obtain ⟨d, hd⟩ := hway.folderAt
    have hwalk : walk root aim jump here rel = _ := walk_end hroot hway hparts hd
    rw [Path.goes_down hup] at hd hwalk
    exact .inl ⟨_, hd, hwalk⟩
  have hgo : goes here before = here ++ before := Path.goes_down (fun hmem => hup (hs.split ▸ List.mem_append_left _ hmem)) here
  have hwalk : walk root aim jump here rel = _ := walk_stops hroot hless hs hparts
  have hrel : here ++ rel = here ++ before ++ [n] ++ after := by simp [hs.split]
  rw [if_neg (Nat.not_lt.2 (hshort n (by simp [hs.split]))), hgo] at hwalk
  cases hfind : root.find? (here ++ before ++ [n]) with
  | none =>
    refine .inr ⟨hrel ▸ Dir.find?_none_below hfind (List.prefix_append _ after), ?_⟩
    rw [hfind] at hwalk
    cases after with
    | nil => exact .inl ⟨_, _, hwalk⟩
    | cons => exact .inr ⟨.notFound, rfl, hwalk⟩
  | some e =>
    cases e with
    | link t => exact absurd hfind (hless _ t)
    | folder d => exact absurd ⟨d, hgo ▸ hfind⟩ hs.noFolder
    | file b =>
      rw [hfind] at hwalk
      cases after with
      | nil => exact .inl ⟨_, by rwa [hrel, List.append_nil], by rwa [hrel, List.append_nil]⟩
      | cons m after =>
        refine .inr ⟨?_, .inr ⟨.notAFolder, rfl, hwalk⟩⟩
        rw [hrel]
        exact Dir.find?_below_leaf (fun h => hs.noFolder (hgo ▸ h)) (List.cons_ne_nil m after)

/-- A walk that ends at a folder went along a way. -/
theorem way_of_walk (hroot : root.WellFormed) (hless : root.Unlinked) (hhere : root.FolderAt here)
    (hparts : ∀ n ∈ parts, IsPart n) {place : List Text} {d : Dir}
    (h : walk root aim jump here parts = .ok (.found place (.folder d))) : root.Way here parts ∧ place = goes here parts := by
  rcases Dir.way_or_stops parts hhere with hway | ⟨before, n, after, hs⟩
  · obtain ⟨d', hd'⟩ := hway.folderAt
    rw [walk_end hroot hway hparts hd'] at h
    cases h
    exact ⟨hway, rfl⟩
  · rw [walk_stops hroot hless hs hparts] at h
    grind

end Walks

/-! ## Paths -/

/-- The place from which a path starts. -/
def start (disk : Disk) (p : Path) : List Text := if p.isAbsolute then [] else disk.workingFolder

/-- The place that a path names if it meets no link. -/
def spot (disk : Disk) (p : Path) : List Text := goes (disk.start p) p.parts

/-- A file tree without links, with the working folder in it. -/
structure Plain (disk : Disk) : Prop where
  wellFormed : disk.root.WellFormed
  unlinked : disk.root.Unlinked
  grounded : disk.Grounded

variable {disk : Disk} {p : Path} {rel : List Text}

theorem Plain.start (h : disk.Plain) (p : Path) : disk.root.FolderAt (disk.start p) := h.grounded.start p

theorem spot_setRoot (root : Dir) (p : Path) : (disk.setRoot root).spot p = disk.spot p := rfl

theorem spot_below (h : (['.', '.'] : Text) ∉ rel) : disk.spot ⟨p.anchor, p.parts ++ rel⟩ = disk.spot p ++ rel := goes_below h _ _

/-- Along a way a path leads to its place. -/
theorem leads_way (hroot : disk.root.WellFormed) (hp : p.Normal) (hway : disk.root.Way (disk.start p) p.parts) (aim : Aim) :
    ∃ d, disk.leads aim p = .ok (.found (disk.spot p) (.folder d)) := by
  obtain ⟨d, hd⟩ := hway.folderAt
  obtain ⟨jump, hjump⟩ := resolveParts_walk disk.root aim linkLimit
  refine ⟨d, ?_⟩
  unfold leads
  rw [hjump]
  exact walk_end hroot hway hp hd

theorem leadsToFolder_of_way (hroot : disk.root.WellFormed) (hp : p.Normal) (hway : disk.root.Way (disk.start p) p.parts) :
    ∃ d, disk.LeadsToFolder p (disk.spot p) d := leads_way hroot hp hway .target

theorem resolve_way (hroot : disk.root.WellFormed) (hp : p.Normal) (hway : disk.root.Way (disk.start p) p.parts)
    (hasks : '\x00' ∉ p.text ∧ (Utf8.encode p.text).length ≤ pathLimit) (aim : Aim) :
    ∃ d, disk.resolve aim p.text = .ok (.found (disk.spot p) (.folder d)) := by
  obtain ⟨d, hd⟩ := leads_way hroot hp hway aim
  exact ⟨d, (resolve_text_ok hp).2 ⟨hasks, hd⟩⟩

theorem way_of_leadsToFolder (hroot : disk.root.WellFormed) (hless : disk.root.Unlinked) (hdisk : disk.Grounded) (hp : p.Normal)
    {folder : List Text} {d : Dir} (h : disk.LeadsToFolder p folder d) :
    disk.root.Way (disk.start p) p.parts ∧ folder = disk.spot p := by
  obtain ⟨jump, hjump⟩ := resolveParts_walk disk.root .target linkLimit
  unfold LeadsToFolder leads at h
  rw [hjump] at h
  exact way_of_walk hroot hless (hdisk.start p) hp h

/-- A path along a way can be shown without a zero. -/
theorem zero_not_mem_way (hroot : disk.root.WellFormed) (hway : disk.root.Way (disk.start p) p.parts)
    (hrel : ∀ n ∈ rel, '\x00' ∉ n) : '\x00' ∉ (Path.mk p.anchor (p.parts ++ rel)).text := by
  refine Path.zero_not_mem_text fun n hn => ?_
  rcases List.mem_append.1 hn with hn | hn
  · rcases hway.names hroot n hn with rfl | hname
    · decide
    · exact hname.noZero
  · exact hrel n hn

/-- A path below a way that is short enough to be asked about. -/
structure Below (disk : Disk) (p : Path) (rel : List Text) : Prop where
  normal : p.Normal
  way : disk.root.Way (disk.start p) p.parts
  down : Descends rel
  short : (Utf8.encode (Path.mk p.anchor (p.parts ++ rel)).text).length ≤ pathLimit

theorem Below.normal_all (h : disk.Below p rel) : (Path.mk p.anchor (p.parts ++ rel)).Normal := by
  intro n hn
  rcases List.mem_append.1 hn with hn | hn
  · exact h.normal n hn
  · exact (h.down n hn).1

theorem Below.mono (h : disk.Below p rel) {root : Dir} (hfolders : ∀ path, disk.root.FolderAt path → root.FolderAt path) :
    (disk.setRoot root).Below p rel := ⟨h.normal, h.way.mono hfolders, h.down, h.short⟩

theorem Below.folderAt (h : disk.Below p rel) : disk.root.FolderAt (disk.spot p) := h.way.folderAt

/-- The walk of a path below a way. -/
theorem Below.leads (hroot : disk.root.WellFormed) (h : disk.Below p rel) (aim : Aim) :
    ∃ jump, disk.leads aim ⟨p.anchor, p.parts ++ rel⟩ = walk disk.root aim jump (disk.spot p) rel := by
  obtain ⟨jump, hjump⟩ := resolveParts_walk disk.root aim linkLimit
  refine ⟨jump, ?_⟩
  unfold Disk.leads
  rw [hjump]
  exact walk_way hroot h.way h.normal_all

/-- A path below a way leads to what stands there. -/
theorem Below.resolve (hroot : disk.root.WellFormed) (hless : disk.root.Unlinked) (h : disk.Below p rel) {e : Entry}
    (he : disk.root.find? (disk.spot p ++ rel) = some e) (aim : Aim) :
    disk.resolve aim (Path.mk p.anchor (p.parts ++ rel)).text = .ok (.found (disk.spot p ++ rel) e) := by
  have hnames : ∀ n ∈ rel, IsName n := fun n hn => (hroot.find? he).1 n (List.mem_append_right _ hn)
  refine (resolve_text_ok h.normal_all).2 ⟨⟨zero_not_mem_way hroot h.way fun n hn => (hnames n hn).noZero, h.short⟩, ?_⟩
  obtain ⟨jump, hjump⟩ := h.leads hroot aim
  rw [hjump]
  rcases walk_below hroot hless h.folderAt h.down fun n hn => (hnames n hn).short with ⟨e', he', hwalk⟩ | ⟨hnone, -⟩
  · obtain rfl := Option.some.inj (he.symm.trans he')
    exact hwalk
  · cases he.symm.trans hnone

/-- Below a way there is something if something stands there. -/
theorem Below.present (hroot : disk.root.WellFormed) (hless : disk.root.Unlinked) (h : disk.Below p rel)
    (hshort : ∀ n ∈ rel, (Utf8.encode n).length ≤ nameLimit) :
    disk.present (Path.mk p.anchor (p.parts ++ rel)).text = .ok (disk.root.find? (disk.spot p ++ rel)).isSome := by
  cases hfind : disk.root.find? (disk.spot p ++ rel) with
  | some e =>
    unfold Disk.present test
    rw [h.resolve hroot hless hfind .target]
    rfl
  | none =>
    obtain ⟨jump, hjump⟩ := h.leads hroot .target
    have hnowhere := (@walk_below disk.root .target jump _ hroot hless h.folderAt rel h.down hshort).resolve_left (by
      rintro ⟨e, he, -⟩
      cases hfind.symm.trans he)
    unfold Disk.present test
    rw [resolve_text h.normal_all, hjump]
    by_cases hzero : (Path.mk p.anchor (p.parts ++ rel)).text.contains '\x00'
    · rw [if_pos hzero]
      rfl
    rw [if_neg hzero, if_neg (Nat.not_lt.2 h.short)]
    obtain ⟨-, ⟨folder, name, hwalk⟩ | ⟨problem, habsent, hwalk⟩⟩ := hnowhere
    · rw [hwalk]
      rfl
    · rw [hwalk]
      show (if problem.isAbsence then _ else _) = _
      rw [if_pos habsent]
      rfl

end Disk

end ActionSweep
