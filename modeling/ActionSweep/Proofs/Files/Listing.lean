/-
Listings of a folder: its contents, the files that a walk meets, and the folders that hold no file.
After files were removed each listing is what it was without them, in the same order, and a folder
that holds no file now but did before has held one of the removed ones.
-/
import ActionSweep.Proofs.Files.Removal

namespace ActionSweep

namespace Dir

variable {gone : List Text → Bool}

/-! ## Contents -/

theorem contents_drop (base : List Text) : ∀ (d : Dir) (path : List Text),
    (d.drop gone (base ++ path)).contents path =
      (d.contents path).filterMap fun x => (x.2.drop gone (base ++ x.1)).map (x.1, ·)
  | empty, _ => rfl
  | file n b rest, path => by
    have ih := contents_drop base rest path
    rw [contents, List.filterMap_cons]
    rcases hg : gone (base ++ path ++ [n])
    · rw [drop_file_kept b rest hg, contents, ih]
      rw [List.append_assoc] at hg
      rw [Entry.drop_kept b hg, Option.map_some]
    · rw [drop_file_gone b rest hg, ih]
      rw [List.append_assoc] at hg
      rw [Entry.drop_gone b hg, Option.map_none]
  | link n t rest, path => by
    rw [drop, contents, contents, List.filterMap_cons, contents_drop base rest path]
    rfl
  | folder n d rest, path => by
    have hd := contents_drop base d (path ++ [n])
    rw [← List.append_assoc] at hd
    rw [drop, contents, contents, List.filterMap_cons, List.filterMap_append, contents_drop base rest path, hd]
    simp only [Entry.drop, Option.map_some, List.append_assoc]

/-- The contents of what is left are what is left of the contents. -/
theorem contents_left (d : Dir) (place : List Text) :
    (d.drop gone place).contents [] =
      (d.contents []).filterMap fun x => (x.2.drop gone (place ++ x.1)).map (x.1, ·) := by
  have h : (d.drop gone (place ++ [])).contents [] = _ := contents_drop place d []
  rwa [List.append_nil] at h

theorem mem_contents_left {d : Dir} {place path : List Text} {left : Entry}
    (h : (path, left) ∈ (d.drop gone place).contents []) :
    ∃ e, (path, e) ∈ d.contents [] ∧ e.drop gone (place ++ path) = some left := by
  rw [contents_left] at h
  obtain ⟨⟨path', e⟩, hx, hdrop⟩ := List.mem_filterMap.1 h
  obtain ⟨left', hleft, heq⟩ := Option.map_eq_some_iff.1 hdrop
  cases heq
  exact ⟨e, hx, hleft⟩

/-! ## Folders without files -/

theorem holdsNoFile_iff : ∀ {d : Dir}, d.WellFormed →
    (d.holdsNoFile = true ↔ ∀ path e, d.find? path = some e → ∃ inside, e = .folder inside)
  | empty, _ => by
    refine ⟨fun _ path e h => ?_, fun _ => rfl⟩
    cases path with
    | nil => cases h; exact ⟨_, rfl⟩
    | cons n path => rw [find?_cons] at h; cases h
  | file n b rest, _ => by
    refine ⟨by rintro ⟨⟩, fun h => ?_⟩
    obtain ⟨inside, h⟩ := h [n] (.file b) (by rw [find?_singleton, get?, if_pos rfl])
    cases h
  | link n t rest, _ => by
    refine ⟨by rintro ⟨⟩, fun h => ?_⟩
    obtain ⟨inside, h⟩ := h [n] (.link t) (by rw [find?_singleton, get?, if_pos rfl])
    cases h
  | folder n d rest, ⟨_, hbelow, hd, hrest⟩ => by
    rw [holdsNoFile, Bool.and_eq_true, holdsNoFile_iff hd, holdsNoFile_iff hrest]
    constructor
    · rintro ⟨h1, h2⟩ path e h
      cases path with
      | nil => cases h; exact ⟨_, rfl⟩
      | cons m path =>
        rw [find?_folder] at h
        split at h
        · exact h1 path e h
        · exact h2 _ e h
    · intro h
      refine ⟨fun path e he => h (n :: path) e (by rw [find?_folder, if_pos rfl, he]), fun path e he => ?_⟩
      · cases path with
        | nil => cases he; exact ⟨_, rfl⟩
        | cons m path => exact h _ e (find?_of_rest (e := .folder d) hbelow (List.cons_ne_nil m path) he)

/-- A folder that holds no file any more has lost one. -/
theorem lost_of_holdsNoFile {d : Dir} {here : List Text} (hd : d.WellFormed)
    (hafter : (d.drop gone here).holdsNoFile = true) (hbefore : d.holdsNoFile ≠ true) :
    ∃ path b, d.find? path = some (.file b) ∧ gone (here ++ path) = true := by
  rw [ne_eq, holdsNoFile_iff hd] at hbefore
  push Not at hbefore
  obtain ⟨path, e, he, hno⟩ := hbefore
  have hleft := (holdsNoFile_iff hd.drop).1 hafter path
  rw [find?_drop hd, he, Option.bind_some] at hleft
  cases e with
  | folder inside => exact absurd rfl (hno inside)
  | link t =>
    obtain ⟨inside, h⟩ := hleft _ rfl
    cases h
  | file b =>
    refine ⟨path, b, he, ?_⟩
    by_contra hg
    obtain ⟨inside, h⟩ := hleft (.file b) (if_neg hg)
    cases h

theorem under_name (p : Path) {n : Text} (hn : Path.IsPart n) : p.under n = ⟨p.anchor, p.parts ++ [n]⟩ := by
  have h : (Path.mk .here [n]).text = n := rfl
  have hnormal : (Path.mk .here [n]).Normal := by
    intro q hq
    rw [List.mem_singleton] at hq
    subst hq; exact hn
  have := Path.under_text (p := p) hnormal rfl
  rwa [h] at this

/-- The folders without files below a folder, by the paths that lead to them. -/
theorem mem_emptyFolders : ∀ {d : Dir} {path p : Path}, d.WellFormed →
    (p ∈ d.emptyFolders path ↔ ∃ names inside, names ≠ [] ∧ d.find? names = some (.folder inside) ∧
      inside.holdsNoFile = true ∧ p = ⟨path.anchor, path.parts ++ names⟩)
  | empty, path, p, _ => by
    simp only [emptyFolders, List.not_mem_nil, false_iff, not_exists, not_and]
    rintro names inside hne hfind
    obtain ⟨m, ms, rfl⟩ := List.exists_cons_of_ne_nil hne
    rw [find?_cons] at hfind
    cases hfind
  | file n b rest, path, p, ⟨_, hbelow, hrest⟩ => by
    rw [emptyFolders, mem_emptyFolders hrest]
    refine exists_congr fun names => exists_congr fun inside => and_congr_right fun hne => ?_
    rw [← find?_leaf_folder (e := .file b) (by rintro d ⟨⟩) hbelow hne, cons]
  | link n t rest, path, p, ⟨_, hbelow, hrest⟩ => by
    rw [emptyFolders, mem_emptyFolders hrest]
    refine exists_congr fun names => exists_congr fun inside => and_congr_right fun hne => ?_
    rw [← find?_leaf_folder (e := .link t) (by rintro d ⟨⟩) hbelow hne, cons]
  | folder n d rest, path, p, ⟨hn, hbelow, hd, hrest⟩ => by
    rw [emptyFolders, List.mem_append, List.mem_append, mem_emptyFolders hrest, mem_emptyFolders hd,
      under_name path hn.part]
    constructor
    · rintro ((⟨names, inside, hne, hfind, hempty, rfl⟩ | h) | ⟨names, inside, hne, hfind, h⟩)
      · exact ⟨n :: names, inside, by simp, (find?_folder_iff hbelow (by simp)).2 (.inl ⟨names, rfl, hfind⟩), hempty,
          by simp⟩
      · split at h
        · rename_i hempty
          rw [List.mem_singleton] at h
          exact ⟨[n], d, by simp, (find?_folder_iff hbelow (by simp)).2 (.inl ⟨[], rfl, rfl⟩), hempty, h⟩
        · cases h
      · exact ⟨names, inside, hne, (find?_folder_iff hbelow hne).2 (.inr hfind), h⟩
    · rintro ⟨names, inside, hne, hfind, hempty, rfl⟩
      rcases (find?_folder_iff hbelow hne).1 hfind with ⟨below, rfl, hinside⟩ | hrest
      · cases below with
        | nil =>
          cases hinside
          rw [if_pos hempty]
          exact .inl (.inr (List.mem_singleton_self _))
        | cons m below => exact .inl (.inl ⟨m :: below, inside, by simp, hinside, hempty, by simp⟩)
      · exact .inr ⟨names, inside, hne, hrest, hempty, rfl⟩

/-- A folder without files in what is left had none before, or has lost one. -/
theorem emptyFolders_left {d : Dir} (hd : d.WellFormed) {place : List Text} {path p : Path}
    (h : p ∈ (d.drop gone place).emptyFolders path) :
    p ∈ d.emptyFolders path ∨ ∃ names more b, names ≠ [] ∧ more ≠ [] ∧ p = ⟨path.anchor, path.parts ++ names⟩ ∧
      d.find? (names ++ more) = some (.file b) ∧ gone (place ++ names ++ more) = true := by
  obtain ⟨names, left, hnames, hfind, hempty, rfl⟩ := (mem_emptyFolders hd.drop).1 h
  rw [find?_drop hd, Option.bind_eq_some_iff] at hfind
  obtain ⟨e, he, hdrop⟩ := hfind
  obtain ⟨inside, rfl, rfl⟩ := Entry.drop_folder hdrop
  by_cases hbefore : inside.holdsNoFile = true
  · exact .inl ((mem_emptyFolders hd).2 ⟨names, inside, hnames, he, hbefore, rfl⟩)
  · obtain ⟨more, b, hmore, hgone⟩ := lost_of_holdsNoFile ((hd.find? he).2 inside rfl) hempty hbefore
    have hne : more ≠ [] := by
      rintro rfl
      cases hmore
    refine .inr ⟨names, more, b, hnames, hne, rfl, ?_, hgone⟩
    obtain ⟨m, ms, rfl⟩ := List.exists_cons_of_ne_nil hne
    rw [find?_append, he]
    exact hmore

end Dir

/-! ## Walks -/

namespace Candidate

open CandidateRules (joined)

/-- The name under which a walk meets what stands at a path below a folder. -/
def met (path : Text) (names : List Text) : Text := names.foldl joined path

variable {gone : List Text → Bool} {links entered : Text → Bool} {keep : Text → Bool}

/-- A walk over what is left meets the files that it met before, apart from removed ones. -/
theorem filesIn_drop {here : List Text} {path : Text} : ∀ {d : Dir}, d.WellFormed →
    (∀ n b, d.get? n = some (.file b) → gone (here ++ [n]) = true → keep (joined path n) = false) →
    (filesIn links path (d.drop gone here)).filter keep = (filesIn links path d).filter keep
  | .empty, _, _ => rfl
  | .file n b rest, ⟨_, hbelow, hrest⟩, h => by
    have ih := filesIn_drop (d := rest) hrest fun m c hm => h m c (by
      rw [Dir.get?, if_neg (Dir.ne_of_below hbelow (Dir.mem_names_of_get? hm)), hm])
    rw [filesIn, List.filter_cons]
    rcases hg : gone (here ++ [n])
    · rw [Dir.drop_file_kept b rest hg, filesIn, List.filter_cons, ih]
    · rw [Dir.drop_file_gone b rest hg, ih,
        if_neg (by rw [h n b (by rw [Dir.get?, if_pos rfl]) hg]; decide)]
  | .link n t rest, ⟨_, hbelow, hrest⟩, h => by
    have ih := filesIn_drop (d := rest) hrest fun m c hm => h m c (by
      rw [Dir.get?, if_neg (Dir.ne_of_below hbelow (Dir.mem_names_of_get? hm)), hm])
    rw [Dir.drop, filesIn, filesIn]
    split
    · exact ih
    · rw [List.filter_cons, List.filter_cons, ih]
  | .folder n d rest, ⟨_, hbelow, _, hrest⟩, h => by
    have ih := filesIn_drop (d := rest) hrest fun m c hm => h m c (by
      rw [Dir.get?, if_neg (Dir.ne_of_below hbelow (Dir.mem_names_of_get? hm)), hm])
    rw [Dir.drop, filesIn, filesIn, ih]

/-- What is asked of the files below a folder is asked of the files directly in it. -/
theorem get?_of_find? {d : Dir} {here : List Text} {path : Text}
    (h : ∀ names b, names ≠ [] → d.find? names = some (.file b) → gone (here ++ names) = true →
      keep (met path names) = false) (n : Text) (b : Bytes) (hn : d.get? n = some (.file b))
    (hg : gone (here ++ [n]) = true) : keep (joined path n) = false :=
  h [n] b (List.cons_ne_nil n []) hn hg

theorem filesBelow_drop : ∀ {d : Dir} {here : List Text} {path : Text}, d.WellFormed →
    (∀ names b, names ≠ [] → d.find? names = some (.file b) → gone (here ++ names) = true →
      keep (met path names) = false) →
    (filesBelow links entered path (d.drop gone here)).filter keep =
      (filesBelow links entered path d).filter keep
  | .empty, _, _, _, _ => rfl
  | .file n b rest, here, path, ⟨_, hbelow, hrest⟩, h => by
    have ih := filesBelow_drop (d := rest) hrest fun names c hne hc =>
      h names c hne (Dir.find?_of_rest (e := .file b) hbelow hne hc)
    rw [filesBelow]
    rcases hg : gone (here ++ [n])
    · rw [Dir.drop_file_kept b rest hg, filesBelow, ih]
    · rw [Dir.drop_file_gone b rest hg, ih]
  | .link n t rest, here, path, ⟨_, hbelow, hrest⟩, h => by
    have ih := filesBelow_drop (d := rest) hrest fun names c hne hc =>
      h names c hne (Dir.find?_of_rest (e := .link t) hbelow hne hc)
    rw [Dir.drop, filesBelow, filesBelow, ih]
  | .folder n d rest, here, path, ⟨_, hbelow, hd, hrest⟩, h => by
    have ih := filesBelow_drop (d := rest) hrest fun names c hne hc =>
      h names c hne (Dir.find?_of_rest (e := .folder d) hbelow hne hc)
    have hinside : ∀ names b, names ≠ [] → d.find? names = some (.file b) →
        gone (here ++ [n] ++ names) = true → keep (met (joined path n) names) = false := by
      intro names b _ hb hg
      refine h (n :: names) b (List.cons_ne_nil n names) ?_ (by rwa [List.append_assoc] at hg)
      rw [Dir.find?_folder, if_pos rfl, hb]
    rw [Dir.drop, filesBelow, filesBelow, List.filter_append, List.filter_append, ih]
    split
    · rw [List.filter_append, List.filter_append, filesIn_drop hd (get?_of_find? hinside),
        filesBelow_drop hd hinside]
    · rfl

theorem walk_drop {d : Dir} {here : List Text} {path : Text} (hd : d.WellFormed)
    (h : ∀ names b, names ≠ [] → d.find? names = some (.file b) → gone (here ++ names) = true →
      keep (met path names) = false) :
    (walk links entered path (d.drop gone here)).filter keep = (walk links entered path d).filter keep := by
  unfold walk
  rw [List.filter_append, List.filter_append, filesIn_drop hd (get?_of_find? h), filesBelow_drop hd h]

end Candidate

end ActionSweep
