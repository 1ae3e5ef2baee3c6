/-
What the walk from a folder meets, and in which order. In a folder without links it meets exactly the files
to which folders lead that are all entered: files before what lies in folders, either by name. So two
walks that meet the same files meet them in the same order, and the candidates of a project without links
are its text files of some category that lie below a base, with entered folders between.
-/
import ActionSweep.Proofs.Scan.Candidates

namespace ActionSweep

open ActionSweep.Path (IsPart)
open Outcome (mapM_ok)

namespace Candidate

open CandidateRules (joined)

/-! ## The order of a walk -/

/-- A file stands before what lies in folders; otherwise the names decide. -/
def Before : List Text → List Text → Prop
  | [m], [n] => m < n
  | [_], _ :: _ :: _ => True
  | m :: p :: ps, n :: q :: qs => m < n ∨ m = n ∧ Before (p :: ps) (q :: qs)
  | _, _ => False

theorem not_before_self : ∀ names : List Text, ¬ Before names names
  | [], h => h
  | [m], h => List.lt_irrefl m h
  | m :: p :: ps, h => by
    rcases h with h | ⟨-, h⟩
    · exact List.lt_irrefl m h
    · exact not_before_self (p :: ps) h

theorem Before.asymm : ∀ {a b : List Text}, Before a b → ¬ Before b a
  | [], _, h, _ => by simp [Before] at h
  | [_], [], h, _ => by simp [Before] at h
  | [_], [_], h, h' => List.lt_asymm h h'
  | [_], _ :: _ :: _, _, h' => by simp [Before] at h'
  | _ :: _ :: _, [], h, _ => by simp [Before] at h
  | _ :: _ :: _, [_], h, _ => by simp [Before] at h
  | m :: p :: ps, n :: q :: qs, h, h' => by
    rcases h with h | ⟨rfl, h⟩ <;> rcases h' with h' | ⟨he, h'⟩
    · exact List.lt_asymm h h'
    · exact List.lt_irrefl m (he ▸ h)
    · exact List.lt_irrefl m h'
    · exact Before.asymm h h'

/-- Lists in this order that have the same paths are the same. -/
theorem eq_of_before {l m : List (List Text)} (hl : l.Pairwise Before) (hm : m.Pairwise Before)
    (h : ∀ names, names ∈ l ↔ names ∈ m) : l = m := by
  have hnodup : ∀ {l : List (List Text)}, l.Pairwise Before → l.Nodup := by
    intro l h
    refine List.Pairwise.imp ?_ h
    rintro a _ hab rfl
    exact not_before_self a hab
  refine List.Perm.eq_of_pairwise (fun a b _ _ hab hba => absurd hba hab.asymm) hl hm ?_
  exact (List.perm_ext_iff_of_nodup (hnodup hl) (hnodup hm)).2 h

/-- Some files are those at the paths of a kind below a folder, in the order of a walk. -/
def Meets (path : Text) (files : List Text) (kind : List Text → Prop) : Prop :=
  ∃ paths : List (List Text), files = paths.map (met path) ∧ paths.Pairwise Before ∧ ∀ names, names ∈ paths ↔ kind names

namespace Meets

variable {path : Text} {files more : List Text} {kind other : List Text → Prop}

theorem congr (h : Meets path files kind) (he : ∀ names, kind names ↔ other names) : Meets path files other := by
  obtain ⟨paths, hfiles, hsorted, hmem⟩ := h
  exact ⟨paths, hfiles, hsorted, fun names => (hmem names).trans (he names)⟩

theorem nil : Meets path [] fun _ => False := ⟨[], rfl, List.Pairwise.nil, by simp⟩

theorem append (h : Meets path files kind) (h' : Meets path more other)
    (hbefore : ∀ a b, kind a → other b → Before a b) : Meets path (files ++ more) fun names => kind names ∨ other names := by
  obtain ⟨paths, rfl, hsorted, hmem⟩ := h
  obtain ⟨paths', rfl, hsorted', hmem'⟩ := h'
  refine ⟨paths ++ paths', List.map_append.symm, ?_, fun names => ?_⟩
  · exact List.pairwise_append.2 ⟨hsorted, hsorted', fun a ha b hb =>
      hbefore a b ((hmem a).1 ha) ((hmem' b).1 hb)⟩
  · rw [List.mem_append, hmem, hmem']

/-- What is met in a folder is met from the folder around it, with the name of the folder in front. -/
theorem below {n : Text} (h : Meets (joined path n) files kind) (hne : ¬ kind []) :
    Meets path files fun names => ∃ below, names = n :: below ∧ kind below := by
  obtain ⟨paths, rfl, hsorted, hmem⟩ := h
  refine ⟨paths.map (n :: ·), by rw [List.map_map]; rfl, ?_, fun names => ?_⟩
  · rw [List.pairwise_map]
    refine hsorted.imp_of_mem fun {a b} ha hb hab => ?_
    have hcons : ∀ x ∈ paths, ∃ m ms, x = m :: ms := fun x hx =>
      List.exists_cons_of_ne_nil fun he => hne (he ▸ (hmem x).1 hx)
    obtain ⟨m, ms, rfl⟩ := hcons a ha
    obtain ⟨k, ks, rfl⟩ := hcons b hb
    exact .inr ⟨rfl, hab⟩
  · simp only [List.mem_map, hmem, eq_comm, and_comm]

/-- A walk that meets what another one meets, as far as it is kept, meets it in the same order. -/
theorem eq_filter {keep : Text → Bool} (h : Meets path files kind) (h' : Meets path more other)
    (hkeep : ∀ names, kind names ↔ other names ∧ keep (met path names) = true) : files = more.filter keep := by
  obtain ⟨paths, rfl, hsorted, hmem⟩ := h
  obtain ⟨paths', rfl, hsorted', hmem'⟩ := h'
  rw [List.filter_map]
  congr 1
  refine eq_of_before hsorted (hsorted'.filter _) fun names => ?_
  rw [List.mem_filter, hmem, hmem', hkeep]
  rfl

theorem mem_iff (h : Meets path files kind) {file : Text} : file ∈ files ↔ ∃ names, kind names ∧ file = met path names := by
  obtain ⟨paths, rfl, -, hmem⟩ := h
  simp only [List.mem_map, hmem, eq_comm]

end Meets

/-! ## What is met -/

/-- A file stands at a path below a folder, and the folders on the way are entered. -/
structure Shown (entered : Text → Bool) (path : Text) (d : Dir) (names : List Text) : Prop where
  stands : ∃ b, d.find? names = some (.file b)
  entered : ∀ front back, names = front ++ back → front ≠ [] → back ≠ [] → entered (met path front) = true

variable {links entered : Text → Bool} {path : Text} {d : Dir}

theorem not_shown_nil : ¬ Shown entered path d [] := by
  rintro ⟨⟨b, hb⟩, -⟩
  cases hb

theorem shown_singleton {n : Text} : Shown entered path d [n] ↔ ∃ b, d.get? n = some (.file b) := by
  refine ⟨fun h => h.stands, fun h => ⟨h, fun front back he hfront hback => ?_⟩⟩
  rcases List.append_eq_singleton_iff.1 he.symm with ⟨h, -⟩ | ⟨-, h⟩
  · exact absurd h hfront
  · exact absurd h hback

theorem shown_cons {n : Text} {names : List Text} (hne : names ≠ []) : Shown entered path d (n :: names) ↔
    ∃ inside, d.get? n = some (.folder inside) ∧ entered (joined path n) = true ∧
      Shown entered (joined path n) inside names := by
  constructor
  · rintro ⟨⟨b, hb⟩, hentered⟩
    have hb' : d.find? ([n] ++ names) = some (.file b) := hb
    obtain ⟨inside, hinside, hfind⟩ := Dir.find?_folder_of_append hne hb'
    refine ⟨inside, hinside, hentered [n] names rfl (List.cons_ne_nil n []) hne, ⟨b, hfind⟩, ?_⟩
    intro front back he hfront hback
    exact hentered (n :: front) back (by rw [he, List.cons_append]) (List.cons_ne_nil n front) hback
  · rintro ⟨inside, hinside, hn, ⟨b, hb⟩, hentered⟩
    refine ⟨⟨b, ?_⟩, fun front back he hfront hback => ?_⟩
    · rw [Dir.find?_cons, hinside, Option.bind_some, ← hb]
      cases names <;> rfl
    · obtain ⟨m, front, rfl⟩ := List.exists_cons_of_ne_nil hfront
      obtain ⟨rfl, hnames⟩ := List.cons.inj (he.trans List.cons_append)
      by_cases hfront : front = []
      · rw [hfront]
        exact hn
      · exact hentered front back hnames hfront hback

/-- The files directly in a folder come in the order of their names. -/
theorem filesIn_meets : ∀ {d : Dir}, d.WellFormed → d.LinkFree →
    Meets path (filesIn links path d) fun names => ∃ n b, names = [n] ∧ d.get? n = some (.file b)
  | .empty, _, _ => Meets.nil.congr (by simp [Dir.get?])
  | .file n b rest, ⟨_, hbelow, hrest⟩, hfree => by
    have ih : Meets path (filesIn links path rest) _ := filesIn_meets hrest hfree
    have hfirst : Meets path [joined path n] fun names => names = [n] :=
      ⟨[[n]], rfl, List.pairwise_singleton .., by simp⟩
    have hall := hfirst.append ih (by
      rintro _ _ rfl ⟨m, c, rfl, hm⟩
      exact hbelow m (Dir.mem_names_of_get? hm))
    refine hall.congr fun names => ?_
    constructor
    · rintro (rfl | ⟨m, c, rfl, hm⟩)
      · exact ⟨n, b, rfl, by rw [Dir.get?, if_pos rfl]⟩
      · exact ⟨m, c, rfl, by rw [Dir.get?, if_neg (Dir.ne_of_below hbelow (Dir.mem_names_of_get? hm)), hm]⟩
    · rintro ⟨m, c, rfl, hm⟩
      rw [Dir.get?] at hm
      split at hm
      · rename_i he
        exact .inl (by rw [he])
      · exact .inr ⟨m, c, rfl, hm⟩
  | .folder n inside rest, ⟨_, hbelow, _, hrest⟩, hfree => by
    have ih : Meets path (filesIn links path rest) _ := filesIn_meets hrest hfree.2
    refine ih.congr fun names => exists_congr fun m => exists_congr fun c => and_congr_right fun _ => ?_
    rw [Dir.get?]
    split
    · rename_i he
      subst he
      refine ⟨fun hm => absurd rfl (Dir.ne_of_below hbelow (Dir.mem_names_of_get? hm)), by rintro ⟨⟩⟩
    · rfl

theorem walk_of_filesBelow (hd : d.WellFormed) (hfree : d.LinkFree)
    (h : Meets path (filesBelow links entered path d) fun names => 2 ≤ names.length ∧ Shown entered path d names) :
    Meets path (walk links entered path d) (Shown entered path d) := by
  have hall := (show Meets path (filesIn links path d) _ from filesIn_meets hd hfree).append h (by
    rintro _ b ⟨n, c, rfl, -⟩ ⟨hlong, -⟩
    match b, hlong with
    | _ :: _ :: _, _ => trivial)
  refine hall.congr fun names => ?_
  constructor
  · rintro (⟨n, b, rfl, hn⟩ | ⟨-, h⟩)
    · exact shown_singleton.2 ⟨b, hn⟩
    · exact h
  · intro h
    match names, h with
    | [], h => exact absurd h not_shown_nil
    | [n], h =>
      obtain ⟨b, hb⟩ := shown_singleton.1 h
      exact .inl ⟨n, b, rfl, hb⟩
    | _ :: _ :: _, h => exact .inr ⟨by simp, h⟩

/-- What lies in the folders of a folder comes folder by folder. -/
theorem filesBelow_meets : ∀ {d : Dir} {path : Text}, d.WellFormed → d.LinkFree →
    Meets path (filesBelow links entered path d) fun names => 2 ≤ names.length ∧ Shown entered path d names
  | .empty, _, _, _ => Meets.nil.congr (by
      rintro (_ | ⟨n, names⟩)
      · simp
      · simp only [false_iff, not_and]
        rintro - ⟨⟨b, hb⟩, -⟩
        rw [Dir.find?_cons] at hb
        cases hb)
  | .file n b rest, path, ⟨_, hbelow, hrest⟩, hfree => by
    have ih : Meets path (filesBelow links entered path rest) _ := filesBelow_meets hrest hfree
    refine ih.congr fun names => and_congr_right fun hlong => ?_
    obtain ⟨m, k, names, rfl⟩ := exists_cons_cons hlong
    rw [shown_cons (List.cons_ne_nil k names), shown_cons (List.cons_ne_nil k names)]
    refine exists_congr fun inside => and_congr_left fun _ => ?_
    rw [Dir.get?]
    split
    · rename_i he
      subst he
      refine ⟨fun hm => absurd rfl (Dir.ne_of_below hbelow (Dir.mem_names_of_get? hm)), by rintro ⟨⟩⟩
    · rfl
  | .folder n inside rest, path, ⟨_, hbelow, hinside, hrest⟩, hfree => by
    have ih : Meets path (filesBelow links entered path rest) _ := filesBelow_meets hrest hfree.2
    have hwalk : Meets (joined path n) (walk links entered (joined path n) inside) _ :=
      walk_of_filesBelow hinside hfree.1 (filesBelow_meets hinside hfree.1)
    have hfirst : Meets path (if entered (joined path n) then walk links entered (joined path n) inside else [])
        fun names => ∃ below, names = n :: below ∧ entered (joined path n) = true ∧
          Shown entered (joined path n) inside below := by
      split
      · rename_i he
        exact (hwalk.below not_shown_nil).congr (by simp [he])
      · rename_i he
        exact Meets.nil.congr (by simp [he])
    have hall := hfirst.append ih (by
      rintro _ b ⟨below, rfl, -, hshown⟩ ⟨hlong, hb⟩
      have hne : below ≠ [] := fun h => not_shown_nil (h ▸ hshown)
      obtain ⟨m, ms, rfl⟩ := List.exists_cons_of_ne_nil hne
      obtain ⟨k, l, ls, rfl⟩ := exists_cons_cons hlong
      obtain ⟨other, hk, -⟩ := (shown_cons (List.cons_ne_nil l ls)).1 hb
      exact .inl (hbelow k (Dir.mem_names_of_get? hk)))
    refine hall.congr fun names => ?_
    constructor
    · rintro (⟨below, rfl, he, hshown⟩ | ⟨hlong, hshown⟩)
      · have hne : below ≠ [] := fun h => not_shown_nil (h ▸ hshown)
        refine ⟨by simpa [Nat.succ_le_iff, List.length_pos_iff] using hne, (shown_cons hne).2 ⟨inside, ?_, he, hshown⟩⟩
        rw [Dir.get?, if_pos rfl]
      · obtain ⟨m, k, names, rfl⟩ := exists_cons_cons hlong
        obtain ⟨other, hm, h⟩ := (shown_cons (List.cons_ne_nil k names)).1 hshown
        refine ⟨hlong, (shown_cons (List.cons_ne_nil k names)).2 ⟨other, ?_, h⟩⟩
        rw [Dir.get?, if_neg (Dir.ne_of_below hbelow (Dir.mem_names_of_get? hm)), hm]
    · rintro ⟨hlong, hshown⟩
      obtain ⟨m, k, names, rfl⟩ := exists_cons_cons hlong
      obtain ⟨other, hm, he, h⟩ := (shown_cons (List.cons_ne_nil k names)).1 hshown
      rw [Dir.get?] at hm
      split at hm
      · rename_i hn
        subst hn
        cases hm
        exact .inl ⟨k :: names, rfl, he, h⟩
      · exact .inr ⟨hlong, (shown_cons (List.cons_ne_nil k names)).2 ⟨other, hm, he, h⟩⟩

/-- A walk meets the files that are shown, in its order. -/
theorem walk_meets (hd : d.WellFormed) (hfree : d.LinkFree) :
    Meets path (walk links entered path d) (Shown entered path d) :=
  walk_of_filesBelow hd hfree (filesBelow_meets hd hfree)

/-! ## From a base of a project -/

variable {disk : Disk} {project : Path} {place : List Text} {tree : Dir} {rules : CandidateRules} {base : Text}

/-- The name of what is met is that of the path to it. -/
theorem met_join {names : List Text} : ∀ {front : List Text}, (∀ p ∈ front, IsPart p) → (∀ n ∈ names, IsPart n) →
    met (Text.join "/" front) names = Text.join "/" (front ++ names)
  | [], _, h => by
    cases names with
    | nil => rfl
    | cons n names =>
      have hn : n ≠ [] := (h n (List.mem_cons_self ..)).nonempty
      exact met_eq_join hn
  | [p], hp, _ => met_eq_join (hp p (List.mem_singleton_self p)).nonempty
  | p :: q :: front, hp, h => by
    have hne : Text.join "/" (p :: q :: front) ≠ [] := by
      rw [Text.join_cons (List.cons_ne_nil q front)]
      simp
    rw [met_eq_join hne]
    cases names with
    | nil => rw [List.append_nil]; rfl
    | cons n names =>
      rw [Text.join_cons (List.cons_ne_nil n names), Text.join_append (List.cons_ne_nil n names) (by simp)]

theorem startName_eq (hhere : Path.anchorOf base = .here) :
    startName project base = Text.join "/" (Path.partsOf base) := by
  have hunder : project.under base = ⟨project.anchor, project.parts ++ Path.partsOf base⟩ := if_pos hhere
  unfold startName
  rw [hunder, (Path.relativeTo?_eq_some (q := ⟨.here, Path.partsOf base⟩)).2 ⟨rfl, rfl⟩]
  simp only
  split
  · rename_i hnil
    rw [List.isEmpty_iff.1 hnil]
    rfl
  · rename_i hne
    exact Path.text_of_parts_ne_nil (mt List.isEmpty_iff.2 hne)

/-- A file of the project lies below a folder, and the folders between them are entered. -/
structure ShownBelow (rules : CandidateRules) (tree : Dir) (front names : List Text) : Prop where
  nonempty : names ≠ []
  stands : ∃ b, tree.find? (front ++ names) = some (.file b)
  entered : ∀ mid back, names = mid ++ back → mid ≠ [] → back ≠ [] →
    rules.isExcluded (Text.join "/" (front ++ mid)) true = false

theorem shown_iff_below (hfront : ∀ p ∈ Path.partsOf base, IsPart p) {d : Dir} (hd : d.WellFormed)
    (hstands : tree.find? (Path.partsOf base) = some (.folder d)) {names : List Text} :
    Shown (fun p => !rules.isExcluded p true) (Text.join "/" (Path.partsOf base)) d names ↔
      ShownBelow rules tree (Path.partsOf base) names := by
  have hfind : ∀ {b}, names ≠ [] → (tree.find? (Path.partsOf base ++ names) = some (.file b) ↔ d.find? names = some (.file b)) := by
    intro b hne
    obtain ⟨n, names, rfl⟩ := List.exists_cons_of_ne_nil hne
    rw [Dir.find?_append, hstands]
    rfl
  have hparts : ∀ {b}, d.find? names = some (.file b) → ∀ n ∈ names, IsPart n := fun hb n hn =>
    ((hd.find? hb).1 n hn).part
  constructor
  · rintro ⟨⟨b, hb⟩, hentered⟩
    have hne : names ≠ [] := by
      rintro rfl
      cases hb
    refine ⟨hne, ⟨b, (hfind hne).2 hb⟩, fun mid back he hmid hback => ?_⟩
    have h := hentered mid back he hmid hback
    rw [met_join hfront fun n hn => hparts hb n (he ▸ List.mem_append_left _ hn)] at h
    simpa using h
  · rintro ⟨hne, ⟨b, hb⟩, hentered⟩
    have hb' := (hfind hne).1 hb
    refine ⟨⟨b, hb'⟩, fun mid back he hmid hback => ?_⟩
    rw [met_join hfront fun n hn => hparts hb' n (he ▸ List.mem_append_left _ hn), hentered mid back he hmid hback]
    rfl

/-- The walk from a base meets the files below it that are shown. -/
theorem filesFrom_meets (hp : disk.HasProject project place tree) (hhere : Path.anchorOf base = .here)
    (hdesc : Path.Descends (Path.partsOf base)) {files : List Text} (h : filesFrom rules disk project base = .ok files) :
    Meets (Text.join "/" (Path.partsOf base)) files (ShownBelow rules tree (Path.partsOf base)) := by
  have hunder : project.under base = ⟨project.anchor, project.parts ++ Path.partsOf base⟩ := if_pos hhere
  have hleads : ∀ {p : List Text} {d : Dir}, disk.leads .target (project.under base) = .ok (.found p (.folder d)) ↔
      p = place ++ Path.partsOf base ∧ tree.find? (Path.partsOf base) = some (.folder d) := by
    rw [hunder]
    exact hp.leads_folder_iff hdesc
  rcases filesFrom_ok.1 h with ⟨hno, rfl⟩ | ⟨d, hyes, hlist, rfl⟩
  · refine Meets.nil.congr fun names => ⟨False.elim, ?_⟩
    rintro ⟨hne, ⟨b, hb⟩, -⟩
    -- a folder stands at the base, and since it could be asked about, the answer would have been yes
    obtain ⟨d, hd, -⟩ := Dir.find?_folder_of_append hne hb
    have hzero : '\x00' ∉ (project.under base).text := by
      rw [hunder]
      exact hp.zero_not_mem fun n hn => (hp.tree_wellFormed.find? hd).1 n hn
    cases (Disk.folder_of_isFolder (hp.normal.under base) hzero (hleads.2 ⟨rfl, hd⟩) hno).1
  · obtain ⟨spot, hr⟩ := Disk.list_ok.1 hlist
    obtain ⟨-, hstands⟩ := hleads.1 ((Disk.resolve_text_ok (hp.normal.under base)).1 hr).2
    have hd : d.WellFormed := (hp.tree_wellFormed.find? hstands).2 d rfl
    have hfree : d.LinkFree := (hp.linkFree.find? hstands).2 d rfl
    rw [startName_eq hhere]
    exact (walk_meets hd hfree).congr fun names => shown_iff_below (fun p hp => (hdesc p hp).1) hd hstands

theorem ShownBelow.isProjectFile {front names : List Text} (h : ShownBelow rules tree front names) (hwf : tree.WellFormed) :
    IsProjectFile tree (Text.join "/" (front ++ names)) := by
  obtain ⟨b, hb⟩ := h.stands
  have hne : front ++ names ≠ [] := by simp [h.nonempty]
  rw [← Path.text_here hne]
  exact isProjectFile_text hne (Path.descends_of_names (hwf.find? hb).1) hb

/-- The files that the walk from a base meets are files of the project below it. -/
theorem mem_filesFrom (hp : disk.HasProject project place tree) (hhere : Path.anchorOf base = .here)
    (hdesc : Path.Descends (Path.partsOf base)) {files : List Text} (h : filesFrom rules disk project base = .ok files)
    {file : Text} : file ∈ files ↔ ∃ names, ShownBelow rules tree (Path.partsOf base) names ∧
      file = Text.join "/" (Path.partsOf base ++ names) := by
  rw [(filesFrom_meets hp hhere hdesc h).mem_iff]
  refine exists_congr fun names => and_congr_right fun hshown => ?_
  obtain ⟨b, hb⟩ := hshown.stands
  rw [met_join (fun p hp => (hdesc p hp).1) fun n hn =>
    ((hp.tree_wellFormed.find? hb).1 n (List.mem_append_right _ hn)).part]

/-- The candidates are the text files of a category that are shown below some base. -/
theorem mem_all_iff {bases : List Text} {cs : List (Text × Category)} (hp : disk.HasProject project place tree)
    (hall : all rules disk project = .ok cs) (hbases : rules.bases = .ok bases)
    (hdown : ∀ base ∈ bases, Path.anchorOf base = .here ∧ Path.Descends (Path.partsOf base)) {c : Text × Category} :
    c ∈ cs ↔ (rules.classify c.1 = some c.2 ∧ FileKind.isTextFile disk (project.under c.1).text = true) ∧
      ∃ base ∈ bases, ∃ names, ShownBelow rules tree (Path.partsOf base) names ∧
        c.1 = Text.join "/" (Path.partsOf base ++ names) := by
  obtain ⟨bases', lists, hbases', hlists, rfl⟩ := all_ok.1 hall
  obtain rfl : bases' = bases := Except.ok.inj (hbases'.symm.trans hbases)
  have hmet : ∀ {base files}, base ∈ bases' → filesFrom rules disk project base = .ok files →
      (c.1 ∈ files ↔ ∃ names, ShownBelow rules tree (Path.partsOf base) names ∧
        c.1 = Text.join "/" (Path.partsOf base ++ names)) := fun hbase hfiles =>
    mem_filesFrom hp (hdown _ hbase).1 (hdown _ hbase).2 hfiles
  rw [List.mem_filterMap]
  simp only [List.mem_eraseDups, List.mem_flatten, candidate?_eq_some]
  constructor
  · rintro ⟨file, ⟨files, hmem, hfile⟩, rfl, hcategory, htext⟩
    obtain ⟨base, hbase, hfrom⟩ := forall₂_mem_right (mapM_ok.1 hlists) hmem
    exact ⟨⟨hcategory, htext⟩, base, hbase, (hmet hbase hfrom).1 hfile⟩
  · rintro ⟨⟨hcategory, htext⟩, base, hbase, hshown⟩
    obtain ⟨files, hmem, hfrom⟩ := forall₂_mem_left (mapM_ok.1 hlists) hbase
    exact ⟨c.1, ⟨files, hmem, (hmet hbase hfrom).2 hshown⟩, rfl, hcategory, htext⟩

theorem isProjectFile_of_mem_all {bases : List Text} {cs : List (Text × Category)} (hp : disk.HasProject project place tree)
    (hall : all rules disk project = .ok cs) (hbases : rules.bases = .ok bases)
    (hdown : ∀ base ∈ bases, Path.anchorOf base = .here ∧ Path.Descends (Path.partsOf base)) {c : Text × Category}
    (hc : c ∈ cs) : IsProjectFile tree c.1 := by
  obtain ⟨-, base, -, names, hshown, he⟩ := (mem_all_iff hp hall hbases hdown).1 hc
  rw [he]
  exact hshown.isProjectFile hp.tree_wellFormed

end Candidate

end ActionSweep
