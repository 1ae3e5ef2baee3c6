/-
What the pieces of a pattern match, as statements about how a text can be cut; and two shapes of
patterns: files with an ending anywhere below a folder, and whatever lies in a folder with a name. The
first matches such files, and a path without line ends that it matches has a part below the folder with
that ending; the second matches only paths with such a folder.
-/
import ActionSweep.Proofs.Files.Path
import ActionSweep.Pattern.Basic

namespace ActionSweep

namespace Piece

variable {k : Text → Bool} {t : Text} {ps : List Piece}

theorem afterRun_iff {p : Char → Bool} : ∀ {t : Text}, afterRun p k t = true ↔
    ∃ run rest, t = run ++ rest ∧ (∀ c ∈ run, p c = true) ∧ k rest = true
  | [] => by
    constructor
    · intro h
      exact ⟨[], [], rfl, by simp, h⟩
    · rintro ⟨run, rest, he, -, hk⟩
      obtain ⟨-, rfl⟩ := List.append_eq_nil_iff.1 he.symm
      exact hk
  | c :: cs => by
    rw [afterRun, Bool.or_eq_true, Bool.and_eq_true, afterRun_iff (t := cs)]
    constructor
    · rintro (h | ⟨hc, run, rest, rfl, hrun, hk⟩)
      · exact ⟨[], c :: cs, rfl, by simp, h⟩
      · exact ⟨c :: run, rest, rfl, by simpa using ⟨hc, hrun⟩, hk⟩
    · rintro ⟨run, rest, he, hrun, hk⟩
      cases run with
      | nil =>
        subst he
        exact .inl hk
      | cons d run =>
        cases he
        exact .inr ⟨hrun c (List.mem_cons_self ..), run, rest, rfl, fun d hd => hrun d (List.mem_cons_of_mem _ hd), hk⟩

theorem of_afterSlash : ∀ {t : Text}, afterSlash k t = true → ∃ before rest, t = before ++ '/' :: rest ∧ k rest = true
  | [], h => by cases h
  | c :: cs, h => by
    rw [afterSlash, Bool.or_eq_true, Bool.and_eq_true, Bool.and_eq_true] at h
    rcases h with ⟨hc, hk⟩ | ⟨-, h⟩
    · rw [of_decide_eq_true hc]
      exact ⟨[], cs, rfl, hk⟩
    · obtain ⟨before, rest, rfl, hk⟩ := of_afterSlash h
      exact ⟨c :: before, rest, rfl, hk⟩

/-! ## Lists of pieces -/

theorem matchAll_literals (word : Text) : ∀ {t : Text},
    matchAll (word.map .literal ++ ps) t = true ↔ ∃ rest, t = word ++ rest ∧ matchAll ps rest = true := by
  induction word with
  | nil => simp
  | cons c word ih =>
    intro t
    cases t with
    | nil => simp [matchAll, accepts]
    | cons d t =>
      rw [List.map_cons, List.cons_append, matchAll, accepts, Bool.and_eq_true, decide_eq_true_eq, ih]
      constructor
      · rintro ⟨rfl, rest, rfl, h⟩
        exact ⟨rest, rfl, h⟩
      · rintro ⟨rest, he, h⟩
        cases he
        exact ⟨rfl, rest, rfl, h⟩

theorem matchAll_slash : matchAll (.slash :: ps) t = true ↔ ∃ rest, t = '/' :: rest ∧ matchAll ps rest = true := by
  rw [matchAll, accepts.eq_def]
  dsimp only
  split
  · rename_i cs
    simp
  · rename_i hne
    simp only [Bool.false_eq_true, false_iff, not_exists, not_and]
    rintro rest rfl
    exact absurd rfl (hne rest)

theorem matchAll_star : matchAll (.star :: ps) t = true ↔
    ∃ run rest, t = run ++ rest ∧ '/' ∉ run ∧ matchAll ps rest = true := by
  rw [matchAll, accepts, afterRun_iff]
  refine exists_congr fun run => exists_congr fun rest => and_congr_right fun _ => and_congr_left fun _ => ?_
  constructor
  · intro h hm
    exact absurd rfl (of_decide_eq_true (h '/' hm))
  · intro h c hc
    exact decide_eq_true fun he => h (he ▸ hc)

theorem matchAll_partEnd : matchAll [.partEnd] t = true ↔ t = [] ∨ t = ['\n'] ∨ ∃ rest, t = '/' :: rest := by
  rw [matchAll, accepts.eq_def]
  dsimp only
  split
  · simp [matchAll]
  · simp [matchAll]
  · simp [matchAll]
  · rename_i h1 h2 h3
    simp only [Bool.false_eq_true, false_iff, not_or, not_exists]
    exact ⟨h1, h2, h3⟩

theorem matchAll_innerFolders : matchAll (.innerFolders :: ps) t = true ↔ matchAll ps t = true ∨
    ∃ c run rest, t = '/' :: c :: run ++ rest ∧ c ≠ '\n' ∧ '\n' ∉ run ∧ matchAll ps rest = true := by
  rw [matchAll, accepts.eq_def]
  dsimp only
  rw [Bool.or_eq_true]
  refine or_congr_right ?_
  split
  · rename_i c cs
    rw [Bool.and_eq_true, decide_eq_true_eq, afterRun_iff]
    constructor
    · rintro ⟨hc, run, rest, rfl, hrun, h⟩
      exact ⟨c, run, rest, rfl, hc, fun hm => absurd rfl (of_decide_eq_true (hrun '\n' hm)), h⟩
    · rintro ⟨d, run, rest, he, hd, hrun, h⟩
      cases he
      exact ⟨hd, run, rest, rfl, fun c hc => decide_eq_true fun he => hrun (he ▸ hc), h⟩
  · rename_i hne
    simp only [Bool.false_eq_true, false_iff, not_exists, not_and]
    rintro c run rest rfl
    exact absurd rfl (hne c (run ++ rest))

theorem of_leadingFolders (h : matchAll (.leadingFolders :: ps) t = true) : matchAll ps t = true ∨
    ∃ before rest, t = before ++ '/' :: rest ∧ matchAll ps rest = true := by
  rw [matchAll, accepts.eq_def] at h
  dsimp only at h
  rw [Bool.or_eq_true] at h
  refine h.imp_right fun h => ?_
  cases t with
  | nil => cases h
  | cons c cs =>
    obtain ⟨before, rest, rfl, hk⟩ := of_afterSlash (Bool.and_eq_true_iff.1 h).2
    exact ⟨c :: before, rest, rfl, hk⟩

/-! ## Two shapes -/

/-- Files and folders with an ending, at any level below a folder, and what lies in such a folder. -/
def below (folder ending : Text) : List Piece :=
  folder.map .literal ++ .innerFolders :: .slash :: .star :: (ending.map .literal ++ [.partEnd])

/-- What lies in a folder with a name, which may lie in other folders. -/
def inside (name : Text) : List Piece := .leadingFolders :: (name.map .literal ++ [.slash])

theorem matchAll_below_direct (folder ending : Text) {name after : Text} (hname : '/' ∉ name)
    (hafter : matchAll [.partEnd] after = true) :
    matchAll (below folder ending) (folder ++ '/' :: (name ++ (ending ++ after))) = true := by
  refine (matchAll_literals folder).2 ⟨_, rfl, matchAll_innerFolders.2 (.inl (matchAll_slash.2 ⟨_, rfl, ?_⟩))⟩
  exact matchAll_star.2 ⟨name, ending ++ after, rfl, hname, (matchAll_literals ending).2 ⟨after, rfl, hafter⟩⟩

theorem matchAll_below_deep (folder ending : Text) {folders name after : Text} (hne : folders ≠ [])
    (hline : '\n' ∉ folders) (hname : '/' ∉ name) (hafter : matchAll [.partEnd] after = true) :
    matchAll (below folder ending) (folder ++ '/' :: (folders ++ '/' :: (name ++ (ending ++ after)))) = true := by
  obtain ⟨c, run, rfl⟩ := List.exists_cons_of_ne_nil hne
  rw [List.mem_cons, not_or] at hline
  refine (matchAll_literals folder).2 ⟨_, rfl, matchAll_innerFolders.2 (.inr ⟨c, run,
    '/' :: (name ++ (ending ++ after)), by simp, Ne.symm hline.1, hline.2, matchAll_slash.2 ⟨_, rfl, ?_⟩⟩)⟩
  exact matchAll_star.2 ⟨name, ending ++ after, rfl, hname, (matchAll_literals ending).2 ⟨after, rfl, hafter⟩⟩

theorem begins_of_matchAll_below {folder ending : Text} (h : matchAll (below folder ending) t = true) : folder <+: t := by
  obtain ⟨t', rfl, -⟩ := (matchAll_literals folder).1 h
  exact List.prefix_append ..

/-- What has no line end and is matched has a part with the ending behind the folder. -/
theorem of_matchAll_below {folder ending : Text} (hending : '/' ∉ ending) (hline : '\n' ∉ t)
    (h : matchAll (below folder ending) t = true) : ∃ part ∈ (t.split '/').tail, ending <:+ part := by
  obtain ⟨t', rfl, hbehind⟩ := (matchAll_literals folder).1 h
  have hslash : ∃ before rest, t' = before ++ '/' :: rest ∧
      matchAll (.star :: (ending.map .literal ++ [.partEnd])) rest = true := by
    rcases matchAll_innerFolders.1 hbehind with hnow | ⟨c, run, rest, rfl, -, -, hlater⟩
    · obtain ⟨rest, rfl, hrest⟩ := matchAll_slash.1 hnow
      exact ⟨[], rest, rfl, hrest⟩
    · obtain ⟨rest', rfl, hrest⟩ := matchAll_slash.1 hlater
      exact ⟨_, rest', rfl, hrest⟩
  obtain ⟨before, rest, rfl, hpart⟩ := hslash
  obtain ⟨name, rest, rfl, hname, hend⟩ := matchAll_star.1 hpart
  obtain ⟨after, rfl, hafter⟩ := (matchAll_literals ending).1 hend
  have hnoslash : '/' ∉ name ++ ending := by
    rw [List.mem_append, not_or]
    exact ⟨hname, hending⟩
  -- behind the ending a part ends: at the end of the text or at a slash
  have hmem : name ++ ending ∈ Text.split '/' (name ++ (ending ++ after)) := by
    rw [← List.append_assoc]
    rcases matchAll_partEnd.1 hafter with rfl | rfl | ⟨rest, rfl⟩
    · rw [List.append_nil, Text.split_of_not_mem hnoslash]
      exact List.mem_singleton_self _
    · exact absurd (by simp) hline
    · rw [Text.split_append, Text.split_of_not_mem hnoslash]
      exact List.mem_cons_self ..
  refine ⟨name ++ ending, ?_, List.suffix_append ..⟩
  rw [← List.append_assoc, Text.split_append, List.tail_append_of_ne_nil (Text.split_ne_nil _ _)]
  exact List.mem_append_right _ hmem

/-- What is matched has a part with the name before its last one. -/
theorem of_matchAll_inside {name : Text} (hname : '/' ∉ name) (h : matchAll (inside name) t = true) :
    name ∈ (t.split '/').dropLast := by
  have hfirst : ∀ {u : Text}, matchAll (name.map .literal ++ [.slash]) u = true → name ∈ (u.split '/').dropLast := by
    intro u hu
    obtain ⟨rest, rfl, hbehind⟩ := (matchAll_literals name).1 hu
    obtain ⟨rest, rfl, -⟩ := matchAll_slash.1 hbehind
    rw [Text.split_append, Text.split_of_not_mem hname, List.dropLast_append_of_ne_nil (Text.split_ne_nil _ _)]
    exact List.mem_append_left _ (List.mem_singleton_self _)
  rcases of_leadingFolders h with hnow | ⟨before, rest, rfl, hlater⟩
  · exact hfirst hnow
  · rw [Text.split_append, List.dropLast_append_of_ne_nil (Text.split_ne_nil _ _)]
    exact List.mem_append_right _ (hfirst hlater)

end Piece

end ActionSweep
