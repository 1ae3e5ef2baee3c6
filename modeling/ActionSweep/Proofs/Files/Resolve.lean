/-
Where paths lead. What a path leads to stands at the place that is named; a path that goes on behind a
folder goes on from the place of that folder; and below a project without links a path without two
dots leads exactly to what stands at its parts.
-/
import ActionSweep.Proofs.Files.Tree
import ActionSweep.Proofs.Outcome
import Mathlib.Data.List.Infix
import Mathlib.Tactic.Tauto

namespace ActionSweep

namespace Path

/-- Every part leads one folder down. -/
def Descends (parts : List Text) : Prop := ∀ p ∈ parts, IsPart p ∧ p ≠ ['.', '.']

theorem descends_cons {p : Text} {parts : List Text} :
    Descends (p :: parts) ↔ (IsPart p ∧ p ≠ ['.', '.']) ∧ Descends parts := by
  simp [Descends]

theorem descends_append {parts more : List Text} :
    Descends (parts ++ more) ↔ Descends parts ∧ Descends more := by
  simp only [Descends, List.mem_append]
  exact ⟨fun h => ⟨fun p hp => h p (.inl hp), fun p hp => h p (.inr hp)⟩,
    fun h p hp => hp.elim (h.1 p) (h.2 p)⟩

theorem descends_of_names {names : List Text} (h : ∀ n ∈ names, IsName n) : Descends names :=
  fun n hn => ⟨(h n hn).part, (h n hn).notUp⟩

theorem Descends.normal {parts : List Text} (h : Descends parts) (a : Anchor) : (Path.mk a parts).Normal :=
  fun p hp => (h p hp).1

end Path

/-- What a place says of a tree is so: an entry stands there, or nothing does. -/
def Place.StandsIn (root : Dir) : Place → Prop
  | .found place e => root.find? place = some e
  | .free folder name => root.find? (folder ++ [name]) = none

/-- A link stands neither on the way to a path nor at its end. -/
def Dir.NoLinkTo (d : Dir) (path : List Text) : Prop := ∀ front, front <+: path → ∀ t, d.find? front ≠ some (.link t)

theorem Dir.LinkFree.noLinkTo {d : Dir} (h : d.LinkFree) (path : List Text) : d.NoLinkTo path :=
  fun _ _ t hlink => (h.find? hlink).1 t rfl

theorem Dir.NoLinkTo.inside {d inside : Dir} {n : Text} {path : List Text} (h : d.NoLinkTo (n :: path))
    (hn : d.get? n = some (.folder inside)) : inside.NoLinkTo path := by
  intro front hfront t hlink
  refine h (n :: front) (List.cons_prefix_cons.2 ⟨rfl, hfront⟩) t ?_
  rw [Dir.find?_cons, hn, Option.bind_some, Entry.find?_folder, hlink]

instance (d : Dir) (path : List Text) : Decidable (d.NoLinkTo path) :=
  decidable_of_iff (∀ front ∈ path.inits, (match d.find? front with | some (.link _) => false | _ => true) = true) <| by
    constructor
    · intro h front hfront t hlink
      have hno := h front ((List.mem_inits ..).2 hfront)
      rw [hlink] at hno
      cases hno
    · intro h front hfront
      split
      · rename_i t hlink
        exact absurd hlink (h front ((List.mem_inits ..).1 hfront) t)
      · rfl

namespace Disk

open ActionSweep.Path (IsPart Descends)

/-! ## Texts of paths -/

/-- A text that ends with a part ends neither with a slash nor with a slash and a dot. -/
theorem not_suffix_of_isPart {l u s : Text} (h : IsPart l) (hs : s = [] ∨ s = ['.']) :
    ¬ ('/' :: s) <:+ u ++ l := by
  intro hsuffix
  rcases List.suffix_or_suffix_of_suffix hsuffix (List.suffix_append u l) with hl | hl
  · exact h.noSlash (hl.subset (List.mem_cons_self ..))
  · rcases List.suffix_cons_iff.1 hl with rfl | hl
    · exact h.noSlash (List.mem_cons_self ..)
    · rcases hs with rfl | rfl
      · exact h.nonempty (List.suffix_nil.1 hl)
      · rcases List.suffix_cons_iff.1 hl with rfl | hl
        · exact h.noDot rfl
        · exact h.nonempty (List.suffix_nil.1 hl)

/-- The steps along a path in normal form are its parts. -/
theorem steps_text {p : Path} (h : p.Normal) (hne : p.parts ≠ []) : steps p.text = p.parts := by
  have hparts : Path.partsOf p.text = p.parts := congrArg Path.parts (Path.ofText_text h)
  obtain ⟨parts, l, hl⟩ := List.eq_nil_or_concat p.parts |>.resolve_left hne
  have hlast : IsPart l := h l (by rw [hl]; simp)
  obtain ⟨u, hu⟩ : ∃ u, p.text = u ++ l := by
    obtain ⟨u, hu⟩ := Text.join_concat "/" parts l
    exact ⟨p.anchor.text ++ u, by
      rw [Path.text_of_parts_ne_nil hne, hl, List.concat_eq_append, hu, List.append_assoc]⟩
  unfold steps
  rw [hparts, hu, if_neg, if_neg, List.append_nil]
  · rw [Bool.or_eq_true, not_or, List.isSuffixOf_iff_suffix, decide_eq_true_eq]
    refine ⟨not_suffix_of_isPart hlast (.inr rfl), fun he => ?_⟩
    rcases List.append_eq_singleton_iff.1 he with ⟨-, he⟩ | ⟨-, he⟩
    · exact hlast.noDot he
    · exact hlast.nonempty he
  · rw [List.isSuffixOf_iff_suffix]
    exact not_suffix_of_isPart hlast (.inl rfl)

theorem prefix_slash_text {p : Path} (h : p.Normal) : ['/'].isPrefixOf p.text = p.isAbsolute := by
  obtain ⟨anchor, parts⟩ := p
  by_cases hp : parts = []
  · subst hp
    cases anchor <;> rfl
  · obtain ⟨c, t, hj, hc⟩ := Path.join_head h hp
    rw [Path.text_of_parts_ne_nil hp, hj]
    cases anchor with
    | here =>
      show ('/' == c && _) = false
      rw [beq_eq_false_iff_ne.2 (Ne.symm hc)]; rfl
    | root => rfl
    | doubleRoot => rfl

theorem text_ne_nil {p : Path} (h : p.Normal) : p.text ≠ [] := by
  obtain ⟨anchor, parts⟩ := p
  by_cases hp : parts = []
  · subst hp
    cases anchor <;> decide
  · obtain ⟨c, t, hj, -⟩ := Path.join_head h hp
    rw [Path.text_of_parts_ne_nil hp, hj]
    simp

/-- Where the parts of a path lead, however long its text is. -/
def leads (disk : Disk) (aim : Aim) (p : Path) : Except FileProblem Place :=
  resolveParts disk.root aim linkLimit (if p.isAbsolute then [] else disk.workingFolder) p.parts

theorem leads_congr {disk : Disk} {aim : Aim} {p q : Path} (h : p.Alike q) :
    disk.leads aim p = disk.leads aim q := by
  unfold leads
  rw [h.absolute, h.parts]

theorem resolveParts_walk (root : Dir) (aim : Aim) (n : Nat) :
    ∃ jump, resolveParts root aim n = walk root aim jump := by
  cases n with
  | zero => exact ⟨_, rfl⟩
  | succ n => exact ⟨_, rfl⟩

/-- A path in normal form leads where its parts lead, if it has no zero character and is not too long. -/
theorem resolve_text {disk : Disk} {aim : Aim} {p : Path} (h : p.Normal) :
    disk.resolve aim p.text =
      if p.text.contains '\x00' then .error .zeroInPath
      else if pathLimit < (Utf8.encode p.text).length then .error (refuse .nameTooLong p.text)
      else (disk.leads aim p).mapError (refuse · p.text) := by
  unfold resolve
  split
  · rfl
  rw [if_neg (by rw [List.isEmpty_iff]; exact text_ne_nil h), prefix_slash_text h]
  split
  · rfl
  by_cases hp : p.parts = []
  · -- the text of an anchor ends with an empty part or a dot, which lead nowhere else
    have hsteps : steps p.text = [[]] ∨ steps p.text = [['.']] := by
      rw [Path.text_of_parts_nil hp]
      cases p.anchor with
      | here => exact .inr (by decide)
      | root => exact .inl (by decide)
      | doubleRoot => exact .inl (by decide)
    unfold leads
    obtain ⟨jump, hjump⟩ := resolveParts_walk disk.root aim linkLimit
    rw [hp, hjump]
    rcases hsteps with hs | hs
    · rw [hs, show ∀ here, walk disk.root aim jump here [[]] = walk disk.root aim jump here []
        from fun here => by rw [walk]; rfl]
      rfl
    · rw [hs, show ∀ here, walk disk.root aim jump here [['.']] = walk disk.root aim jump here []
        from fun here => by rw [walk]; rfl]
      rfl
  · rw [steps_text h hp]
    rfl

theorem resolve_text_ok {disk : Disk} {aim : Aim} {p : Path} {x : Place} (h : p.Normal) :
    disk.resolve aim p.text = .ok x ↔
      ('\x00' ∉ p.text ∧ (Utf8.encode p.text).length ≤ pathLimit) ∧ disk.leads aim p = .ok x := by
  rw [resolve_text h]
  by_cases hz : '\x00' ∈ p.text
  · simp [hz]
  by_cases hl : pathLimit < (Utf8.encode p.text).length
  · simp [hz, hl, Nat.not_le_of_lt hl]
  rw [if_neg (by simpa using hz), if_neg hl, Outcome.mapError_ok]
  exact (and_iff_right ⟨hz, Nat.le_of_not_lt hl⟩).symm

/-! ## One step -/

section Steps

variable {root : Dir} {aim : Aim} {jump : List Text → List Text → Except FileProblem Place}
  {here parts : List Text} {part : Text}

theorem walk_skip (h : part = [] ∨ part = ['.']) :
    walk root aim jump here (part :: parts) = walk root aim jump here parts := by
  rw [walk, if_pos (by rcases h with rfl | rfl <;> rfl)]

theorem walk_up :
    walk root aim jump here (['.', '.'] :: parts) = walk root aim jump here.dropLast parts := by
  rw [walk, if_neg (by decide), if_pos rfl]

/-- A part that leads down leads to the entry with its name, unless a slash behind the name of a file that
is to be written follows. -/
theorem walk_down (hpart : part ≠ [] ∧ part ≠ ['.'] ∧ part ≠ ['.', '.']) (haim : aim = .writing → parts ≠ [[]]) :
    walk root aim jump here (part :: parts) =
      if nameLimit < (Utf8.encode part).length then .error .nameTooLong
      else match root.find? (here ++ [part]) with
        | none => if parts.isEmpty then .ok (.free here part) else .error .notFound
        | some (.folder _) => walk root aim jump (here ++ [part]) parts
        | some (.file b) =>
          if parts.isEmpty then .ok (.found (here ++ [part]) (.file b)) else .error .notAFolder
        | some (.link t) =>
          if parts.isEmpty && aim = .entry then .ok (.found (here ++ [part]) (.link t))
          else jump (if ['/'].isPrefixOf t then [] else here) (steps t ++ parts) := by
  have h := walk.eq_2 root aim jump here part parts
  have hslash : ¬ (decide (aim = .writing) && decide (parts = [[]])) = true := by
    simpa using haim
  rw [if_neg (by simp [hpart.1, hpart.2.1]), if_neg hpart.2.2, if_neg hslash] at h
  exact h

/-- A walk to a file that is to be written does not end with a slash. -/
theorem noSlash_of_walk (hpart : part ≠ [] ∧ part ≠ ['.'] ∧ part ≠ ['.', '.']) {x : Place}
    (h : walk root aim jump here (part :: parts) = .ok x) : aim = .writing → parts ≠ [[]] := by
  rintro rfl rfl
  rw [walk, if_neg (by simp [hpart.1, hpart.2.1]), if_neg hpart.2.2] at h
  cases h

end Steps

/-- A part stays where it is, leads up, or leads down. -/
theorem part_cases (part : Text) : (part = [] ∨ part = ['.']) ∨ part = ['.', '.'] ∨
    (part ≠ [] ∧ part ≠ ['.'] ∧ part ≠ ['.', '.']) := by
  tauto

/-! ## Whole paths -/

section Walks

variable {root : Dir} {aim : Aim} {jump : List Text → List Text → Except FileProblem Place}

/-- What a walk leads to stands at the place that is named, if that is so behind links. -/
theorem walk_stands {x : Place} (hjump : ∀ here parts, jump here parts = .ok x → x.StandsIn root) :
    ∀ (parts here : List Text), walk root aim jump here parts = .ok x → x.StandsIn root
  | [], here, h => by
    simp only [walk] at h
    split at h
    · cases h; assumption
    · cases h
  | part :: parts, here, h => by
    rcases part_cases part with hp | rfl | hp
    · rw [walk_skip hp] at h
      exact walk_stands hjump parts here h
    · rw [walk_up] at h
      exact walk_stands hjump parts _ h
    · rw [walk_down hp (noSlash_of_walk hp h)] at h
      split at h
      · cases h
      split at h
      · split at h
        · cases h; assumption
        · cases h
      · exact walk_stands hjump parts _ h
      · split at h
        · cases h; assumption
        · cases h
      · split at h
        · cases h; assumption
        · exact hjump _ _ h

/-- A walk to a folder can go on from there, before its first link or behind it. -/
theorem walk_append {jump' : List Text → List Text → Except FileProblem Place}
    {place more : List Text} {d : Dir} (hmore : more ≠ []) (haim : aim = .writing → more ≠ [[]]) :
    ∀ (parts here : List Text), walk root .target jump here parts = .ok (.found place (.folder d)) →
      walk root aim jump' here (parts ++ more) = walk root aim jump' place more ∨
        ∃ here' parts', jump here' parts' = .ok (.found place (.folder d)) ∧
          walk root aim jump' here (parts ++ more) = jump' here' (parts' ++ more)
  | [], here, h => by
    simp only [walk] at h
    split at h
    · cases h; exact .inl rfl
    · cases h
  | part :: parts, here, h => by
    rw [List.cons_append]
    rcases part_cases part with hp | rfl | hp
    · rw [walk_skip hp] at h ⊢
      exact walk_append hmore haim parts here h
    · rw [walk_up] at h ⊢
      exact walk_append hmore haim parts _ h
    -- only here the two walks could differ: at a link that ends the shorter one
    · have hempty : (parts ++ more).isEmpty = false := by simp [hmore]
      have hslash : aim = .writing → parts ++ more ≠ [[]] := by
        intro ha he
        rcases List.append_eq_singleton_iff.1 he with ⟨-, he⟩ | ⟨-, he⟩
        · exact haim ha he
        · exact hmore he
      rw [walk_down hp (by rintro ⟨⟩)] at h
      rw [walk_down hp hslash]
      split at h
      · cases h
      rename_i hlen
      rw [if_neg hlen]
      split at h
      · split at h <;> cases h
      · exact walk_append hmore haim parts _ h
      · split at h <;> cases h
      · rw [if_neg (by simp)] at h
        rw [hempty]
        refine .inr ⟨_, _, h, ?_⟩
        simp only [Bool.false_and, Bool.false_eq_true, if_false, List.append_assoc]

/-- What is a file itself is also what stands there behind links. -/
theorem walk_entry {jump' : List Text → List Text → Except FileProblem Place} {place : List Text} {b : Bytes}
    (hjump : ∀ here parts, jump here parts = .ok (.found place (.file b)) →
      jump' here parts = .ok (.found place (.file b))) :
    ∀ (parts here : List Text), walk root .entry jump here parts = .ok (.found place (.file b)) →
      walk root .target jump' here parts = .ok (.found place (.file b))
  | [], here, h => h
  | part :: parts, here, h => by
    rcases part_cases part with hp | rfl | hp
    · rw [walk_skip hp] at h ⊢
      exact walk_entry hjump parts here h
    · rw [walk_up] at h ⊢
      exact walk_entry hjump parts _ h
    · rw [walk_down hp (by rintro ⟨⟩)] at h ⊢
      split at h
      · cases h
      rename_i hlen
      rw [if_neg hlen]
      split at h
      · split at h <;> cases h
      · exact walk_entry hjump parts _ h
      · exact h
      · split at h
        · cases h
        · simp only [show ¬ Aim.target = Aim.entry by decide, decide_false, Bool.and_false,
            Bool.false_eq_true, if_false]
          exact hjump _ _ h

/-- Below a folder a walk over names leads to what stands at them, if that is no link to be followed. -/
theorem walk_names (haim : aim ≠ .writing) {e : Entry} (he : aim = .entry ∨ ∀ t, e ≠ .link t) :
    ∀ {names place : List Text} {d : Dir}, root.find? place = some (.folder d) → (∀ n ∈ names, IsName n) →
      names ≠ [] → d.find? names = some e → walk root aim jump place names = .ok (.found (place ++ names) e)
  | [], _, _, _, _, hne, _ => absurd rfl hne
  | n :: names, place, d, hd, hnames, _, h => by
    have hn := hnames n (List.mem_cons_self ..)
    rw [walk_down ⟨hn.part.nonempty, hn.part.noDot, hn.notUp⟩ fun h => absurd h haim, if_neg (Nat.not_lt.2 hn.short),
      Dir.find?_concat place n hd]
    rw [Dir.find?_cons, Option.bind_eq_some_iff] at h
    obtain ⟨f, hf, h⟩ := h
    rw [hf]
    cases names with
    | nil =>
      cases h
      cases e with
      | file b => rfl
      | link t =>
        rcases he with rfl | he
        · rfl
        · exact absurd rfl (he t)
      | folder inside =>
        have hfind : root.find? (place ++ [n]) = some (.folder inside) := by
          rw [Dir.find?_concat place n hd, hf]
        simp only [walk, hfind]
    | cons m names =>
      cases f with
      | folder inside =>
        have hfind : root.find? (place ++ [n]) = some (.folder inside) := by
          rw [Dir.find?_concat place n hd, hf]
        -- the walk goes on inside, from the place of the folder
        have ih : walk root aim jump (place ++ [n]) (m :: names) = _ :=
          walk_names haim he hfind (fun k hk => hnames k (List.mem_cons_of_mem _ hk))
            (List.cons_ne_nil m names) h
        rw [List.append_assoc] at ih
        exact ih
      | file b | link t => cases h

/-- Below a folder, a walk that only leads down and passes no link leads to what stands at its parts. -/
theorem walk_plain (haim : aim ≠ .writing) {p : List Text} {e : Entry} :
    ∀ {parts place : List Text} {d : Dir}, root.find? place = some (.folder d) →
      d.NoLinkTo parts → Descends parts → walk root aim jump place parts = .ok (.found p e) →
        p = place ++ parts ∧ d.find? parts = some e
  | [], place, d, hd, _, _, h => by
    simp only [walk, hd] at h
    cases h
    exact ⟨(List.append_nil _).symm, rfl⟩
  | part :: parts, place, d, hd, hplain, hdesc, h => by
    obtain ⟨⟨hpart, hup⟩, hdesc⟩ := Path.descends_cons.1 hdesc
    rw [walk_down ⟨hpart.nonempty, hpart.noDot, hup⟩ fun h => absurd h haim, Dir.find?_concat place part hd] at h
    rw [Dir.find?_cons]
    split at h
    · cases h
    split at h
    · split at h <;> cases h
    · rename_i inside hf
      have hfind : root.find? (place ++ [part]) = some (.folder inside) := by
        rw [Dir.find?_concat place part hd, hf]
      obtain ⟨rfl, hfound⟩ := walk_plain haim hfind (hplain.inside hf) hdesc h
      exact ⟨by simp, by rw [hf, Option.bind_some, Entry.find?_folder, hfound]⟩
    · rename_i hf
      split at h
      · rename_i hempty
        rw [List.isEmpty_iff] at hempty
        subst hempty
        cases h
        exact ⟨rfl, by rw [hf]; rfl⟩
      · cases h
    -- a link would stand at the first part
    · rename_i t hf
      exact absurd hf (hplain [part] (List.prefix_append [part] parts) t)

/-- Below a folder without links, a walk down over names ends at something, or shows that nothing is there. -/
theorem walk_absence (haim : aim ≠ .writing) {problem : FileProblem} :
    ∀ {names place : List Text} {d : Dir}, root.find? place = some (.folder d) → d.LinkFree →
      (∀ n ∈ names, IsName n) → walk root aim jump place names = .error problem → problem.isAbsence = true
  | [], place, d, hd, _, _, h => by
    simp only [walk, hd] at h
    cases h
  | n :: names, place, d, hd, hfree, hnames, h => by
    have hn := hnames n (List.mem_cons_self ..)
    rw [walk_down ⟨hn.part.nonempty, hn.part.noDot, hn.notUp⟩ fun h => absurd h haim, if_neg (Nat.not_lt.2 hn.short),
      Dir.find?_concat place n hd] at h
    split at h
    · split at h
      · cases h
      · cases h
        rfl
    · rename_i inside hf
      have hfind : root.find? (place ++ [n]) = some (.folder inside) := by
        rw [Dir.find?_concat place n hd, hf]
      exact walk_absence haim hfind ((hfree.get? hf).2 inside rfl) (fun k hk => hnames k (List.mem_cons_of_mem n hk)) h
    · split at h
      · cases h
      · cases h
        rfl
    -- a tree without links has no third case
    · rename_i t hf
      exact absurd rfl ((hfree.get? hf).1 t)

end Walks

section Resolution

variable {root : Dir} {aim : Aim}

theorem resolveParts_stands {x : Place} :
    ∀ {n : Nat} {here parts : List Text}, resolveParts root aim n here parts = .ok x → x.StandsIn root
  | 0, here, parts, h => walk_stands (by rintro _ _ ⟨⟩) parts here h
  | _ + 1, here, parts, h => walk_stands (fun _ _ => resolveParts_stands) parts here h

theorem resolveParts_found {n : Nat} {here parts place : List Text} {e : Entry}
    (h : resolveParts root aim n here parts = .ok (.found place e)) : root.find? place = some e := resolveParts_stands h

/-- A path that goes on behind a folder goes on from the place of that folder. -/
theorem resolveParts_append {place more : List Text} {d : Dir} (hmore : more ≠ []) (haim : aim = .writing → more ≠ [[]]) :
    ∀ {n : Nat} {here parts : List Text},
      resolveParts root .target n here parts = .ok (.found place (.folder d)) →
      ∃ m, resolveParts root aim n here (parts ++ more) = resolveParts root aim m place more
  | 0, here, parts, h => by
    have hstep : walk root aim (fun _ _ => .error .tooManyLinks) here (parts ++ more) =
        walk root aim (fun _ _ => .error .tooManyLinks) place more ∨ _ :=
      walk_append hmore haim parts here h
    rcases hstep with hstep | ⟨_, _, hj, -⟩
    · exact ⟨0, hstep⟩
    · cases hj
  | n + 1, here, parts, h => by
    have hstep : walk root aim (resolveParts root aim n) here (parts ++ more) =
        walk root aim (resolveParts root aim n) place more ∨ _ :=
      walk_append hmore haim parts here h
    rcases hstep with hstep | ⟨_, _, hj, hstep⟩
    · exact ⟨n + 1, hstep⟩
    · obtain ⟨m, hm⟩ := resolveParts_append hmore haim hj
      exact ⟨m, hstep.trans hm⟩

theorem resolveParts_entry {place : List Text} {b : Bytes} :
    ∀ {n : Nat} {here parts : List Text}, resolveParts root .entry n here parts = .ok (.found place (.file b)) →
      resolveParts root .target n here parts = .ok (.found place (.file b))
  | 0, here, parts, h => walk_entry (by rintro _ _ ⟨⟩) parts here h
  | _ + 1, here, parts, h => walk_entry (fun _ _ => resolveParts_entry) parts here h

end Resolution

end Disk

end ActionSweep
