/-
Asking whether there is something at a path. In a tree without links the answer is yes if folders lead along the path and
something stands at its end, and there is an answer unless the path is too long, or the first of its names under which no
folder stands. In a tree with more entries than another, a path that led to something still does, and a question that was
refused is refused again; so an answer that is no was no before.
-/
import ActionSweep.Proofs.Files.Growth
import ActionSweep.Proofs.Files.Making

namespace ActionSweep

open ActionSweep.Path (goes IsPart)

namespace Dir

variable {d d' : Dir} {path : List Text} {e : Entry}

theorem stillHas_addFile? {b : Bytes} {names : List Text} (h : d.addFile? b names = some d') (he : d.find? path = some e) :
    d'.StillHas path e := by
  cases e with
  | folder inside =>
    obtain ⟨inside', hinside⟩ := (folder_addFile? h path).2 (.inl ⟨inside, he⟩)
    exact ⟨.folder inside', hinside, rfl⟩
  | file c => exact stillHas_self ((leaf_addFile? (by rintro _ ⟨⟩) h path).2 (.inl he))
  | link t => exact stillHas_self ((leaf_addFile? (by rintro _ ⟨⟩) h path).2 (.inl he))

/-- Whatever files are added to a tree, it still has what it had. -/
theorem stillHas_addFiles? : ∀ {added : List (List Text × Bytes)} {d : Dir} {e : Entry}, d.addFiles? added = some d' →
    d.find? path = some e → d'.StillHas path e
  | [], _, _, h, he => by
    cases h
    exact stillHas_self he
  | f :: added, d, e, h, he => by
    obtain ⟨moment, hmoment, hrest⟩ := Option.bind_eq_some_iff.1 h
    obtain ⟨e', he', hshell⟩ := stillHas_addFile? hmoment he
    exact StillHas.congr (stillHas_addFiles? hrest he') hshell

end Dir

namespace Disk

variable {disk : Disk} {p : Path}

/-! ## Answers -/

/-- The answer that what a path leads to gives. -/
def answer (t : Text) : Except FileProblem Place → Except Fault Bool
  | .ok (.found _ _) => .ok true
  | .ok (.free _ _) => .ok false
  | .error problem => if problem.isAbsence then .ok false else .error (refuse problem t)

theorem present_answer {t : Text} {x : Except FileProblem Place} (h : disk.resolve .target t = x.mapError (refuse · t)) :
    disk.present t = answer t x := by
  unfold present test
  rw [h]
  rcases x with problem | ⟨place, e⟩ | ⟨folder, name⟩ <;> rfl

/-- The answer for a path in normal form. -/
theorem present_text (hp : p.Normal) (hzero : '\x00' ∉ p.text) : disk.present p.text =
    if pathLimit < (Utf8.encode p.text).length then .error (refuse .nameTooLong p.text) else answer p.text (disk.leads .target p) := by
  have hresolve := @resolve_text disk .target p hp
  rw [if_neg (by simpa using hzero)] at hresolve
  split
  · rename_i hlong
    rw [if_pos hlong] at hresolve
    exact present_answer (x := .error .nameTooLong) hresolve
  · rename_i hshort
    rw [if_neg hshort] at hresolve
    exact present_answer hresolve

theorem present_of_zero {t : Text} (hzero : '\x00' ∈ t) : disk.present t = .ok false := by
  unfold present test resolve
  rw [if_pos (by simpa using hzero)]

/-! ## In a tree without links -/

/-- Folders lead along a path, and something stands at its end. -/
structure Stands (disk : Disk) (p : Path) : Prop where
  way : disk.root.Way (disk.start p) p.parts.dropLast
  there : (disk.root.find? (disk.spot p)).isSome

/-- A path is short enough for the question what is there, and so is the name at which its way ends early, if it does. -/
structure CanAsk (disk : Disk) (p : Path) : Prop where
  path : (Utf8.encode p.text).length ≤ pathLimit
  name : ∀ before n after, disk.root.Stops (disk.start p) p.parts before n after → (Utf8.encode n).length ≤ nameLimit

/-- Short names can always be asked about. -/
theorem canAsk_of_short (hpath : (Utf8.encode p.text).length ≤ pathLimit)
    (hnames : ∀ n ∈ p.parts, (Utf8.encode n).length ≤ nameLimit) : disk.CanAsk p :=
  ⟨hpath, fun _ n _ hs => hnames n (by simp [hs.split])⟩

theorem stands_of_way (hway : disk.root.Way (disk.start p) p.parts) : disk.Stands p := by
  obtain ⟨d, hd⟩ := hway.folderAt
  refine ⟨fun front hfront => hway front (hfront.trans (List.dropLast_prefix _)), ?_⟩
  rw [spot, hd]
  rfl

/-- Where a way ends early, something stands at the end of the path only under the last of its names. -/
theorem stands_iff_of_stops {before after : List Text} {n : Text} (hs : disk.root.Stops (disk.start p) p.parts before n after) :
    disk.Stands p ↔ after = [] ∧ (disk.root.find? (goes (disk.start p) before ++ [n])).isSome := by
  have hspot (hafter : after = []) : disk.spot p = goes (disk.start p) before ++ [n] := by
    rw [spot, hs.split, hafter, Path.goes_concat hs.down]
  constructor
  · intro h
    have hafter : after = [] := by
      by_contra hne
      have hfront : before ++ [n] <+: p.parts.dropLast := by
        rw [hs.split, List.dropLast_append_of_ne_nil (List.cons_ne_nil n after), List.dropLast_cons_of_ne_nil hne]
        exact ⟨after.dropLast, by simp⟩
      have hfolder := h.way _ hfront
      rw [Path.goes_concat hs.down] at hfolder
      exact hs.noFolder hfolder
    exact ⟨hafter, hspot hafter ▸ h.there⟩
  · rintro ⟨rfl, hthere⟩
    refine ⟨?_, hspot rfl ▸ hthere⟩
    rw [hs.split, List.dropLast_concat]
    exact hs.way

/-- The names of a path that stands are names of entries. -/
theorem Plain.zero_not_mem (h : disk.Plain) (hstands : disk.Stands p) : '\x00' ∉ p.text := by
  refine Path.zero_not_mem_text fun n hn => ?_
  rcases Dir.way_or_stops p.parts (h.start p) with hway | ⟨before, m, after, hs⟩
  · rcases hway.names h.wellFormed n hn with rfl | hname
    · decide
    · exact hname.noZero
  · obtain ⟨rfl, hthere⟩ := (stands_iff_of_stops hs).1 hstands
    obtain ⟨e, he⟩ := Option.isSome_iff_exists.1 hthere
    rw [hs.split, List.mem_append, List.mem_singleton] at hn
    rcases hn with hn | rfl
    · rcases hs.way.names h.wellFormed n hn with rfl | hname
      · decide
      · exact hname.noZero
    · exact ((h.wellFormed.find? he).1 n (by simp)).noZero

/-- Where a path leads whose way ends early, if the name there is not too long. -/
theorem Plain.leads_of_stops (h : disk.Plain) (hp : p.Normal) {before after : List Text} {n : Text}
    (hs : disk.root.Stops (disk.start p) p.parts before n after) :
    disk.leads .target p =
      if nameLimit < (Utf8.encode n).length then .error .nameTooLong
      else match disk.root.find? (goes (disk.start p) before ++ [n]) with
        | some (.file b) =>
          if after.isEmpty then .ok (.found (goes (disk.start p) before ++ [n]) (.file b)) else .error .notAFolder
        | _ => if after.isEmpty then .ok (.free (goes (disk.start p) before) n) else .error .notFound := by
  obtain ⟨jump, hjump⟩ := resolveParts_walk disk.root .target linkLimit
  exact (congrFun₂ hjump _ _).trans (walk_stops h.wellFormed h.unlinked hs hp)

/-- What can be asked about is answered as it is. -/
theorem Plain.present_of_canAsk (h : disk.Plain) (hp : p.Normal) (hask : disk.CanAsk p) :
    ∃ b, disk.present p.text = .ok b ∧ (b = true ↔ disk.Stands p) := by
  by_cases hzero : '\x00' ∈ p.text
  · exact ⟨false, present_of_zero hzero, iff_of_false nofun fun hstands => h.zero_not_mem hstands hzero⟩
  rw [present_text hp hzero, if_neg (Nat.not_lt.2 hask.path)]
  rcases Dir.way_or_stops p.parts (h.start p) with hway | ⟨before, n, after, hs⟩
  · obtain ⟨d, hd⟩ := leads_way h.wellFormed hp hway .target
    rw [hd]
    exact ⟨true, rfl, iff_of_true rfl (stands_of_way hway)⟩
  · have hleads := h.leads_of_stops hp hs
    rw [if_neg (Nat.not_lt.2 (hask.name _ _ _ hs))] at hleads
    rw [stands_iff_of_stops hs]
    cases hfind : disk.root.find? (goes (disk.start p) before ++ [n]) with
    | none =>
      rw [hfind] at hleads
      cases after <;> exact ⟨false, by rw [hleads]; rfl, by simp⟩
    | some e =>
      cases e with
      | file b =>
        rw [hfind] at hleads
        cases after with
        | nil => exact ⟨true, by rw [hleads]; rfl, by simp⟩
        | cons m after => exact ⟨false, by rw [hleads]; rfl, by simp⟩
      | link t => exact absurd hfind (h.unlinked _ t)
      | folder d => exact absurd ⟨d, hfind⟩ hs.noFolder

theorem Plain.canAsk_of_present (h : disk.Plain) (hp : p.Normal) (hzero : '\x00' ∉ p.text) {b : Bool}
    (hb : disk.present p.text = .ok b) : disk.CanAsk p := by
  have hshort : (Utf8.encode p.text).length ≤ pathLimit := by
    by_contra hlong
    rw [present_text hp hzero, if_pos (Nat.lt_of_not_le hlong)] at hb
    cases hb
  refine ⟨hshort, fun before n after hs => ?_⟩
  by_contra hlong
  rw [present_text hp hzero, if_neg (Nat.not_lt.2 hshort), h.leads_of_stops hp hs, if_pos (Nat.lt_of_not_le hlong)] at hb
  cases hb

/-- There is an answer exactly for paths that are short enough, and for those that no entry can have. -/
theorem Plain.present_runs_iff (h : disk.Plain) (hp : p.Normal) :
    (∃ b, disk.present p.text = .ok b) ↔ '\x00' ∈ p.text ∨ disk.CanAsk p := by
  constructor
  · rintro ⟨b, hb⟩
    by_cases hzero : '\x00' ∈ p.text
    · exact .inl hzero
    · exact .inr (h.canAsk_of_present hp hzero hb)
  · rintro (hzero | hask)
    · exact ⟨false, present_of_zero hzero⟩
    · obtain ⟨b, hb, -⟩ := h.present_of_canAsk hp hask
      exact ⟨b, hb⟩

/-- An answer says whether the path stands. -/
theorem Plain.present_iff (h : disk.Plain) (hp : p.Normal) {b : Bool} (hb : disk.present p.text = .ok b) :
    b = true ↔ disk.Stands p := by
  rcases (h.present_runs_iff hp).1 ⟨b, hb⟩ with hzero | hask
  · obtain rfl := Except.ok.inj (hb.symm.trans (present_of_zero hzero))
    exact iff_of_false nofun fun hstands => h.zero_not_mem hstands hzero
  · obtain ⟨b', hb', hiff⟩ := h.present_of_canAsk hp hask
    obtain rfl := Except.ok.inj (hb.symm.trans hb')
    exact hiff

/-! ## In a tree that grew -/

section Grown

variable {root root' : Dir}

/-- What led to something still does, and what was refused, and not because it was not there, is refused again. -/
structure Persists (x x' : Except FileProblem Place) : Prop where
  found : ∀ place e, x = .ok (.found place e) → ∃ e', x' = .ok (.found place e')
  refused : ∀ problem, x = .error problem → problem.isAbsence = true ∨ x' = .error problem

theorem persists_refl (x : Except FileProblem Place) : Persists x x := ⟨fun _ e h => ⟨e, h⟩, fun _ h => .inr h⟩

/-- What leads to a free name, or nowhere, may lead to anything later. -/
theorem persists_free (folder : List Text) (name : Text) (x' : Except FileProblem Place) :
    Persists (.ok (.free folder name)) x' := ⟨by rintro _ _ ⟨⟩, by rintro _ ⟨⟩⟩

theorem persists_absence {problem : FileProblem} (h : problem.isAbsence = true) (x' : Except FileProblem Place) :
    Persists (.error problem) x' := ⟨by rintro _ _ ⟨⟩, by rintro _ ⟨⟩; exact .inl h⟩

theorem walk_grown (hkept : ∀ path e, root.find? path = some e → root'.StillHas path e)
    {jump jump' : List Text → List Text → Except FileProblem Place} (hjump : ∀ here parts, Persists (jump here parts) (jump' here parts)) :
    ∀ (parts here : List Text), Persists (walk root .target jump here parts) (walk root' .target jump' here parts)
  | [], here => by
    rw [walk, walk]
    cases hfind : root.find? here with
    | none => exact persists_absence rfl _
    | some e =>
      obtain ⟨e', he', -⟩ := hkept here e hfind
      rw [he']
      exact ⟨by rintro _ _ ⟨⟩; exact ⟨e', rfl⟩, by rintro _ ⟨⟩⟩
  | part :: parts, here => by
    rcases part_cases part with hp | rfl | hp
    · rw [walk_skip hp, walk_skip hp]
      exact walk_grown hkept hjump parts here
    · rw [walk_up, walk_up]
      exact walk_grown hkept hjump parts _
    rw [walk_down hp (by rintro ⟨⟩), walk_down hp (by rintro ⟨⟩)]
    split
    · exact persists_refl _
    cases hfind : root.find? (here ++ [part]) with
    | none =>
      cases parts with
      | nil => exact persists_free _ _ _
      | cons => exact persists_absence rfl _
    | some e =>
      obtain ⟨e', he', hshell⟩ := hkept _ e hfind
      rw [he']
      cases e with
      | folder d =>
        obtain ⟨d', rfl⟩ := Entry.shell_eq_folder.1 hshell
        exact walk_grown hkept hjump parts _
      | file b =>
        rw [Entry.shell_eq_file.1 hshell]
        exact persists_refl _
      | link t =>
        rw [Entry.shell_eq_link.1 hshell]
        simp only [reduceCtorEq, decide_false, Bool.and_false, Bool.false_eq_true, if_false]
        exact hjump _ _

theorem resolveParts_grown (hkept : ∀ path e, root.find? path = some e → root'.StillHas path e) : ∀ (links : Nat)
    (here parts : List Text), Persists (resolveParts root .target links here parts) (resolveParts root' .target links here parts)
  | 0, here, parts => walk_grown hkept (fun _ _ => persists_refl _) parts here
  | links + 1, here, parts => walk_grown hkept (resolveParts_grown hkept links) parts here

theorem Persists.answer {x x' : Except FileProblem Place} (h : Persists x x') {t : Text} {b' : Bool} (hb' : answer t x' = .ok b') :
    ∃ b, answer t x = .ok b ∧ (b = true → b' = true) := by
  rcases x with problem | ⟨place, e⟩ | ⟨folder, name⟩
  · rcases h.refused problem rfl with habsent | rfl
    · exact ⟨false, if_pos habsent, nofun⟩
    · exact ⟨b', hb', id⟩
  · obtain ⟨e', rfl⟩ := h.found place e rfl
    exact ⟨true, rfl, fun _ => (Except.ok.inj hb').symm⟩
  · exact ⟨false, rfl, nofun⟩

/-- An answer in a tree that grew was given before, and what was there still is. -/
theorem present_grown (hkept : ∀ path e, disk.root.find? path = some e → root'.StillHas path e) {t : Text} {b' : Bool}
    (h : (disk.setRoot root').present t = .ok b') : ∃ b, disk.present t = .ok b ∧ (b = true → b' = true) := by
  by_cases hzero : '\x00' ∈ t
  · exact ⟨false, present_of_zero hzero, nofun⟩
  have hpresent (disk : Disk) : disk.present t = answer t (if t.isEmpty then .error .notFound
      else if pathLimit < (Utf8.encode t).length then .error .nameTooLong
      else resolveParts disk.root .target linkLimit (if ['/'].isPrefixOf t then [] else disk.workingFolder) (steps t)) := by
    refine present_answer ?_
    unfold resolve
    rw [if_neg (by simpa using hzero)]
    rfl
  rw [hpresent] at h ⊢
  refine Persists.answer (?_ : Persists _ _) h
  split
  · exact persists_refl _
  split
  · exact persists_refl _
  exact resolveParts_grown hkept _ _ _

end Grown

end Disk

end ActionSweep
