/-
File trees as maps from paths to entries. In a well-formed tree every name is one that a file system
allows and no folder has a name twice, so what stands at a path is found step by step, and the
contents of a folder are exactly what its paths lead to.
-/
import ActionSweep.EmptyFolders
import ActionSweep.Proofs.Files.Path

namespace ActionSweep

/-- A name that an entry of a folder can have. -/
structure IsName (n : Text) : Prop where
  part : Path.IsPart n
  notUp : n ≠ ['.', '.']
  noZero : '\x00' ∉ n
  short : (Utf8.encode n).length ≤ Disk.nameLimit

instance (n : Text) : Decidable (IsName n) :=
  decidable_of_iff (Path.IsPart n ∧ n ≠ ['.', '.'] ∧ '\x00' ∉ n ∧ (Utf8.encode n).length ≤ Disk.nameLimit)
    ⟨fun ⟨h, h₁, h₂, h₃⟩ => ⟨h, h₁, h₂, h₃⟩, fun ⟨h, h₁, h₂, h₃⟩ => ⟨h, h₁, h₂, h₃⟩⟩

/-- What stands at a path below an entry; only folders have anything below them. -/
def Entry.find? : List Text → Entry → Option Entry
  | [], e => some e
  | path, .folder d => d.find? path
  | _, _ => none

@[simp] theorem Entry.find?_nil (e : Entry) : e.find? [] = some e := by
  cases e <;> rfl

theorem Entry.find?_folder (path : List Text) (d : Dir) : Entry.find? path (.folder d) = d.find? path := by
  cases path <;> rfl

namespace Dir

/-- The names of the entries, in order. -/
def names : Dir → List Text
  | empty => []
  | file n _ rest => n :: rest.names
  | link n _ rest => n :: rest.names
  | folder n _ rest => n :: rest.names

/-- Every name is allowed, and each stands before all greater ones. -/
def WellFormed : Dir → Prop
  | empty => True
  | file n _ rest => IsName n ∧ (∀ m ∈ rest.names, n < m) ∧ rest.WellFormed
  | link n _ rest => IsName n ∧ (∀ m ∈ rest.names, n < m) ∧ rest.WellFormed
  | folder n d rest => IsName n ∧ (∀ m ∈ rest.names, n < m) ∧ d.WellFormed ∧ rest.WellFormed

/-- There are no links at any level. -/
def LinkFree : Dir → Prop
  | empty => True
  | file _ _ rest => rest.LinkFree
  | link _ _ _ => False
  | folder _ d rest => d.LinkFree ∧ rest.LinkFree

def decideWellFormed : (d : Dir) → Decidable d.WellFormed
  | empty => .isTrue trivial
  | file _ _ rest | link _ _ rest =>
    have := decideWellFormed rest
    inferInstanceAs (Decidable (_ ∧ _ ∧ _))
  | folder _ d rest =>
    have := decideWellFormed d
    have := decideWellFormed rest
    inferInstanceAs (Decidable (_ ∧ _ ∧ _ ∧ _))

instance (d : Dir) : Decidable d.WellFormed := d.decideWellFormed

def decideLinkFree : (d : Dir) → Decidable d.LinkFree
  | empty => .isTrue trivial
  | file _ _ rest => decideLinkFree rest
  | link _ _ _ => .isFalse id
  | folder _ d rest =>
    have := decideLinkFree d
    have := decideLinkFree rest
    inferInstanceAs (Decidable (_ ∧ _))

instance (d : Dir) : Decidable d.LinkFree := d.decideLinkFree

/-! ## Entries by name -/

theorem mem_names_of_get? {n : Text} {e : Entry} : ∀ {d : Dir}, d.get? n = some e → n ∈ d.names
  | empty, h => by cases h
  | file m b rest, h | link m b rest, h | folder m b rest, h => by
    unfold get? at h
    split at h
    · rename_i hm
      subst hm
      exact List.mem_cons_self ..
    · exact List.mem_cons_of_mem _ (mem_names_of_get? h)

theorem get?_eq_none {n : Text} : ∀ {d : Dir}, n ∉ d.names → d.get? n = none := by
  intro d h
  rcases hg : d.get? n with _ | e
  · rfl
  · exact absurd (mem_names_of_get? hg) h

/-- A name that is smaller than all others is not among them. -/
theorem ne_of_below {n m : Text} {l : List Text} (h : ∀ k ∈ l, n < k) (hm : m ∈ l) : n ≠ m := by
  rintro rfl
  exact List.lt_irrefl n (h n hm)

/-- What a well-formed folder says about an entry of it. -/
structure Inside (n : Text) (e : Entry) : Prop where
  name : IsName n
  wellFormed : ∀ inside, e = .folder inside → inside.WellFormed

theorem WellFormed.get? {n : Text} {e : Entry} :
    ∀ {d : Dir}, d.WellFormed → d.get? n = some e → Inside n e
  | empty, _, h => by cases h
  | file m b rest, hd, h | link m b rest, hd, h => by
    obtain ⟨hm, -, hrest⟩ := hd
    unfold Dir.get? at h
    split at h
    · rename_i he
      subst he
      cases h
      exact ⟨hm, by rintro _ ⟨⟩⟩
    · exact hrest.get? h
  | folder m b rest, hd, h => by
    obtain ⟨hm, -, hb, hrest⟩ := hd
    unfold Dir.get? at h
    split at h
    · rename_i he
      subst he
      cases h
      exact ⟨hm, by rintro _ ⟨⟩; exact hb⟩
    · exact hrest.get? h

theorem LinkFree.get? {n : Text} {e : Entry} : ∀ {d : Dir}, d.LinkFree → d.get? n = some e →
    (∀ t, e ≠ .link t) ∧ ∀ inside, e = .folder inside → inside.LinkFree
  | empty, _, h => by cases h
  | file m b rest, hd, h => by
    unfold Dir.get? at h
    split at h
    · cases h
      exact ⟨by rintro _ ⟨⟩, by rintro _ ⟨⟩⟩
    · exact LinkFree.get? (d := rest) hd h
  | folder m b rest, hd, h => by
    unfold Dir.get? at h
    split at h
    · cases h
      exact ⟨by rintro _ ⟨⟩, by rintro _ ⟨⟩; exact hd.1⟩
    · exact hd.2.get? h

/-! ## Entries by path -/

theorem find?_singleton (n : Text) (d : Dir) : d.find? [n] = d.get? n := rfl

theorem find?_cons (n : Text) (path : List Text) (d : Dir) :
    d.find? (n :: path) = (d.get? n).bind (Entry.find? path) := by
  cases path with
  | nil =>
    rw [find?_singleton]
    cases d.get? n <;> rfl
  | cons m path =>
    rw [find?]
    · rcases d.get? n with _ | (_ | _ | _) <;> rfl
    · exact List.cons_ne_nil m path

/-- A path leads on from where its beginning leads. -/
theorem find?_append (path more : List Text) (d : Dir) :
    d.find? (path ++ more) = (d.find? path).bind (Entry.find? more) := by
  induction path generalizing d with
  | nil => cases more <;> rfl
  | cons n path ih =>
    rw [List.cons_append, find?_cons, find?_cons]
    rcases d.get? n with _ | e
    · rfl
    rw [Option.bind_some, Option.bind_some]
    cases e with
    | folder inside =>
      rw [Entry.find?_folder, Entry.find?_folder, ih]
    | file b | link t => cases path <;> cases more <;> rfl

/-- Behind a folder a path leads on inside. -/
theorem find?_inside {path : List Text} {d inside : Dir} (h : d.find? path = some (.folder inside)) (more : List Text) :
    d.find? (path ++ more) = inside.find? more := by
  rw [find?_append, h, Option.bind_some, Entry.find?_folder]

theorem find?_concat (path : List Text) (n : Text) {d inside : Dir} (h : d.find? path = some (.folder inside)) :
    d.find? (path ++ [n]) = inside.get? n := by
  rw [find?_inside h, find?_singleton]

/-- What stands below the beginning of a path stands in a folder. -/
theorem find?_folder_of_append {path more : List Text} {d : Dir} {e : Entry} (hmore : more ≠ [])
    (h : d.find? (path ++ more) = some e) :
    ∃ inside, d.find? path = some (.folder inside) ∧ inside.find? more = some e := by
  obtain ⟨m, ms, rfl⟩ := List.exists_cons_of_ne_nil hmore
  rw [find?_append, Option.bind_eq_some_iff] at h
  obtain ⟨f, hf, h⟩ := h
  cases f with
  | folder inside => exact ⟨inside, hf, h⟩
  | file b | link t => cases h

theorem WellFormed.find? {path : List Text} {d : Dir} {e : Entry} (hd : d.WellFormed)
    (h : d.find? path = some e) :
    (∀ n ∈ path, IsName n) ∧ ∀ inside, e = .folder inside → inside.WellFormed := by
  induction path generalizing d with
  | nil =>
    cases h
    exact ⟨by simp, by rintro _ ⟨⟩; exact hd⟩
  | cons n path ih =>
    rw [find?_cons, Option.bind_eq_some_iff] at h
    obtain ⟨f, hf, h⟩ := h
    have hin := hd.get? hf
    cases path with
    | nil =>
      cases h
      exact ⟨by simpa using hin.name, hin.wellFormed⟩
    | cons m path =>
      cases f with
      | folder inside =>
        obtain ⟨hnames, hwf⟩ := ih (hin.wellFormed inside rfl) h
        refine ⟨fun k hk => ?_, hwf⟩
        rcases List.mem_cons.1 hk with rfl | hk
        · exact hin.name
        · exact hnames k hk
      | file b | link t => cases h

theorem LinkFree.find? {path : List Text} {d : Dir} {e : Entry} (hd : d.LinkFree)
    (h : d.find? path = some e) :
    (∀ t, e ≠ .link t) ∧ ∀ inside, e = .folder inside → inside.LinkFree := by
  induction path generalizing d with
  | nil =>
    cases h
    exact ⟨by rintro _ ⟨⟩, by rintro _ ⟨⟩; exact hd⟩
  | cons n path ih =>
    rw [find?_cons, Option.bind_eq_some_iff] at h
    obtain ⟨f, hf, h⟩ := h
    have hin := hd.get? hf
    cases path with
    | nil =>
      cases h
      exact hin
    | cons m path =>
      cases f with
      | folder inside => exact ih (hin.2 inside rfl) h
      | file b | link t => cases h

/-! ## Contents -/

/-- A path starts with the first name, or leads to what it leads to among the rest. -/
theorem find?_first (n m : Text) (e : Entry) (rest : Dir) (path : List Text) :
    (cons n e rest).find? (m :: path) = if n = m then e.find? path else rest.find? (m :: path) := by
  rw [find?_cons, find?_cons]
  cases e with
  | file b | link t | folder d =>
    unfold cons
    simp only [get?]
    split <;> rfl

theorem find?_folder (n m : Text) (d rest : Dir) (path : List Text) :
    (folder n d rest).find? (m :: path) = if n = m then d.find? path else rest.find? (m :: path) := by
  rw [show folder n d rest = cons n (.folder d) rest from rfl, find?_first, Entry.find?_folder]

/-- What stands behind the first entry of a well-formed folder is found past it. -/
theorem find?_of_rest {n : Text} {e f : Entry} {rest : Dir} {path : List Text}
    (hbelow : ∀ m ∈ rest.names, n < m) (hne : path ≠ []) (h : rest.find? path = some f) :
    (cons n e rest).find? path = some f := by
  obtain ⟨m, ms, rfl⟩ := List.exists_cons_of_ne_nil hne
  rw [find?_first, if_neg, h]
  rw [find?_cons, Option.bind_eq_some_iff] at h
  obtain ⟨g, hg, -⟩ := h
  exact ne_of_below hbelow (mem_names_of_get? hg)

/-- A path leads to the first entry or into it, or to what it leads to among the rest. -/
theorem find?_entry_iff {n : Text} {e f : Entry} {rest : Dir} {path : List Text}
    (hbelow : ∀ m ∈ rest.names, n < m) (hne : path ≠ []) :
    (cons n e rest).find? path = some f ↔
      (∃ more, path = n :: more ∧ e.find? more = some f) ∨ rest.find? path = some f := by
  constructor
  · intro h
    obtain ⟨m, ms, rfl⟩ := List.exists_cons_of_ne_nil hne
    rw [find?_first] at h
    split at h
    · rename_i hm
      exact .inl ⟨ms, by rw [hm], h⟩
    · exact .inr h
  · rintro (⟨more, rfl, h⟩ | h)
    · rw [find?_first, if_pos rfl, h]
    · exact find?_of_rest hbelow hne h

/-- No path leads into a file or a link. -/
theorem find?_leaf_iff {n : Text} {e f : Entry} {rest : Dir} {path : List Text} (hleaf : ∀ d, e ≠ .folder d)
    (hbelow : ∀ m ∈ rest.names, n < m) (hne : path ≠ []) :
    (cons n e rest).find? path = some f ↔ (path = [n] ∧ f = e) ∨ rest.find? path = some f := by
  rw [find?_entry_iff hbelow hne]
  refine or_congr_left ⟨?_, ?_⟩
  · rintro ⟨more, rfl, h⟩
    cases more with
    | nil =>
      rw [Entry.find?_nil] at h
      cases h
      exact ⟨rfl, rfl⟩
    | cons m more =>
      cases e with
      | folder d => exact absurd rfl (hleaf d)
      | file b | link t => cases h
  · rintro ⟨rfl, rfl⟩
    exact ⟨[], rfl, Entry.find?_nil f⟩

theorem find?_leaf_folder {n : Text} {e : Entry} {rest inside : Dir} {path : List Text}
    (hleaf : ∀ d, e ≠ .folder d) (hbelow : ∀ m ∈ rest.names, n < m) (hne : path ≠ []) :
    (cons n e rest).find? path = some (.folder inside) ↔ rest.find? path = some (.folder inside) := by
  rw [find?_leaf_iff hleaf hbelow hne]
  exact or_iff_right fun h => hleaf inside h.2.symm

theorem find?_folder_iff {n : Text} {f : Entry} {d rest : Dir} {path : List Text}
    (hbelow : ∀ m ∈ rest.names, n < m) (hne : path ≠ []) :
    (folder n d rest).find? path = some f ↔
      (∃ more, path = n :: more ∧ d.find? more = some f) ∨ rest.find? path = some f := by
  rw [show folder n d rest = cons n (.folder d) rest from rfl, find?_entry_iff hbelow hne]
  simp only [Entry.find?_folder]

/-- The contents of a folder, with a first entry that is no folder, are that entry and those of the rest. -/
theorem mem_contents_leaf {n : Text} {e f : Entry} {rest : Dir} {path p : List Text} (hleaf : ∀ d, e ≠ .folder d)
    (hbelow : ∀ m ∈ rest.names, n < m)
    (hrest : (p, f) ∈ rest.contents path ↔ ∃ more, more ≠ [] ∧ p = path ++ more ∧ rest.find? more = some f) :
    (p, f) ∈ (path ++ [n], e) :: rest.contents path ↔
      ∃ more, more ≠ [] ∧ p = path ++ more ∧ (cons n e rest).find? more = some f := by
  rw [List.mem_cons, hrest, Prod.mk.injEq]
  constructor
  · rintro (⟨rfl, rfl⟩ | ⟨more, hne, rfl, h⟩)
    · exact ⟨[n], by simp, rfl, (find?_leaf_iff hleaf hbelow (by simp)).2 (.inl ⟨rfl, rfl⟩)⟩
    · exact ⟨more, hne, rfl, (find?_leaf_iff hleaf hbelow hne).2 (.inr h)⟩
  · rintro ⟨more, hne, rfl, h⟩
    rcases (find?_leaf_iff hleaf hbelow hne).1 h with ⟨rfl, rfl⟩ | h
    · exact .inl ⟨rfl, rfl⟩
    · exact .inr ⟨more, hne, rfl, h⟩

/-- In a well-formed folder the contents are what the paths lead to. -/
theorem mem_contents {d : Dir} (hd : d.WellFormed) {path p : List Text} {e : Entry} :
    (p, e) ∈ d.contents path ↔ ∃ more, more ≠ [] ∧ p = path ++ more ∧ d.find? more = some e := by
  induction d generalizing path with
  | empty =>
    simp only [contents, List.not_mem_nil, false_iff, not_exists, not_and]
    rintro more hne - h
    obtain ⟨m, ms, rfl⟩ := List.exists_cons_of_ne_nil hne
    rw [find?_cons] at h
    cases h
  | file n b rest ih => exact mem_contents_leaf (e := .file b) (by rintro d ⟨⟩) hd.2.1 (ih hd.2.2)
  | link n t rest ih => exact mem_contents_leaf (e := .link t) (by rintro d ⟨⟩) hd.2.1 (ih hd.2.2)
  | folder n inside rest ihin ih =>
    obtain ⟨-, hbelow, hin, hrest⟩ := hd
    simp only [contents, List.mem_cons, List.mem_append, ih hrest, ihin hin, Prod.mk.injEq]
    constructor
    · rintro (⟨rfl, rfl⟩ | ⟨more, hne, rfl, h⟩ | ⟨more, hne, rfl, h⟩)
      · exact ⟨[n], by simp, rfl, (find?_folder_iff hbelow (by simp)).2 (.inl ⟨[], rfl, rfl⟩)⟩
      · exact ⟨n :: more, by simp, by simp, (find?_folder_iff hbelow (by simp)).2 (.inl ⟨more, rfl, h⟩)⟩
      · exact ⟨more, hne, rfl, (find?_folder_iff hbelow hne).2 (.inr h)⟩
    · rintro ⟨more, hne, rfl, h⟩
      rcases (find?_folder_iff hbelow hne).1 h with ⟨below, rfl, hinside⟩ | hfind
      · cases below with
        | nil =>
          cases hinside
          exact .inl ⟨rfl, rfl⟩
        | cons m below => exact .inr (.inl ⟨m :: below, by simp, by simp, hinside⟩)
      · exact .inr (.inr ⟨more, hne, rfl, hfind⟩)

/-- Nothing is listed twice in a well-formed folder. -/
theorem nodup_contents {d : Dir} (hd : d.WellFormed) (path : List Text) : ((d.contents path).map (·.1)).Nodup := by
  -- the first entry is not among the rest, whose names are greater
  have hfirst : ∀ {n : Text} {rest : Dir}, rest.WellFormed → (∀ m ∈ rest.names, n < m) → ∀ path more,
      path ++ n :: more ∉ (rest.contents path).map (·.1) := by
    intro n rest hrest hbelow path more hmem
    obtain ⟨⟨p, e⟩, hmem, rfl⟩ := List.mem_map.1 hmem
    obtain ⟨more', hne, hp, hfind⟩ := (mem_contents hrest).1 hmem
    obtain rfl := List.append_cancel_left hp
    rw [find?_cons, Option.bind_eq_some_iff] at hfind
    obtain ⟨e', hget, -⟩ := hfind
    exact List.lt_irrefl n (hbelow n (mem_names_of_get? hget))
  induction d generalizing path with
  | empty => exact List.nodup_nil
  | file n b rest ih => exact List.nodup_cons.2 ⟨hfirst hd.2.2 hd.2.1 path [], ih hd.2.2 path⟩
  | link n t rest ih => exact List.nodup_cons.2 ⟨hfirst hd.2.2 hd.2.1 path [], ih hd.2.2 path⟩
  | folder n inside rest ihin ih =>
    obtain ⟨-, hbelow, hin, hrest⟩ := hd
    have hinside : ∀ p ∈ (inside.contents (path ++ [n])).map (·.1), ∃ more, more ≠ [] ∧ p = path ++ n :: more := by
      intro p hp
      obtain ⟨⟨q, e⟩, hmem, rfl⟩ := List.mem_map.1 hp
      obtain ⟨more, hne, rfl, -⟩ := (mem_contents hin).1 hmem
      exact ⟨more, hne, by simp⟩
    rw [contents, List.map_cons, List.map_append, List.nodup_cons, List.nodup_append]
    refine ⟨fun hmem => ?_, ihin hin _, ih hrest path, fun p hp q hq he => ?_⟩
    · rcases List.mem_append.1 hmem with hmem | hmem
      · obtain ⟨more, hne, he⟩ := hinside _ hmem
        exact hne (List.cons.inj (List.append_cancel_left he)).2.symm
      · exact hfirst hrest hbelow path [] hmem
    · obtain ⟨more, -, rfl⟩ := hinside p hp
      subst he
      exact hfirst hrest hbelow path more hq

end Dir

end ActionSweep
