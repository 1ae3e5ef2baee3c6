/-
The order of entries. The entries of a folder stand in the order of their names at every level, so no name stands
twice; whatever is put into a tree or removed from it, that order is kept, and what was removed is gone.
-/
import ActionSweep.Proofs.Files.Growth
import Mathlib.Tactic.Tauto

namespace ActionSweep

/-- Each name stands before all greater ones, at every level. -/
def Dir.Ordered : Dir → Prop
  | empty => True
  | file n _ rest | link n _ rest => (∀ m ∈ rest.names, n < m) ∧ rest.Ordered
  | folder n d rest => (∀ m ∈ rest.names, n < m) ∧ d.Ordered ∧ rest.Ordered

def Dir.decideOrdered : (d : Dir) → Decidable d.Ordered
  | empty => .isTrue trivial
  | file _ _ rest | link _ _ rest =>
    have := decideOrdered rest
    inferInstanceAs (Decidable (_ ∧ _))
  | folder _ d rest =>
    have := decideOrdered d
    have := decideOrdered rest
    inferInstanceAs (Decidable (_ ∧ _ ∧ _))

instance (d : Dir) : Decidable d.Ordered := d.decideOrdered

/-- The content of the entry is in order, if it is a folder. -/
def Entry.Ordered (e : Entry) : Prop := ∀ inside, e = .folder inside → inside.Ordered

namespace Dir

variable {n : Text} {e : Entry} {d rest : Dir}

/-! ## One entry after the other -/

/-- A folder is empty, or an entry of some kind stands in front of the others. -/
@[elab_as_elim]
theorem cons_induction {P : Dir → Prop} (empty : P .empty) (cons : ∀ n e rest, P rest → P (cons n e rest)) : ∀ d, P d
  | .empty => empty
  | file n b rest => cons n (.file b) rest (cons_induction empty cons rest)
  | link n t rest => cons n (.link t) rest (cons_induction empty cons rest)
  | folder n d rest => cons n (.folder d) rest (cons_induction empty cons rest)

theorem ordered_cons : (cons n e rest).Ordered ↔ (∀ m ∈ rest.names, n < m) ∧ e.Ordered ∧ rest.Ordered := by
  cases e <;> simp [cons, Ordered, Entry.Ordered]

theorem names_cons : (cons n e rest).names = n :: rest.names := by
  cases e <;> rfl

theorem get?_cons (k : Text) : (cons n e rest).get? k = if n = k then some e else rest.get? k := by
  cases e <;> rfl

theorem put_cons (k : Text) (f : Entry) : (cons n e rest).put k f =
    if n = k then cons k f rest else if k < n then cons k f (cons n e rest) else cons n e (rest.put k f) := by
  cases e <;> rfl

theorem erase_cons (k : Text) : (cons n e rest).erase k = if n = k then rest else cons n e (rest.erase k) := by
  cases e <;> rfl

/-! ## Names -/

theorem mem_names_put {m k : Text} (f : Entry) : m ∈ (d.put k f).names → m = k ∨ m ∈ d.names := by
  induction d using cons_induction with
  | empty =>
    intro h
    rw [put, names_cons] at h
    simpa using h
  | cons n e rest ih =>
    rw [put_cons, names_cons, List.mem_cons]
    split
    · rw [names_cons, List.mem_cons]
      tauto
    · split
      · rw [names_cons, List.mem_cons, names_cons, List.mem_cons]
        exact id
      · rw [names_cons, List.mem_cons]
        tauto

theorem mem_names_erase {m k : Text} : m ∈ (d.erase k).names → m ∈ d.names := by
  induction d using cons_induction with
  | empty => exact id
  | cons n e rest ih =>
    rw [erase_cons, names_cons, List.mem_cons]
    split
    · exact .inr
    · rw [names_cons, List.mem_cons]
      exact Or.imp_right ih

/-! ## Changes of a folder -/

theorem Ordered.put (hd : d.Ordered) (k : Text) {f : Entry} (hf : f.Ordered) : (d.put k f).Ordered := by
  induction d using cons_induction with
  | empty =>
    rw [Dir.put, ordered_cons]
    exact ⟨by simp [names], hf, trivial⟩
  | cons n e rest ih =>
    obtain ⟨hbelow, he, hrest⟩ := ordered_cons.1 hd
    rw [put_cons]
    split
    · rename_i hn
      subst hn
      exact ordered_cons.2 ⟨hbelow, hf, hrest⟩
    · rename_i hn
      split
      · rename_i hk
        refine ordered_cons.2 ⟨fun m hm => ?_, hf, hd⟩
        rw [names_cons, List.mem_cons] at hm
        rcases hm with rfl | hm
        · exact hk
        · exact List.lt_trans hk (hbelow m hm)
      · rename_i hk
        refine ordered_cons.2 ⟨fun m hm => ?_, he, ih hrest⟩
        rcases mem_names_put f hm with rfl | hm
        · exact Decidable.not_not.1 fun hle => hn (List.le_antisymm hk hle)
        · exact hbelow m hm

theorem Ordered.erase (hd : d.Ordered) (k : Text) : (d.erase k).Ordered := by
  induction d using cons_induction with
  | empty => trivial
  | cons n e rest ih =>
    obtain ⟨hbelow, he, hrest⟩ := ordered_cons.1 hd
    rw [erase_cons]
    split
    · exact hrest
    · exact ordered_cons.2 ⟨fun m hm => hbelow m (mem_names_erase hm), he, ih hrest⟩

/-- What is erased is gone. -/
theorem Ordered.get?_erase_self (hd : d.Ordered) (k : Text) : (d.erase k).get? k = none := by
  induction d using cons_induction with
  | empty => rfl
  | cons n e rest ih =>
    obtain ⟨hbelow, he, hrest⟩ := ordered_cons.1 hd
    rw [erase_cons]
    split
    · rename_i hn
      subst hn
      exact get?_eq_none fun hn => ne_of_below hbelow hn rfl
    · rename_i hn
      rw [get?_cons, if_neg hn, ih hrest]

theorem Ordered.get? (hd : d.Ordered) {k : Text} {f : Entry} (h : d.get? k = some f) : f.Ordered := by
  induction d using cons_induction with
  | empty => cases h
  | cons n e rest ih =>
    obtain ⟨-, he, hrest⟩ := ordered_cons.1 hd
    rw [get?_cons] at h
    split at h
    · cases h
      exact he
    · exact ih hrest h

/-! ## Changes of a tree -/

theorem Ordered.find? : ∀ {path : List Text} {d : Dir}, d.Ordered → ∀ {f : Entry}, d.find? path = some f → f.Ordered
  | [], d, hd, f, h => by
    cases h
    rintro _ ⟨⟩
    exact hd
  | n :: path, d, hd, f, h => by
    rw [find?_cons, Option.bind_eq_some_iff] at h
    obtain ⟨e, he, h⟩ := h
    have hin := hd.get? he
    cases e with
    | folder inside =>
      rw [Entry.find?_folder] at h
      exact (hin inside rfl).find? h
    | file b | link t =>
      cases path with
      | nil =>
        cases h
        rintro _ ⟨⟩
      | cons m path => cases h

theorem Ordered.putAt {f : Entry} (hf : f.Ordered) : ∀ {path : List Text} {d : Dir}, d.Ordered → (d.putAt path f).Ordered
  | [], d, hd => hd
  | [n], d, hd => hd.put n hf
  | n :: m :: path, d, hd => by
    rw [Dir.putAt]
    · split
      · rename_i inside hn
        refine hd.put n ?_
        rintro _ ⟨⟩
        exact Ordered.putAt hf (hd.get? hn inside rfl)
      · exact hd
    · exact List.cons_ne_nil m path

theorem Ordered.eraseAt : ∀ {path : List Text} {d : Dir}, d.Ordered → (d.eraseAt path).Ordered
  | [], d, hd => hd
  | [n], d, hd => hd.erase n
  | n :: m :: path, d, hd => by
    rw [Dir.eraseAt]
    · split
      · rename_i inside hn
        refine hd.put n ?_
        rintro _ ⟨⟩
        exact Ordered.eraseAt (hd.get? hn inside rfl)
      · exact hd
    · exact List.cons_ne_nil m path

/-- What is erased is gone, with all that stood below it. -/
theorem Ordered.find?_eraseAt : ∀ {place : List Text} {d : Dir}, d.Ordered → place ≠ [] → ∀ {path : List Text},
    place <+: path → (d.eraseAt place).find? path = none
  | [], _, _, hne, _, _ => absurd rfl hne
  | [n], d, hd, _, path, hpath => by
    obtain ⟨more, rfl⟩ := hpath
    rw [Dir.eraseAt, List.singleton_append, find?_cons, hd.get?_erase_self, Option.bind_none]
  | n :: m :: place, d, hd, _, path, hpath => by
    obtain ⟨more, rfl⟩ := hpath
    rw [Dir.eraseAt, List.cons_append]
    · split
      · rename_i inside hn
        rw [find?_put, if_pos rfl, Entry.find?_folder]
        exact (hd.get? hn inside rfl).find?_eraseAt (List.cons_ne_nil m place) (List.prefix_append _ more)
      · rename_i hno
        rw [find?_cons]
        rcases hn : d.get? n with _ | (b | t | inside)
        · rfl
        · rfl
        · rfl
        · exact absurd hn (hno inside)
    · exact List.cons_ne_nil m place

end Dir

end ActionSweep
