/-
Lists without repetitions and sorted lists of texts: both commute with leaving items out, so what is
left of a walk or of a folder keeps its order.
-/
import ActionSweep.Text.Basic
import Mathlib.Data.List.Perm.Basic
import Mathlib.Data.List.Nodup
import Mathlib.Data.List.Forall2

namespace ActionSweep

theorem exists_cons_cons {α : Type} : ∀ {l : List α}, 2 ≤ l.length → ∃ a b rest, l = a :: b :: rest
  | a :: b :: rest, _ => ⟨a, b, rest, rfl⟩

/-! ## Repetitions -/

section Repetitions

variable {α : Type} [BEq α] [LawfulBEq α]

theorem filter_eraseDups (p : α → Bool) :
    ∀ l : List α, l.eraseDups.filter p = (l.filter p).eraseDups
  | [] => by simp
  | a :: l => by
    have ih := filter_eraseDups p (l.filter fun b => !b == a)
    rw [List.eraseDups_cons, List.filter_cons, List.filter_cons]
    split
    · rw [List.eraseDups_cons, ih, List.filter_filter, List.filter_filter]
      simp only [Bool.and_comm]
    · rename_i hp
      rw [ih, List.filter_filter]
      congr 1
      refine List.filter_congr fun b _ => ?_
      by_cases hb : b = a
      · subst hb; simp [hp]
      · simp [hb]
termination_by l => l.length
decreasing_by exact Nat.lt_succ_of_le (List.length_filter_le ..)

theorem nodup_eraseDups : ∀ l : List α, l.eraseDups.Nodup
  | [] => by simp
  | a :: l => by
    rw [List.eraseDups_cons, List.nodup_cons]
    exact ⟨by simp [List.mem_eraseDups], nodup_eraseDups (l.filter fun b => !b == a)⟩
termination_by l => l.length
decreasing_by exact Nat.lt_succ_of_le (List.length_filter_le ..)

/-- A further item stands at the end, unless it is there already. -/
theorem eraseDups_concat [DecidableEq α] (l : List α) (a : α) :
    (l ++ [a]).eraseDups = if a ∈ l then l.eraseDups else l.eraseDups ++ [a] := by
  rw [List.eraseDups_append]
  by_cases h : a ∈ l
  · simp [h, List.removeAll]
  · simp [h, List.removeAll, List.eraseDups_cons]

end Repetitions

/-! ## Items that give nothing -/

theorem flatMap_filter {α β : Type} {keep : α → Bool} {f g : α → List β} : ∀ {l : List α},
    (∀ a ∈ l, keep a = true → f a = g a) → (∀ a ∈ l, keep a = false → g a = []) → (l.filter keep).flatMap f = l.flatMap g
  | [], _, _ => rfl
  | a :: l, hkept, hleft => by
    have ih := flatMap_filter (fun b hb => hkept b (List.mem_cons_of_mem a hb)) fun b hb => hleft b (List.mem_cons_of_mem a hb)
    rw [List.filter_cons, List.flatMap_cons]
    cases hkeep : keep a with
    | true => rw [if_pos rfl, List.flatMap_cons, ih, hkept a (List.mem_cons_self ..) hkeep]
    | false => rw [if_neg Bool.false_ne_true, ih, hleft a (List.mem_cons_self ..) hkeep, List.nil_append]

/-- The one item that is left out of a list gives one thing more, somewhere among those of the others. -/
theorem filterMap_once {α β : Type} {keep : α → Bool} {f g : α → Option β} {a : α} {b : β} {l : List α} (hl : l.Nodup)
    (ha : a ∈ l) (hg : g a = some b) (hleft : ∀ x ∈ l, keep x = false ↔ x = a) (hkept : ∀ x ∈ l, x ≠ a → f x = g x) :
    ∃ before after, (l.filter keep).filterMap f = before ++ after ∧ l.filterMap g = before ++ b :: after := by
  obtain ⟨front, back, rfl⟩ := List.append_of_mem ha
  have hfront : ∀ x ∈ front, keep x = true ∧ f x = g x := by
    intro x hx
    have hmem : x ∈ front ++ a :: back := List.mem_append_left _ hx
    have hne : x ≠ a := (List.nodup_append.1 hl).2.2 x hx a (List.mem_cons_self ..)
    exact ⟨by simpa using mt (hleft x hmem).1 hne, hkept x hmem hne⟩
  have hback : ∀ x ∈ back, keep x = true ∧ f x = g x := by
    intro x hx
    have hmem : x ∈ front ++ a :: back := List.mem_append_right _ (List.mem_cons_of_mem a hx)
    have hne : x ≠ a := fun he => (List.nodup_cons.1 (List.nodup_append.1 hl).2.1).1 (he ▸ hx)
    exact ⟨by simpa using mt (hleft x hmem).1 hne, hkept x hmem hne⟩
  refine ⟨front.filterMap g, back.filterMap g, ?_, ?_⟩
  · rw [List.filter_append, List.filter_cons_of_neg (by simp [(hleft a ha).2 rfl]),
      List.filter_eq_self.2 fun x hx => (hfront x hx).1, List.filter_eq_self.2 fun x hx => (hback x hx).1,
      List.filterMap_append, List.filterMap_congr fun x hx => (hfront x hx).2,
      List.filterMap_congr fun x hx => (hback x hx).2]
  · rw [List.filterMap_append, List.filterMap_cons, hg]

/-! ## Lists in step -/

theorem forall₂_mem_right {α β : Type} {R : α → β → Prop} {l : List α} {m : List β} (h : List.Forall₂ R l m) {b : β}
    (hb : b ∈ m) : ∃ a ∈ l, R a b := by
  induction h with
  | nil => cases hb
  | cons hab _ ih =>
    rcases List.mem_cons.1 hb with rfl | hb
    · exact ⟨_, List.mem_cons_self .., hab⟩
    · obtain ⟨a, ha, hr⟩ := ih hb
      exact ⟨a, List.mem_cons_of_mem _ ha, hr⟩

theorem forall₂_mem_left {α β : Type} {R : α → β → Prop} {l : List α} {m : List β} (h : List.Forall₂ R l m) {a : α}
    (ha : a ∈ l) : ∃ b ∈ m, R a b := by
  induction h with
  | nil => cases ha
  | cons hab _ ih =>
    rcases List.mem_cons.1 ha with rfl | ha
    · exact ⟨_, List.mem_cons_self .., hab⟩
    · obtain ⟨b, hb, hr⟩ := ih ha
      exact ⟨b, List.mem_cons_of_mem _ hb, hr⟩

theorem nodup_of_forall₂ {α β : Type} {R : α → β → Prop} : ∀ {l : List α} {m : List β}, List.Forall₂ R l m →
    l.Nodup → (∀ a ∈ l, ∀ b ∈ l, ∀ c, R a c → R b c → a = b) → m.Nodup
  | [], _, .nil, _, _ => List.nodup_nil
  | a :: l, _, .cons (b := c) hac h, hl, hinj => by
    obtain ⟨ha, hl⟩ := List.nodup_cons.1 hl
    refine List.nodup_cons.2 ⟨fun hc => ha ?_, nodup_of_forall₂ h hl fun x hx y hy =>
      hinj x (List.mem_cons_of_mem a hx) y (List.mem_cons_of_mem a hy)⟩
    obtain ⟨b, hb, hbc⟩ := forall₂_mem_right h hc
    rw [hinj a (List.mem_cons_self ..) b (List.mem_cons_of_mem a hb) c hac hbc]
    exact hb

/-! ## Sorted texts -/

namespace Text

theorem le_iff {a b : Text} : le a b = true ↔ ¬ b < a := by
  unfold le; simp

theorem le_trans {a b c : Text} (h1 : le a b = true) (h2 : le b c = true) : le a c = true :=
  le_iff.2 (List.not_lt.2 (List.le_trans (List.not_lt.1 (le_iff.1 h1)) (List.not_lt.1 (le_iff.1 h2))))

theorem le_total (a b : Text) : (le a b || le b a) = true := by
  rw [Bool.or_eq_true, le_iff, le_iff]
  rcases List.le_total a b with h | h
  · exact .inl (List.not_lt.2 h)
  · exact .inr (List.not_lt.2 h)

theorem le_antisymm {a b : Text} (h1 : le a b = true) (h2 : le b a = true) : a = b :=
  List.le_antisymm (List.not_lt.1 (le_iff.1 h1)) (List.not_lt.1 (le_iff.1 h2))

theorem insertSorted_perm (t : Text) : ∀ us : List Text, (insertSorted t us).Perm (t :: us)
  | [] => .refl _
  | u :: us => by
    unfold insertSorted
    split
    · exact .refl _
    · exact ((insertSorted_perm t us).cons u).trans (.swap ..)

theorem insertSorted_pairwise (t : Text) :
    ∀ {us : List Text}, us.Pairwise (fun a b => le a b = true) →
      (insertSorted t us).Pairwise fun a b => le a b = true
  | [], _ => List.pairwise_singleton ..
  | u :: us, h => by
    obtain ⟨hu, hus⟩ := List.pairwise_cons.1 h
    unfold insertSorted
    split
    · rename_i htu
      refine List.pairwise_cons.2 ⟨fun a ha => ?_, h⟩
      rcases List.mem_cons.1 ha with rfl | ha
      · exact htu
      · exact le_trans htu (hu a ha)
    · rename_i htu
      refine List.pairwise_cons.2 ⟨fun a ha => ?_, insertSorted_pairwise t hus⟩
      rcases List.mem_cons.1 ((insertSorted_perm t us).mem_iff.1 ha) with rfl | ha
      · have := le_total a u
        rwa [Bool.or_eq_true, or_iff_right htu] at this
      · exact hu a ha

theorem sort_perm : ∀ ts : List Text, (sort ts).Perm ts
  | [] => .refl _
  | t :: ts => (insertSorted_perm t (sort ts)).trans ((sort_perm ts).cons t)

@[simp] theorem mem_sort {t : Text} {ts : List Text} : t ∈ sort ts ↔ t ∈ ts := (sort_perm ts).mem_iff

theorem sort_pairwise : ∀ ts : List Text, (sort ts).Pairwise fun a b => le a b = true
  | [] => List.Pairwise.nil
  | t :: ts => insertSorted_pairwise t (sort_pairwise ts)

/-- In whatever order texts come, they are sorted alike. -/
theorem sort_congr {ts us : List Text} (h : ts.Perm us) : sort ts = sort us :=
  List.Perm.eq_of_pairwise (fun _ _ _ _ => le_antisymm) (sort_pairwise ts) (sort_pairwise us)
    ((sort_perm ts).trans (h.trans (sort_perm us).symm))

/-- Different texts are sorted strictly. -/
theorem sort_increasing {ts : List Text} (h : ts.Nodup) : (sort ts).Pairwise (· < ·) := by
  refine (sort_pairwise ts).imp₂ (fun a b hle hne => ?_) ((sort_perm ts).nodup_iff.2 h)
  by_contra hlt
  exact hne (le_antisymm hle (le_iff.2 hlt))

theorem nodup_of_increasing {ts : List Text} (h : ts.Pairwise (· < ·)) : ts.Nodup := by
  refine h.imp fun {a b} hlt he => ?_
  subst he
  exact List.lt_irrefl a hlt

/-- What stands in strict order is known by its members. -/
theorem eq_of_increasing {ts us : List Text} (ht : ts.Pairwise (· < ·)) (hu : us.Pairwise (· < ·))
    (h : ∀ t, t ∈ ts ↔ t ∈ us) : ts = us :=
  List.Perm.eq_of_pairwise (fun _ _ _ _ hlt hgt => absurd hgt (List.lt_asymm hlt)) ht hu
    ((List.perm_ext_iff_of_nodup (nodup_of_increasing ht) (nodup_of_increasing hu)).2 h)

/-- Texts that are left out before sorting are left out of the sorted list. -/
theorem sort_filter (p : Text → Bool) (ts : List Text) : sort (ts.filter p) = (sort ts).filter p := by
  refine List.Perm.eq_of_pairwise (fun a b _ _ => le_antisymm) (sort_pairwise _)
    ((sort_pairwise ts).filter p) ?_
  exact (sort_perm _).trans ((sort_perm ts).filter p).symm

end Text

end ActionSweep
