/-
Searches through a text. What a finder finds at a place is among all that is found, if no earlier find
reaches over that place. If nothing worth keeping is ever reached over, what is kept is what the finder finds at
all places. If no find reaches over a border, the text is searched on both sides of it.
-/
import ActionSweep.Text.Search
import Mathlib.Data.List.Basic
import Mathlib.Data.List.Infix

namespace ActionSweep.Text

variable {α : Type}

variable {find : Finder α}

/-- The search gets to a place if it has nothing left to skip there and nothing found on the way reaches
over it. -/
theorem mem_findFrom {t : Text} {a : α} {n : Nat} (hfind : find t = some (a, n)) (hne : t ≠ []) :
    ∀ {before : Text} {skip : Nat}, skip ≤ before.length →
      (∀ v, v <:+ before → v ≠ [] → ∀ b m, find (v ++ t) = some (b, m) → m ≤ v.length) →
      a ∈ findFrom find skip (before ++ t)
  | [], skip, hskip, _ => by
    obtain ⟨c, cs, rfl⟩ := List.exists_cons_of_ne_nil hne
    obtain rfl := Nat.le_zero.1 hskip
    rw [List.nil_append, findFrom, hfind]
    exact List.mem_cons_self ..
  | c :: before, skip, hskip, hclear => by
    have hclear' : ∀ v, v <:+ before → v ≠ [] → ∀ b m, find (v ++ t) = some (b, m) → m ≤ v.length :=
      fun v hv => hclear v (hv.trans (List.suffix_cons c before))
    rw [List.cons_append, findFrom.eq_def]
    rw [List.length_cons] at hskip
    cases skip with
    | succ k => exact mem_findFrom hfind hne (Nat.le_of_succ_le_succ hskip) hclear'
    | zero =>
      dsimp only
      split
      -- what is found here ends before the place, so what remains to be skipped does too
      · rename_i b m hb
        have hm := hclear (c :: before) (List.suffix_refl _) (List.cons_ne_nil _ _) b m hb
        rw [List.length_cons] at hm
        exact List.mem_cons_of_mem _ (mem_findFrom hfind hne (by omega) hclear')
      · exact mem_findFrom hfind hne (Nat.zero_le _) hclear'

/-- What is to be skipped is skipped. -/
theorem findFrom_append (t : Text) : ∀ skipped : Text, findFrom find skipped.length (skipped ++ t) = findFrom find 0 t
  | [] => rfl
  | c :: skipped => by
    rw [List.length_cons, List.cons_append, findFrom]
    exact findFrom_append t skipped

theorem findFrom_none : ∀ {t : Text} {skip : Nat}, (∀ u, u <:+ t → find u = none) → findFrom find skip t = []
  | [], _, _ => by rw [findFrom]
  | c :: cs, skip, h => by
    have hcs : ∀ u, u <:+ cs → find u = none := fun u hu => h u (hu.trans (List.suffix_cons c cs))
    cases skip with
    | zero =>
      rw [findFrom, h (c :: cs) (List.suffix_refl _)]
      exact findFrom_none hcs
    | succ skip =>
      rw [findFrom]
      exact findFrom_none hcs

/-- Behind what is found at the beginning the search starts anew. -/
theorem findAll_found {found rest : Text} {a : α} (hne : found ≠ [])
    (h : find (found ++ rest) = some (a, found.length)) : findAll find (found ++ rest) = a :: findAll find rest := by
  obtain ⟨c, cs, rfl⟩ := List.exists_cons_of_ne_nil hne
  rw [List.cons_append, List.length_cons] at h
  rw [List.cons_append, findAll, findFrom, h]
  exact congrArg (a :: ·) (findFrom_append rest cs)

theorem findAll_whole {t : Text} {a : α} (hne : t ≠ []) (h : find t = some (a, t.length)) : t.findAll find = [a] := by
  have hfound : (t ++ []).findAll find = a :: findAll find [] := findAll_found hne (by rwa [List.append_nil])
  rwa [List.append_nil] at hfound

theorem findAll_cons {c : Char} {t : Text} (h : find (c :: t) = none) : findAll find (c :: t) = findAll find t := by
  rw [findAll, findFrom, h]
  rfl

/-- What is found first is the first of all that is found. -/
theorem head?_findAll : ∀ t : Text, (findAll find t).head? = findFirst? find t
  | [] => rfl
  | c :: cs => by
    rw [findAll, findFrom, findFirst?]
    cases find (c :: cs) with
    | none => exact head?_findAll cs
    | some found => rfl

/-- What is found first is found at some place. -/
theorem exists_of_findFirst? {a : α} : ∀ {t : Text}, findFirst? find t = some a → ∃ u n, find u = some (a, n)
  | [], h => by cases h
  | c :: cs, h => by
    rw [findFirst?] at h
    split at h
    · cases h
      exact ⟨_, _, ‹_›⟩
    · exact exists_of_findFirst? h

theorem mem_findAll {before t : Text} {a : α} {n : Nat} (hfind : find t = some (a, n)) (hne : t ≠ [])
    (hclear : ∀ v, v <:+ before → v ≠ [] → ∀ b m, find (v ++ t) = some (b, m) → m ≤ v.length) :
    a ∈ findAll find (before ++ t) :=
  mem_findFrom hfind hne (Nat.zero_le _) hclear

/-! ## Searches that lose nothing -/

/-- What a finder finds at the beginning of a text, if it is to be kept. -/
def keptAt (find : Finder α) (keep : α → Bool) (t : Text) : Option α := ((find t).map Prod.fst).filter keep

theorem keptAt_eq_some {keep : α → Bool} {t : Text} {a : α} :
    keptAt find keep t = some a ↔ (∃ n, find t = some (a, n)) ∧ keep a = true := by
  unfold keptAt
  rw [Option.filter_eq_some_iff, Option.map_eq_some_iff]
  simp

section Kept

variable {keep : α → Bool} (hnil : find [] = none)
  (hclear : ∀ {v u a b n m}, v ≠ [] → find (v ++ u) = some (b, m) → find u = some (a, n) → keep a = true → m ≤ v.length)

include hnil hclear

/-- Among the characters that are skipped no find to be kept begins. -/
theorem filter_findFrom : ∀ {t : Text} {skip : Nat}, (∀ v u, t = v ++ u → v.length < skip → keptAt find keep u = none) →
    (findFrom find skip t).filter keep = t.tails.filterMap (keptAt find keep)
  | [], skip, _ => by
    rw [findFrom]
    simp [keptAt, hnil]
  | c :: cs, skip, hskip => by
    rw [List.tails_cons, List.filterMap_cons]
    cases skip with
    | succ skip =>
      rw [hskip [] (c :: cs) rfl (Nat.succ_pos skip), findFrom]
      exact filter_findFrom fun v u htext hv => hskip (c :: v) u (by rw [htext]; rfl) (Nat.succ_lt_succ hv)
    | zero =>
      rw [findFrom]
      cases hfind : find (c :: cs) with
      | none =>
        have hnone : keptAt find keep (c :: cs) = none := by rw [keptAt, hfind]; rfl
        rw [hnone]
        exact filter_findFrom fun _ _ _ hv => absurd hv (Nat.not_lt_zero _)
      | some found =>
        obtain ⟨b, m⟩ := found
        have hkept : keptAt find keep (c :: cs) = Option.filter keep (some b) := by rw [keptAt, hfind]; rfl
        have hrest : (findFrom find (m - 1) cs).filter keep = cs.tails.filterMap (keptAt find keep) := by
          refine filter_findFrom fun v u htext hv => ?_
          rw [Option.eq_none_iff_forall_ne_some]
          intro a ha
          obtain ⟨⟨n, hn⟩, hkeep⟩ := keptAt_eq_some.1 ha
          have hearlier : find (c :: v ++ u) = some (b, m) := by rw [List.cons_append, ← htext, hfind]
          have hshort := hclear (List.cons_ne_nil c v) hearlier hn hkeep
          rw [List.length_cons] at hshort
          omega
        rw [hkept, List.filter_cons, hrest, Option.filter_some]
        split <;> rfl

/-- If nothing to be kept is reached over by an earlier find, the search keeps it at every place. -/
theorem filter_findAll (t : Text) : (findAll find t).filter keep = t.tails.filterMap (keptAt find keep) :=
  filter_findFrom hnil hclear fun _ _ _ hv => absurd hv (Nat.not_lt_zero _)

end Kept

/-! ## Texts in two parts -/

/-- Places before a border at which the same is found with and without what stands behind it. -/
theorem filterMap_tails_append {β : Type} {f : Text → Option β} (hnil : f [] = none) {t : Text} : ∀ {before : Text},
    (∀ v, v <:+ before → v ≠ [] → f (v ++ t) = f v) →
    (before ++ t).tails.filterMap f = before.tails.filterMap f ++ t.tails.filterMap f
  | [], _ => by
    rw [List.nil_append, List.tails, List.filterMap_cons, hnil]
    rfl
  | c :: before, h => by
    have hbehind : ∀ v, v <:+ before → v ≠ [] → f (v ++ t) = f v := fun v hv =>
      h v (hv.trans (List.suffix_cons c before))
    have hhere := h (c :: before) (List.suffix_refl _) (List.cons_ne_nil c before)
    rw [List.cons_append] at hhere ⊢
    rw [List.tails_cons, List.tails_cons, List.filterMap_cons, List.filterMap_cons, hhere,
      filterMap_tails_append hnil hbehind]
    split <;> rfl

/-- If no find in the first part depends on the second, each part is searched for itself. -/
theorem findFrom_concat {t : Text} (hfits : ∀ {v a n}, find v = some (a, n) → n ≤ v.length) :
    ∀ {before : Text} {skip : Nat}, skip ≤ before.length → (∀ v, v <:+ before → v ≠ [] → find (v ++ t) = find v) →
      findFrom find skip (before ++ t) = findFrom find skip before ++ findFrom find 0 t
  | [], skip, hskip, _ => by
    obtain rfl := Nat.le_zero.1 hskip
    rfl
  | c :: before, skip, hskip, h => by
    have hbehind : ∀ v, v <:+ before → v ≠ [] → find (v ++ t) = find v := fun v hv =>
      h v (hv.trans (List.suffix_cons c before))
    have hhere := h (c :: before) (List.suffix_refl _) (List.cons_ne_nil c before)
    rw [List.length_cons] at hskip
    cases skip with
    | succ skip =>
      rw [List.cons_append, findFrom, findFrom]
      exact findFrom_concat hfits (Nat.le_of_succ_le_succ hskip) hbehind
    | zero =>
      rw [List.cons_append] at hhere ⊢
      rw [findFrom, findFrom, hhere]
      cases hfind : find (c :: before) with
      | none => exact findFrom_concat hfits (Nat.zero_le _) hbehind
      | some found =>
        have hlength := hfits hfind
        rw [List.length_cons] at hlength
        exact congrArg (found.1 :: ·) (findFrom_concat hfits (by omega) hbehind)

theorem findAll_concat {before t : Text} (hfits : ∀ {v a n}, find v = some (a, n) → n ≤ v.length)
    (h : ∀ v, v <:+ before → v ≠ [] → find (v ++ t) = find v) :
    findAll find (before ++ t) = findAll find before ++ findAll find t :=
  findFrom_concat hfits (Nat.zero_le _) h

end ActionSweep.Text
