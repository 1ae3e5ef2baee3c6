/-
Texts as lists of characters: what stands between separators, what follows a beginning or precedes an
ending, and the run of characters up to the first one of a class.
-/
import ActionSweep.Text.Basic
import Mathlib.Data.List.Basic
import Mathlib.Data.List.Infix
import Mathlib.Data.List.TakeWhile

namespace ActionSweep.Text

/-! ## Cutting at a separator -/

theorem split_cons_sep (sep : Char) (t : Text) : split sep (sep :: t) = [] :: split sep t := by
  simp [split]

theorem split_ne_nil (sep : Char) : ∀ t : Text, split sep t ≠ []
  | [] => by simp [split]
  | c :: t => by
    unfold split
    split
    · simp
    · split
      · simp
      · simp

theorem split_of_not_mem {sep : Char} : ∀ {t : Text}, sep ∉ t → split sep t = [t]
  | [], _ => rfl
  | c :: t, h => by
    rw [List.mem_cons, not_or] at h
    unfold split
    rw [if_neg (Ne.symm h.1), split_of_not_mem h.2]

theorem not_mem_of_mem_split {sep : Char} : ∀ {t p : Text}, p ∈ split sep t → sep ∉ p
  | [], p, h => by
    simp only [split, List.mem_singleton] at h
    subst h; simp
  | c :: t, p, h => by
    unfold split at h
    split at h
    · rcases List.mem_cons.1 h with rfl | h
      · simp
      · exact not_mem_of_mem_split h
    · rename_i hc
      split at h
      · rename_i hnil
        exact absurd hnil (split_ne_nil sep t)
      · rename_i piece pieces hs
        have ih : ∀ q ∈ piece :: pieces, sep ∉ q := fun q hq => not_mem_of_mem_split (hs ▸ hq)
        rcases List.mem_cons.1 h with rfl | h
        · rw [List.mem_cons, not_or]
          exact ⟨Ne.symm hc, ih piece (List.mem_cons_self ..)⟩
        · exact ih p (List.mem_cons_of_mem _ h)

/-- A separator between two texts separates their pieces. -/
theorem split_append (sep : Char) (b : Text) :
    ∀ a : Text, split sep (a ++ sep :: b) = split sep a ++ split sep b
  | [] => by simp [split]
  | c :: a => by
    have ih := split_append sep b a
    rw [List.cons_append]
    by_cases hc : c = sep
    · subst hc
      rw [split_cons_sep, split_cons_sep, ih, List.cons_append]
    · obtain ⟨piece, pieces, hs⟩ := List.exists_cons_of_ne_nil (split_ne_nil sep a)
      simp only [split, if_neg hc, ih, hs, List.cons_append]

theorem join_cons {sep t : Text} {ts : List Text} (h : ts ≠ []) :
    join sep (t :: ts) = t ++ sep ++ join sep ts := by
  cases ts with
  | nil => exact absurd rfl h
  | cons u us => rfl

theorem join_append {sep : Text} {us : List Text} (hus : us ≠ []) :
    ∀ {ts : List Text}, ts ≠ [] → join sep (ts ++ us) = join sep ts ++ sep ++ join sep us
  | [t], _ => join_cons hus
  | t :: u :: ts, _ => by
    rw [List.cons_append, join_cons (by simp), join_append hus (List.cons_ne_nil u ts),
      join_cons (List.cons_ne_nil u ts)]
    simp only [List.append_assoc]

/-- A joined text ends in its last piece. -/
theorem join_concat (sep : Text) (ts : List Text) (t : Text) : ∃ u, join sep (ts ++ [t]) = u ++ t := by
  by_cases hts : ts = []
  · subst hts
    exact ⟨[], rfl⟩
  · exact ⟨join sep ts ++ sep, join_append (List.cons_ne_nil t []) hts⟩

theorem mem_join {sep t : Text} {c : Char} (hc : c ∈ t) : ∀ {ts : List Text}, t ∈ ts → c ∈ join sep ts
  | [u], h => by
    rw [List.mem_singleton] at h
    exact h ▸ hc
  | u :: v :: ts, h => by
    rw [join_cons (List.cons_ne_nil v ts), List.mem_append, List.mem_append]
    rcases List.mem_cons.1 h with rfl | h
    · exact .inl (.inl hc)
    · exact .inr (mem_join hc h)

/-- A character of a joined text is one of the separator or of a piece. -/
theorem of_mem_join {sep : Text} {c : Char} : ∀ {ts : List Text}, c ∈ join sep ts → c ∈ sep ∨ ∃ t ∈ ts, c ∈ t
  | [t], h => .inr ⟨t, List.mem_singleton_self t, h⟩
  | t :: u :: ts, h => by
    rw [join_cons (List.cons_ne_nil u ts), List.mem_append, List.mem_append] at h
    rcases h with (h | h) | h
    · exact .inr ⟨t, List.mem_cons_self .., h⟩
    · exact .inl h
    · rcases of_mem_join h with h | ⟨v, hv, h⟩
      · exact .inl h
      · exact .inr ⟨v, List.mem_cons_of_mem t hv, h⟩

/-- Texts without the separator are what the text of them all is cut into. -/
theorem split_join {sep : Char} : ∀ {ts : List Text}, ts ≠ [] → (∀ t ∈ ts, sep ∉ t) → split sep (join [sep] ts) = ts
  | [t], _, h => split_of_not_mem (h t (List.mem_singleton_self t))
  | t :: u :: ts, _, h => by
    rw [join_cons (List.cons_ne_nil u ts), List.append_assoc, List.singleton_append, split_append,
      split_of_not_mem (h t (List.mem_cons_self ..)),
      split_join (List.cons_ne_nil u ts) fun v hv => h v (List.mem_cons_of_mem t hv), List.singleton_append]

/-- A text is what its pieces are with the separator between them. -/
theorem join_split (sep : Char) : ∀ t : Text, join [sep] (split sep t) = t
  | [] => rfl
  | c :: cs => by
    have ih := join_split sep cs
    obtain ⟨piece, pieces, hs⟩ := List.exists_cons_of_ne_nil (split_ne_nil sep cs)
    unfold split
    split
    · rename_i hc
      rw [join_cons (split_ne_nil sep cs), ih, hc]
      rfl
    · rw [hs] at ih ⊢
      cases pieces with
      | nil => exact congrArg (c :: ·) ih
      | cons q pieces =>
        rw [join_cons (List.cons_ne_nil q pieces)] at ih ⊢
        exact congrArg (c :: ·) ih

/-! ## Beginnings and endings -/

theorem dropBeginning?_eq_some {u t rest : Text} : dropBeginning? u t = some rest ↔ t = u ++ rest := by
  unfold dropBeginning?
  rw [List.isPrefixOf?_eq_some_iff_append_eq, eq_comm]

theorem dropBeginning?_append (u t : Text) : dropBeginning? u (u ++ t) = some t := by
  unfold dropBeginning?
  rw [List.isPrefixOf?_eq_some_iff_append_eq]

theorem dropBeginning?_eq_none {u v t : Text} (h : ¬ u <+: v) (h' : ¬ v <+: u) : dropBeginning? u (v ++ t) = none := by
  unfold dropBeginning?
  rw [Option.eq_none_iff_forall_ne_some]
  intro x hx
  rw [List.isPrefixOf?_eq_some_iff_append_eq] at hx
  rcases List.prefix_or_prefix_of_prefix (hx ▸ List.prefix_append u x) (List.prefix_append v t) with hp | hp
  · exact h hp
  · exact h' hp

theorem dropEnding?_eq_some {e t u : Text} : dropEnding? e t = some u ↔ t = u ++ e := by
  unfold dropEnding?
  rw [List.isSuffixOf?_eq_some_iff_append_eq, eq_comm]

/-! ## Runs of characters -/

/-- A run that stops is cut off as a whole. -/
theorem takeWhile_run {p : Char → Bool} {run rest : Text} (hrun : ∀ c ∈ run, p c = true)
    (hstop : ∀ c ∈ rest.head?, p c = false) : (run ++ rest).takeWhile p = run := by
  rw [List.takeWhile_append_of_pos hrun]
  cases rest with
  | nil => rw [List.takeWhile_nil, List.append_nil]
  | cons c rest => rw [List.takeWhile_cons_of_neg (by rw [hstop c rfl]; decide), List.append_nil]

theorem dropWhile_run {p : Char → Bool} {run rest : Text} (hrun : ∀ c ∈ run, p c = true)
    (hstop : ∀ c ∈ rest.head?, p c = false) : (run ++ rest).dropWhile p = rest := by
  rw [List.dropWhile_append_of_pos hrun]
  cases rest with
  | nil => rfl
  | cons c rest => rw [List.dropWhile_cons_of_neg (by rw [hstop c rfl]; decide)]

/-- The characters of a text are looked at one by one. -/
theorem none_of_any {p : Char → Bool} {t : Text} (h : t.any p = false) : ∀ c ∈ t, p c = false := by
  simpa using h

/-- A text is cut at its first character outside a class. -/
theorem exists_run (p : Char → Bool) (t : Text) : ∃ run rest, t = run ++ rest ∧ t.takeWhile p = run ∧
    t.dropWhile p = rest ∧ (∀ c ∈ run, p c = true) ∧ ∀ c ∈ rest.head?, p c = false := by
  refine ⟨t.takeWhile p, t.dropWhile p, List.takeWhile_append_dropWhile.symm, rfl, rfl,
    fun c hc => List.mem_takeWhile_imp hc, fun c hc => ?_⟩
  have := List.head?_dropWhile_not p t
  rw [Option.mem_def] at hc
  rw [hc] at this
  simpa using this

/-- The first character of a class divides a text in one way only. -/
theorem divide_unique {p : Char → Bool} {a b u v : Text} {x y : Char} (ha : ∀ c ∈ a, p c = false)
    (hx : p x = true) (hb : ∀ c ∈ b, p c = false) (hy : p y = true) (h : a ++ x :: u = b ++ y :: v) :
    a = b ∧ x = y ∧ u = v := by
  have run : ∀ {a u : Text} {x : Char}, (∀ c ∈ a, p c = false) → p x = true →
      (a ++ x :: u).takeWhile (!p ·) = a := fun {a u x} ha hx =>
    takeWhile_run (fun c hc => by rw [ha c hc]; rfl) (by rintro c ⟨⟩; rw [hx]; rfl)
  obtain rfl : a = b := by rw [← run ha hx, h, run hb hy]
  obtain ⟨rfl, rfl⟩ := List.cons.inj (List.append_cancel_left h)
  exact ⟨rfl, rfl, rfl⟩

end ActionSweep.Text
