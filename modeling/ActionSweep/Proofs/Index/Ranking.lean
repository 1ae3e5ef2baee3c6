/-
The algebra of results. Ranking puts the actions without references before the others, keeps the order within either sort,
and is the only arrangement that does both. So it commutes with leaving actions out, and the actions that are safe to
delete are the first ones of a result, as many as its summary counts, exactly if the result is ranked.
-/
import ActionSweep.Proofs.Scan.Declared
import Mathlib.Data.List.Lattice

namespace ActionSweep

variable {actions others : List Action}

/-! ## Ranking -/

/-- A list has actions without references before actions with any, and within either sort those of another list, in their
order there. -/
structure Ranks (actions others : List Action) : Prop where
  safeFirst : others.Pairwise fun a b => b.references = [] → a.references = []
  stable : ∀ c, others.filter (fun a => a.confidence = c) = actions.filter fun a => a.confidence = c

theorem Action.review_iff {a : Action} : a.confidence = .reviewNeeded ↔ a.references ≠ [] := by
  rw [ne_eq, ← Action.safe_iff]
  cases a.confidence <;> simp

/-- A list that has actions without references first is the one half before the other. -/
theorem rank_of_safeFirst : ∀ {actions : List Action}, actions.Pairwise (fun a b => b.references = [] → a.references = []) →
    rank actions = actions
  | [], _ => rfl
  | a :: l, h => by
    obtain ⟨hfirst, hrest⟩ := List.pairwise_cons.1 h
    have ih := rank_of_safeFirst hrest
    rw [rank_eq] at ih ⊢
    by_cases ha : a.references = []
    · have hsafe : a.confidence = .safeToDelete := Action.safe_iff.2 ha
      rw [List.filter_cons_of_pos (by simp [hsafe]), List.filter_cons_of_neg (by simp [hsafe]), List.cons_append, ih]
    · -- behind an action with references there are only such actions
      have hreview : ∀ b ∈ a :: l, b.confidence = .reviewNeeded := by
        intro b hb
        rcases List.mem_cons.1 hb with rfl | hb
        · exact Action.review_iff.2 ha
        · exact Action.review_iff.2 fun hnil => ha (hfirst b hb hnil)
      rw [List.filter_eq_nil_iff.2 fun b hb => by simp [hreview b hb], List.nil_append,
        List.filter_eq_self.2 fun b hb => by simp [hreview b hb]]

theorem safeFirst_append {safe rest : List Action} (hsafe : ∀ a ∈ safe, a.confidence = .safeToDelete)
    (hrest : ∀ a ∈ rest, a.confidence = .reviewNeeded) :
    (safe ++ rest).Pairwise fun a b => b.references = [] → a.references = [] := by
  refine List.pairwise_append.2 ⟨?_, ?_, fun a ha _ _ _ => Action.safe_iff.1 (hsafe a ha)⟩
  · exact List.pairwise_of_forall_mem_list fun a ha _ _ _ => Action.safe_iff.1 (hsafe a ha)
  · exact List.pairwise_of_forall_mem_list fun _ _ b hb hnil => absurd hnil (Action.review_iff.1 (hrest b hb))

theorem ranks_rank (actions : List Action) : Ranks actions (rank actions) where
  safeFirst := rank_eq actions ▸ safeFirst_append (fun _ ha => of_decide_eq_true (List.mem_filter.1 ha).2)
    fun _ ha => of_decide_eq_true (List.mem_filter.1 ha).2
  stable c := by
    rw [rank_eq, List.filter_append, List.filter_filter, List.filter_filter]
    cases c with
    | safeToDelete => simp +contextual
    | reviewNeeded => simp +contextual

/-- No other list is ranked than the one that ranking gives. -/
theorem ranks_iff : Ranks actions others ↔ others = rank actions := by
  constructor
  · intro h
    rw [← rank_of_safeFirst h.safeFirst, rank_eq, rank_eq, h.stable, h.stable]
  · rintro rfl
    exact ranks_rank actions

theorem rank_rank (actions : List Action) : rank (rank actions) = rank actions :=
  rank_of_safeFirst (ranks_rank actions).safeFirst

theorem rank_filter (p : Action → Bool) (actions : List Action) : rank (actions.filter p) = (rank actions).filter p := by
  simp only [rank_eq, List.filter_append, List.filter_filter, Bool.and_comm]

namespace ScanResult

variable {r : ScanResult}

/-! ## Counting -/

theorem likelyUnused_eq (r : ScanResult) : r.summary.likelyUnused = r.actions.countP fun a => a.references = [] := by
  rw [List.countP_eq_length_filter]
  exact congrArg List.length (List.filter_congr fun a _ => decide_eq_decide.2 Action.safe_iff)

theorem used_eq (r : ScanResult) : r.summary.used = r.actions.countP fun a => a.references ≠ [] := by
  have hboth := List.length_eq_countP_add_countP (fun a : Action => decide (a.references = [])) (l := r.actions)
  have hused : r.summary.used = r.actions.length - r.summary.likelyUnused := rfl
  have hothers : r.actions.countP (fun a => a.references ≠ []) =
      r.actions.countP fun a => ¬decide (a.references = []) = true :=
    List.countP_congr fun a _ => by simp
  rw [hused, likelyUnused_eq, hothers]
  omega

/-- The actions that are safe to delete are the first ones exactly if ranking changes nothing. -/
theorem safe_prefix_iff (r : ScanResult) :
    r.withConfidence .safeToDelete = r.actions.take r.summary.likelyUnused ↔ rank r.actions = r.actions := by
  rw [show r.summary.likelyUnused = (r.withConfidence .safeToDelete).length from rfl]
  constructor
  · intro hsafe
    obtain ⟨rest, hrest⟩ : ∃ rest, r.actions = r.withConfidence .safeToDelete ++ rest := by
      rw [hsafe]
      exact ⟨_, (List.take_append_drop ..).symm⟩
    -- all actions that are safe to delete stand in the prefix, so none of them is left
    have hnone : rest.filter (fun a => a.confidence = .safeToDelete) = [] := by
      have hall : r.withConfidence .safeToDelete =
          r.withConfidence .safeToDelete ++ rest.filter fun a => a.confidence = .safeToDelete :=
        calc r.withConfidence .safeToDelete
            = (r.withConfidence .safeToDelete ++ rest).filter fun a => a.confidence = .safeToDelete := by rw [← hrest]; rfl
          _ = _ := by rw [List.filter_append, withConfidence, List.filter_filter]; simp
      exact List.self_eq_append_right.1 hall
    rw [hrest]
    refine rank_of_safeFirst (safeFirst_append (fun a ha => of_decide_eq_true (List.mem_filter.1 ha).2) fun a ha => ?_)
    have hunsafe : a.confidence ≠ .safeToDelete := by simpa using List.filter_eq_nil_iff.1 hnone a ha
    exact Action.review_iff.2 fun hnil => hunsafe (Action.safe_iff.2 hnil)
  · intro hranked
    have hsplit : r.withConfidence .safeToDelete ++ r.withConfidence .reviewNeeded = r.actions :=
      (rank_eq r.actions).symm.trans hranked
    calc r.withConfidence .safeToDelete
        = (r.withConfidence .safeToDelete ++ r.withConfidence .reviewNeeded).take (r.withConfidence .safeToDelete).length :=
          List.take_left.symm
      _ = r.actions.take (r.withConfidence .safeToDelete).length := by rw [hsplit]

/-! ## Leaving out -/

/-- With its actions ranked. -/
def ranked (r : ScanResult) : ScanResult := { r with actions := rank r.actions }

theorem without_without (r : ScanResult) (keys others : List Text) :
    (r.without keys).without others = r.without (keys ∪ others) := by
  unfold without
  simp only [List.filter_filter]
  congr 1
  refine List.filter_congr fun a _ => ?_
  simp [Bool.and_comm]

theorem without_congr {keys others : List Text} (h : ∀ key, key ∈ keys ↔ key ∈ others) :
    r.without keys = r.without others := by
  unfold without
  congr 1
  exact List.filter_congr fun a _ => by simp [h]

theorem ranked_without (r : ScanResult) (keys : List Text) : (r.without keys).ranked = r.ranked.without keys := by
  unfold without ranked
  rw [rank_filter]

theorem mem_without {keys : List Text} {a : Action} : a ∈ (r.without keys).actions ↔ a ∈ r.actions ∧ a.key ∉ keys := by
  simp [without]

/-- Ranking is the one arrangement that puts actions without references first and keeps the order within either sort, and
doing it again changes nothing. Leaving out keys and then others is leaving out all of them, in either order, and commutes
with ranking. The two counts of a result are those of its actions with references and without, and those without are its
first ones exactly if it is ranked. What is left out are the actions of the keys, and all else stays as it is. -/
theorem ranking_and_leaving_out (actions : List Action) (r : ScanResult) (keys others : List Text) :
    ((rank actions).Perm actions ∧ (∀ l, Ranks actions l ↔ l = rank actions) ∧ rank (rank actions) = rank actions) ∧
    ((r.without keys).without others = r.without (keys ∪ others) ∧
      (r.without others).without keys = r.without (keys ∪ others)) ∧
    (r.without keys).ranked = r.ranked.without keys ∧
    (r.summary.used + r.summary.likelyUnused = r.summary.total ∧ r.summary.total = r.actions.length ∧
      r.summary.used = r.actions.countP (fun a => a.references ≠ []) ∧
      r.summary.likelyUnused = r.actions.countP fun a => a.references = []) ∧
    (r.withConfidence .safeToDelete = r.actions.take r.summary.likelyUnused ↔ rank r.actions = r.actions) ∧
    ((r.without keys).actions.Sublist r.actions ∧
      (∀ a, a ∈ (r.without keys).actions ↔ a ∈ r.actions ∧ a.key ∉ keys) ∧
      (r.without keys).emptyFolders = r.emptyFolders ∧ (r.without keys).warnings = r.warnings ∧
      (r.without keys).unresolved = r.unresolved) := by
  have hcounts : r.summary.used + r.summary.likelyUnused = r.summary.total :=
    Nat.sub_add_cancel (List.length_filter_le ..)
  have hother : (r.without others).without keys = r.without (keys ∪ others) := by
    rw [without_without]
    exact without_congr fun key => by rw [List.mem_union_iff, List.mem_union_iff, or_comm]
  refine ⟨⟨rank_perm actions, fun l => ranks_iff, rank_rank actions⟩, ⟨without_without r keys others, hother⟩,
    ranked_without r keys, ⟨hcounts, rfl, used_eq r, likelyUnused_eq r⟩, safe_prefix_iff r, ?_⟩
  exact ⟨List.filter_sublist, fun a => mem_without, rfl, rfl, rfl⟩

end ScanResult

end ActionSweep
