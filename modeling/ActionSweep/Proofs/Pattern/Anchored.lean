/-
Patterns that match below one folder only. A line with a slash before its end is matched from the beginning
of a path, so what it matches begins with its first part and a slash, if that part is spelled without
wildcards and escapes. Such a line is served by a walk from the folder of its first part; a line that is
one part only is not, since it matches at any level.
-/
import ActionSweep.Candidate
import ActionSweep.Proofs.Outcome
import ActionSweep.Proofs.Pattern.Matching

namespace ActionSweep

/-! ## Blanks at the end of a line -/

namespace Pattern

theorem trimRight_slash (u rest : Text) :
    (u ++ '/' :: rest).trimRight isBlank = u ++ '/' :: rest.trimRight isBlank := by
  unfold Text.trimRight
  rw [List.reverse_append, List.reverse_cons, List.append_assoc, List.singleton_append, List.dropWhile_append]
  split
  · rename_i hnil
    rw [List.isEmpty_iff.1 hnil, List.dropWhile_cons_of_neg (by decide)]
    simp
  · simp

theorem trimRight_ne_nil {t : Text} (h : ∃ c ∈ t, isBlank c = false) : t.trimRight isBlank ≠ [] := by
  obtain ⟨c, hc, hblank⟩ := h
  intro hnil
  have hall := List.dropWhile_eq_nil_iff.1 (List.reverse_eq_nil_iff.1 hnil) c (List.mem_reverse.2 hc)
  rw [hblank] at hall
  cases hall

/-- Trimming a line does not reach over a slash. -/
theorem trimLine_slash (u rest : Text) : ∃ rest', trimLine (u ++ '/' :: rest) = u ++ '/' :: rest' ∧
    ((∃ c ∈ rest, isBlank c = false) → rest' ≠ []) := by
  unfold trimLine
  split
  · refine ⟨rest, rfl, ?_⟩
    rintro ⟨c, hc, -⟩
    exact List.ne_nil_of_mem hc
  · exact ⟨_, trimRight_slash u rest, trimRight_ne_nil⟩

/-! ## Pieces of parts -/

/-- A part without escapes and wildcards. -/
def Plain (part : Text) : Prop := ∀ c ∈ part, c ∉ (['\\', '*', '?', '['] : Text)

instance (part : Text) : Decidable (Plain part) := List.decidableBAll _ part

theorem pieces_plain (line : Text) : ∀ {n : Nat} {part : Text}, part.length < n → Plain part →
    Glob.pieces line n part = .ok (some (part.map .literal))
  | 0, _, h, _ => by cases h
  | _ + 1, [], _, _ => rfl
  | n + 1, c :: cs, h, hplain => by
    have hc := hplain c (List.mem_cons_self ..)
    simp only [List.mem_cons, List.not_mem_nil, or_false, not_or] at hc
    have ih : Glob.pieces line n cs = _ :=
      pieces_plain line (Nat.lt_of_succ_lt_succ h) fun d hd => hplain d (List.mem_cons_of_mem c hd)
    have hstep : Glob.pieces line (n + 1) (c :: cs) = Glob.prepend (.literal c) (Glob.pieces line n cs) := by
      rw [Glob.pieces]
      · exact fun h _ => hc.1 h
      · exact fun _ _ h _ => hc.1 h
      · exact hc.2.1
      · exact hc.2.2.1
      · exact hc.2.2.2
    rw [hstep, ih]
    rfl

theorem plain_ne_anyParts {part : Text} (h : Plain part) : part ≠ anyParts ∧ part ≠ ['*'] := by
  constructor
  · rintro rfl
    exact h '*' (by decide) (by decide)
  · rintro rfl
    exact h '*' (by decide) (by decide)

theorem openEnd_ne_nil : ∀ {parts : List Text}, parts ≠ [] → openEnd parts ≠ []
  | [], h => absurd rfl h
  | [_], _ => by simp [openEnd]
  | _ :: _ :: _, _ => by simp [openEnd]

theorem collapse_ne_nil : ∀ {parts : List Text}, parts ≠ [] → collapse parts ≠ []
  | [], h => absurd rfl h
  | [_], _ => by simp [collapse]
  | p :: q :: parts, _ => by
    unfold collapse
    split
    · exact collapse_ne_nil (List.cons_ne_nil q parts)
    · simp

theorem collapse_cons {p : Text} (hp : p ≠ anyParts) : ∀ {parts : List Text}, parts ≠ [] →
    collapse (p :: parts) = p :: collapse parts
  | q :: parts, _ => by
    rw [collapse, if_neg (by simp [hp])]

/-- The pieces of further parts match from a slash on. -/
theorem of_matchAll_partPieces {line : Text} : ∀ {parts : List Text} {ps : List Piece} {t : Text}, parts ≠ [] →
    partPieces line false true parts = .ok (some ps) → Piece.matchAll ps t = true → ∃ rest, t = '/' :: rest
  | [], _, _, hne, _, _ => absurd rfl hne
  | part :: parts, ps, t, _, h, hm => by
    have hslash : ∀ {qs : List Piece}, Piece.matchAll (.slash :: qs) t = true → ∃ rest, t = '/' :: rest := by
      intro qs hq
      obtain ⟨rest, ht, -⟩ := Piece.matchAll_slash.1 hq
      exact ⟨rest, ht⟩
    unfold partPieces at h
    simp only [Bool.false_eq_true, if_false, if_true] at h
    split at h
    · split at h
      · cases h
        exact hslash hm
      · rename_i hlast
        obtain ⟨found, hfound, h⟩ := Outcome.map_ok.1 h
        rw [Option.map_eq_some_iff] at h
        obtain ⟨qs, rfl, rfl⟩ := h
        -- two stars match nothing, or some parts from a slash on
        rcases Piece.matchAll_innerFolders.1 hm with hm | ⟨c, run, rest, ht, -⟩
        · exact of_matchAll_partPieces (mt List.isEmpty_iff.2 hlast) hfound hm
        · exact ⟨c :: run ++ rest, ht⟩
    · split at h
      · cases h
      · cases h
      · split at h
        · cases h
          exact hslash hm
        · obtain ⟨found, hfound, h⟩ := Outcome.map_ok.1 h
          rw [Option.map_eq_some_iff] at h
          obtain ⟨qs, rfl, rfl⟩ := h
          exact hslash hm

theorem checked_ok {ps qs : List Piece} (h : Glob.checked ps = .ok qs) : qs = ps := by
  unfold Glob.checked at h
  split at h
  · cases h
  · cases h
    rfl

/-- What a pattern with a plain first part and further ones matches begins with that part and a slash. -/
theorem of_isMatch_parts {line body head q : Text} {qs : List Text} {target : Target} {includes : Bool} {path : Text}
    (hplain : Plain head) (hparts : anchoredParts (body.split '/') = head :: q :: qs)
    (h : targetOf line body = .ok (some target)) (hm : Pattern.isMatch ⟨includes, target⟩ path = true) :
    ∃ rest, path = head ++ '/' :: rest := by
  obtain ⟨hany, hstar⟩ := plain_ne_anyParts hplain
  have htail : collapse (openEnd (q :: qs)) ≠ [] := collapse_ne_nil (openEnd_ne_nil (List.cons_ne_nil q qs))
  have hopen : collapse (openEnd (head :: q :: qs)) = head :: collapse (openEnd (q :: qs)) := by
    rw [openEnd]
    exact collapse_cons hany (openEnd_ne_nil (List.cons_ne_nil q qs))
  unfold targetOf at h
  simp only [hparts, hopen] at h
  rw [if_neg (by simp [hany]), if_neg (by simp [hany]), if_neg (by simp [hany])] at h
  obtain ⟨found, hfound, h⟩ := Outcome.bind_ok.1 h
  unfold partPieces at hfound
  simp only [hany, hstar, if_false, Bool.false_eq_true, pieces_plain line (Nat.lt_succ_self _) hplain,
    List.isEmpty_eq_false_iff.2 htail, List.nil_append] at hfound
  obtain ⟨found', hfound', hmap⟩ := Outcome.map_ok.1 hfound
  cases found' with
  | none =>
    subst hmap
    cases h
  | some ps =>
    subst hmap
    obtain ⟨checked, hchecked, h⟩ := Outcome.bind_ok.1 h
    cases h
    rw [checked_ok hchecked] at hm
    obtain ⟨behind, rfl, hbehind⟩ := (Piece.matchAll_literals head).1 hm
    obtain ⟨rest, rfl⟩ := of_matchAll_partPieces htail hfound' hbehind
    exact ⟨rest, rfl⟩

/-! ## Lines -/

/-- Lines whose patterns take in only what lies below the folder in which their walk starts. -/
inductive Covered (line : Text) : Prop
  /-- A line that takes nothing in: a blank one, a comment, or one that takes back. -/
  | silent (h : ∀ p, ofLine line = .ok (some p) → p.includes = false)
  /-- A first part, a slash, and more behind it. -/
  | inner {head rest : Text} (hne : head ≠ []) (hslash : '/' ∉ head) (hplain : Plain head)
    (hrest : ∃ c ∈ rest, isBlank c = false) (hline : line = head ++ '/' :: rest)
  /-- A leading slash, a part, and a slash behind it. -/
  | rooted {head rest : Text} (hslash : '/' ∉ head) (hplain : Plain head) (hline : line = '/' :: (head ++ '/' :: rest))

theorem baseOf_of_head {head rest : Text} (hne : head ≠ []) (hslash : '/' ∉ head) (hplain : Plain head) :
    CandidateRules.baseOf (head ++ '/' :: rest) = head ∧ CandidateRules.baseOf ('/' :: (head ++ '/' :: rest)) = head := by
  obtain ⟨c, cs, rfl⟩ := List.exists_cons_of_ne_nil hne
  have hc : c ≠ '/' := fun he => hslash (he ▸ List.mem_cons_self ..)
  have hdrop : (c :: cs ++ '/' :: rest).dropWhile (· = '/') = c :: cs ++ '/' :: rest := by
    rw [List.cons_append, List.dropWhile_cons_of_neg (by simpa using hc)]
  have htake : (c :: cs ++ '/' :: rest).takeWhile (· ≠ '/') = c :: cs := by
    refine (Text.takeWhile_run (fun d hd => ?_) (by simp)).trans rfl
    simpa using fun he : d = '/' => hslash (he ▸ hd)
  have hany : ((c :: cs).any fun d => d = '*' || d = '?' || d = '[') = false := by
    rw [List.any_eq_false]
    intro d hd
    have := hplain d hd
    simp only [List.mem_cons, List.not_mem_nil, or_false, not_or] at this
    simp [this.2.1, this.2.2.1, this.2.2.2]
  have hbase : CandidateRules.baseOf (c :: cs ++ '/' :: rest) = c :: cs := by
    unfold CandidateRules.baseOf
    rw [hdrop, htake]
    simp only [hany, Bool.false_eq_true, if_false]
  refine ⟨hbase, ?_⟩
  unfold CandidateRules.baseOf at hbase ⊢
  rwa [List.dropWhile_cons_of_pos (by decide)]

/-- A path that a covered line takes in begins with the folder of its walk. -/
theorem Covered.below {line path : Text} {p : Pattern} (h : Covered line) (hline : ofLine line = .ok (some p))
    (hincludes : p.includes = true) (hm : p.isMatch path = true) :
    ∃ head rest, path = head ++ '/' :: rest ∧ (head ≠ [] → CandidateRules.baseOf line = head) := by
  have hbody : ∃ target, targetOf line (trimLine line) = .ok (some target) ∧ p = ⟨true, target⟩ := by
    unfold ofLine at hline
    simp only at hline
    split at hline
    · cases hline
    · split at hline
      · obtain ⟨found, hfound, hline⟩ := Outcome.map_ok.1 hline
        rw [Option.map_eq_some_iff] at hline
        obtain ⟨target, rfl, rfl⟩ := hline
        cases hincludes
      · obtain ⟨found, hfound, hline⟩ := Outcome.map_ok.1 hline
        rw [Option.map_eq_some_iff] at hline
        obtain ⟨target, rfl, rfl⟩ := hline
        exact ⟨target, hfound, rfl⟩
  obtain ⟨target, htarget, rfl⟩ := hbody
  cases h with
  | silent h =>
    rw [h _ hline] at hincludes
    cases hincludes
  | @inner head rest hne hslash hplain hrest he =>
    subst he
    obtain ⟨rest', htrim, hrest'⟩ := trimLine_slash head rest
    rw [htrim] at htarget
    obtain ⟨q, qs, hq⟩ := List.exists_cons_of_ne_nil (Text.split_ne_nil '/' rest')
    have hparts : anchoredParts ((head ++ '/' :: rest').split '/') = head :: q :: qs := by
      rw [Text.split_append, Text.split_of_not_mem hslash, hq, List.singleton_append]
      unfold anchoredParts
      split
      · rename_i h
        exact absurd (List.cons.inj h).1 hne
      · rename_i h
        cases h
      · -- a last part that is empty would be all that follows the slash
        rename_i h
        cases h
        exact absurd (by rw [← Text.join_split '/' rest', hq]; rfl) (hrest' hrest)
      · rfl
    obtain ⟨behind, hpath⟩ := of_isMatch_parts hplain hparts htarget hm
    exact ⟨head, behind, hpath, fun _ => (baseOf_of_head hne hslash hplain).1⟩
  | @rooted head rest hslash hplain he =>
    subst he
    obtain ⟨rest', htrim, -⟩ := trimLine_slash ('/' :: head) rest
    rw [List.cons_append] at htrim
    rw [htrim] at htarget
    obtain ⟨q, qs, hq⟩ := List.exists_cons_of_ne_nil (Text.split_ne_nil '/' rest')
    have hparts : anchoredParts (Text.split '/' ('/' :: (head ++ '/' :: rest'))) = head :: q :: qs := by
      rw [Text.split_cons_sep, Text.split_append, Text.split_of_not_mem hslash, hq,
        List.singleton_append]
      rfl
    obtain ⟨behind, hpath⟩ := of_isMatch_parts hplain hparts htarget hm
    exact ⟨head, behind, hpath, fun hne => (baseOf_of_head hne hslash hplain).2⟩

end Pattern

end ActionSweep
