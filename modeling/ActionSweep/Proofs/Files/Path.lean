/-
Paths and their texts. The parts of a text are what stands between its slashes, so the text of a path
in normal form is read back as that path, going below a path appends parts, and a name that a walk
puts behind a path becomes its last part.
-/
import ActionSweep.Candidate
import ActionSweep.Proofs.Texts

namespace ActionSweep

namespace Path

/-! ## Parts -/

/-- A text that can stand between slashes and carries meaning there. -/
structure IsPart (t : Text) : Prop where
  nonempty : t ≠ []
  noDot : t ≠ ['.']
  noSlash : '/' ∉ t

instance (t : Text) : Decidable (IsPart t) :=
  decidable_of_iff (t ≠ [] ∧ t ≠ ['.'] ∧ '/' ∉ t) ⟨fun ⟨h, h', h''⟩ => ⟨h, h', h''⟩, fun ⟨h, h', h''⟩ => ⟨h, h', h''⟩⟩

theorem isPart_of_mem_partsOf {t p : Text} (h : p ∈ partsOf t) : IsPart p := by
  unfold partsOf at h
  obtain ⟨hp, hm⟩ := List.mem_filter.1 h
  simp only [Bool.not_eq_true', Bool.or_eq_false_iff, List.isEmpty_eq_false_iff,
    decide_eq_false_iff_not] at hm
  exact ⟨hm.1, hm.2, Text.not_mem_of_mem_split hp⟩

theorem partsOf_of_isPart {p : Text} (h : IsPart p) : partsOf p = [p] := by
  unfold partsOf
  rw [Text.split_of_not_mem h.noSlash]
  simp [h.nonempty, h.noDot]

theorem partsOf_append (a b : Text) : partsOf (a ++ '/' :: b) = partsOf a ++ partsOf b := by
  unfold partsOf
  rw [Text.split_append, List.filter_append]

/-- A name with an ending is a part. -/
theorem isPart_ending {u ending : Text} (hu : '/' ∉ u) (hslash : '/' ∉ ending) (hlong : 2 ≤ ending.length) :
    IsPart (u ++ ending) := by
  refine ⟨fun h => ?_, fun h => ?_, fun h => ?_⟩
  · rw [(List.append_eq_nil_iff.1 h).2] at hlong
    cases hlong
  · have hone := congrArg List.length h
    rw [List.length_append, List.length_singleton] at hone
    omega
  · rcases List.mem_append.1 h with h | h
    · exact hu h
    · exact hslash h

/-- The last part of a text with an ending has that ending. -/
theorem partsOf_ending (t ending : Text) (hslash : '/' ∉ ending) (hlong : 2 ≤ ending.length) :
    ∃ front name, partsOf (t ++ ending) = front ++ [name] ∧ ending <:+ name := by
  by_cases h : '/' ∈ t
  · obtain ⟨as, bs, hsplit, hno⟩ := List.eq_append_cons_of_mem (List.mem_reverse.2 h)
    have ht : t = bs.reverse ++ '/' :: as.reverse := by
      rw [← List.reverse_reverse t, hsplit]
      simp
    refine ⟨partsOf bs.reverse, as.reverse ++ ending, ?_, List.suffix_append ..⟩
    rw [ht, List.append_assoc, List.cons_append, partsOf_append,
      partsOf_of_isPart (isPart_ending (fun hm => hno (List.mem_reverse.1 hm)) hslash hlong)]
  · exact ⟨[], t ++ ending, by rw [partsOf_of_isPart (isPart_ending h hslash hlong)]; rfl, List.suffix_append ..⟩

/-- Parts are read back from the text in which slashes stand between them. -/
theorem partsOf_join : ∀ {ps : List Text}, (∀ p ∈ ps, IsPart p) → partsOf (Text.join "/" ps) = ps
  | [], _ => rfl
  | [p], h => partsOf_of_isPart (h p (List.mem_singleton_self p))
  | p :: q :: ps, h => by
    have ih := partsOf_join fun r hr => h r (List.mem_cons_of_mem p hr)
    rw [Text.join_cons (List.cons_ne_nil q ps), List.append_assoc]
    show partsOf (p ++ '/' :: Text.join "/" (q :: ps)) = _
    rw [partsOf_append, ih, partsOf_of_isPart (h p (List.mem_cons_self ..)), List.singleton_append]

/-! ## Normal form -/

/-- Every part carries meaning. -/
def Normal (p : Path) : Prop := ∀ part ∈ p.parts, IsPart part

instance (p : Path) : Decidable p.Normal := inferInstanceAs (Decidable (∀ part ∈ p.parts, IsPart part))

theorem normal_ofText (t : Text) : (ofText t).Normal := fun _ h => isPart_of_mem_partsOf h

theorem Normal.under {p : Path} (h : p.Normal) (t : Text) : (p.under t).Normal := by
  unfold Path.under join
  split
  · intro part hpart
    rcases List.mem_append.1 hpart with hpart | hpart
    · exact h part hpart
    · exact normal_ofText t part hpart
  · exact normal_ofText t

/-- The text of a path without parts is its anchor, or a dot. -/
theorem text_of_parts_nil {p : Path} (h : p.parts = []) :
    p.text = if p.anchor = .here then ['.'] else p.anchor.text := by
  unfold text
  rw [h]
  cases p.anchor <;> rfl

theorem text_of_parts_ne_nil {p : Path} (h : p.parts ≠ []) :
    p.text = p.anchor.text ++ Text.join "/" p.parts := by
  unfold text
  split
  · rename_i hp
    exact absurd hp h
  · rfl

theorem text_here {parts : List Text} (h : parts ≠ []) : (Path.mk .here parts).text = Text.join "/" parts :=
  text_of_parts_ne_nil h

/-- Texts of paths that lead on from one path begin alike. -/
theorem text_below (p : Path) : ∃ front, ∀ names, names ≠ [] →
    (Path.mk p.anchor (p.parts ++ names)).text = front ++ Text.join "/" names := by
  by_cases h : p.parts = []
  · refine ⟨p.anchor.text, fun names hne => ?_⟩
    rw [h, List.nil_append, text_of_parts_ne_nil hne]
  · refine ⟨p.anchor.text ++ (Text.join "/" p.parts ++ "/"), fun names hne => ?_⟩
    rw [text_of_parts_ne_nil (by simp [h])]
    show p.anchor.text ++ Text.join "/" (p.parts ++ names) = _
    rw [Text.join_append hne h, List.append_assoc, List.append_assoc, List.append_assoc]

/-- The text of a path that leads further on is no shorter. -/
theorem text_length_mono (p : Path) {names : List Text} (hne : names ≠ []) (more : List Text) :
    (Utf8.encode (Path.mk p.anchor (p.parts ++ names)).text).length ≤
      (Utf8.encode (Path.mk p.anchor (p.parts ++ (names ++ more))).text).length := by
  obtain ⟨front, hfront⟩ := p.text_below
  rw [hfront names hne, hfront (names ++ more) (by simp [hne])]
  by_cases hmore : more = []
  · rw [hmore, List.append_nil]
  · rw [Text.join_append hmore hne]
    simp only [Utf8.encode, List.flatMap_append, List.length_append]
    omega

theorem join_head {ps : List Text} (h : ∀ p ∈ ps, IsPart p) (hne : ps ≠ []) :
    ∃ c t, Text.join "/" ps = c :: t ∧ c ≠ '/' := by
  obtain ⟨p, qs, rfl⟩ := List.exists_cons_of_ne_nil hne
  have hp := h p (List.mem_cons_self ..)
  obtain ⟨c, t, rfl⟩ := List.exists_cons_of_ne_nil hp.nonempty
  have hc : c ≠ '/' := fun he => hp.noSlash (he ▸ List.mem_cons_self ..)
  cases qs with
  | nil => exact ⟨c, t, rfl, hc⟩
  | cons q qs => exact ⟨c, t ++ ("/" : Text) ++ Text.join "/" (q :: qs), rfl, hc⟩

theorem partsOf_slash (t : Text) : partsOf ('/' :: t) = partsOf t := by
  unfold partsOf
  rw [Text.split_cons_sep]
  rfl

theorem partsOf_anchor (a : Anchor) (t : Text) : partsOf (a.text ++ t) = partsOf t := by
  cases a with
  | here => rfl
  | root => exact partsOf_slash t
  | doubleRoot => exact (partsOf_slash _).trans (partsOf_slash t)

theorem anchorOf_anchor (a : Anchor) {c : Char} (hc : c ≠ '/') (t : Text) :
    anchorOf (a.text ++ c :: t) = a := by
  cases a with
  | here =>
    show anchorOf (c :: t) = .here
    unfold anchorOf
    split <;> simp_all
  | root =>
    show anchorOf ('/' :: c :: t) = .root
    unfold anchorOf
    split
    · rename_i he
      cases he
      exact absurd rfl hc
    · rename_i he
      cases he
      exact absurd rfl hc
    · rfl
    · rename_i h
      exact absurd rfl (h (c :: t))
  | doubleRoot =>
    show anchorOf ('/' :: '/' :: c :: t) = .doubleRoot
    unfold anchorOf
    split
    · rename_i he
      cases he
      exact absurd rfl hc
    · rfl
    · rename_i h he
      cases he
      exact absurd rfl (h (c :: t))
    · rename_i h
      exact absurd rfl (h ('/' :: c :: t))

/-- A path in normal form is read back from its text. -/
theorem ofText_text {p : Path} (h : p.Normal) : ofText p.text = p := by
  obtain ⟨anchor, parts⟩ := p
  by_cases hp : parts = []
  · subst hp
    cases anchor <;> rfl
  · obtain ⟨c, t, hj, hc⟩ := join_head h hp
    rw [text_of_parts_ne_nil hp]
    unfold ofText
    rw [partsOf_anchor, partsOf_join h, hj, anchorOf_anchor anchor hc]

/-- The text of a relative path has no two slashes in a row. -/
theorem no_double_slash {t a b : Text} (hplain : (ofText t).text = t) (hhere : anchorOf t = .here) :
    t ≠ a ++ '/' :: '/' :: b := by
  intro ht
  by_cases hnil : partsOf t = []
  · have hdot : t = ['.'] := hplain.symm.trans ((text_of_parts_nil hnil).trans (if_pos hhere))
    have hslash : '/' ∈ t := by simp [ht]
    rw [hdot] at hslash
    exact absurd hslash (by decide)
  · have hjoin : Text.join ['/'] (partsOf t) = t := by
      refine (text_here hnil).symm.trans ?_
      rw [← hhere]
      exact hplain
    have hsplit := Text.split_join hnil fun p hp => (isPart_of_mem_partsOf hp).noSlash
    rw [hjoin] at hsplit
    have hempty : [] ∈ t.split '/' := by simp [ht, Text.split_append, Text.split_cons_sep]
    exact (isPart_of_mem_partsOf (hsplit ▸ hempty)).nonempty rfl

/-! ## Extensions -/

theorem stem_begins (n : Text) : stem n <+: n := by
  unfold stem
  split
  · exact List.prefix_refl n
  · rename_i c before h
    split
    · exact List.prefix_refl n
    · have hsuffix : before <:+ n.reverse :=
        (List.suffix_cons c before).trans (h ▸ List.dropWhile_suffix _)
      rw [← List.reverse_reverse n]
      exact List.reverse_prefix.2 hsuffix

theorem isPart_withExtension {n extension : Text} (hn : IsPart n) (hslash : '/' ∉ extension)
    (hlong : 2 ≤ extension.length) : IsPart (stem n ++ extension) :=
  isPart_ending (fun h => hn.noSlash ((stem_begins n).subset h)) hslash hlong

theorem withExtension?_concat (a : Anchor) (front : List Text) (n extension : Text) :
    (Path.mk a (front ++ [n])).withExtension? extension = some ⟨a, front ++ [stem n ++ extension]⟩ := by
  simp [withExtension?, name?]

/-- A path with another extension stands beside the path, under a name of its own. -/
theorem Normal.withExtension? {p q : Path} (hp : p.Normal) {extension : Text} (hslash : '/' ∉ extension)
    (hlong : 3 ≤ extension.length) (h : p.withExtension? extension = some q) :
    ∃ front n k, p = ⟨p.anchor, front ++ [n]⟩ ∧ q = ⟨p.anchor, front ++ [k]⟩ ∧ q.Normal ∧ k ≠ ['.', '.'] := by
  obtain ⟨a, parts⟩ := p
  rcases List.eq_nil_or_concat' parts with rfl | ⟨front, n, rfl⟩
  · cases h
  · rw [withExtension?_concat] at h
    cases h
    refine ⟨front, n, _, rfl, rfl, fun part hpart => ?_, fun he => ?_⟩
    · rcases List.mem_append.1 hpart with hpart | hpart
      · exact hp part (List.mem_append_left _ hpart)
      · rw [List.mem_singleton.1 hpart]
        exact isPart_withExtension (hp n (by simp)) hslash (by omega)
    · have hlength := congrArg List.length he
      rw [List.length_append] at hlength
      simp only [List.length_cons, List.length_nil] at hlength
      omega

/-! ## Below a path -/

theorem under_text {p q : Path} (hq : q.Normal) (hhere : q.anchor = .here) :
    p.under q.text = ⟨p.anchor, p.parts ++ q.parts⟩ := by
  unfold under
  rw [ofText_text hq]
  unfold join
  rw [if_pos hhere]

theorem under_nil (p : Path) : p.under [] = p := by
  unfold under join ofText
  simp [anchorOf, partsOf, Text.split]

theorem relativeTo?_eq_some {base p q : Path} :
    relativeTo? base p = some q ↔ p = ⟨base.anchor, base.parts ++ q.parts⟩ ∧ q.anchor = .here := by
  obtain ⟨anchor, parts⟩ := p
  obtain ⟨qanchor, qparts⟩ := q
  unfold relativeTo?
  constructor
  · intro h
    split at h
    · rename_i ha
      rw [Option.map_eq_some_iff] at h
      obtain ⟨rest, hrest, hq⟩ := h
      cases hq
      rw [List.isPrefixOf?_eq_some_iff_append_eq] at hrest
      simp only at ha hrest
      exact ⟨by rw [ha, hrest], rfl⟩
    · cases h
  · rintro ⟨h, hq⟩
    cases h
    simp only at hq
    subst hq
    rw [if_pos rfl, Option.map_eq_some_iff]
    exact ⟨qparts, List.isPrefixOf?_eq_some_iff_append_eq.2 rfl, rfl⟩

/-- Paths that lead the same way: two leading slashes lead as one does. -/
structure Alike (p q : Path) : Prop where
  absolute : p.isAbsolute = q.isAbsolute
  parts : p.parts = q.parts

open CandidateRules (joined)

theorem anchorOf_here {t : Text} : anchorOf t = .here ↔ ∀ u, t ≠ '/' :: u := by
  unfold anchorOf
  split <;> simp_all

/-- A name behind a text is the last part of the path. -/
theorem under_joined (p : Path) (t : Text) {n : Text} (hn : IsPart n) :
    (p.under (joined t n)).Alike ⟨(p.under t).anchor, (p.under t).parts ++ [n]⟩ := by
  unfold joined
  split
  · rename_i ht
    rw [List.isEmpty_iff] at ht
    subst ht
    have hhere : anchorOf n = .here := by
      rw [anchorOf_here]
      rintro u rfl
      exact hn.noSlash (List.mem_cons_self ..)
    rw [under_nil]
    unfold under join ofText
    rw [hhere, partsOf_of_isPart hn]
    exact ⟨rfl, rfl⟩
  · rename_i ht
    obtain ⟨c, t, rfl⟩ := List.exists_cons_of_ne_nil (mt List.isEmpty_iff.2 ht)
    have hparts := partsOf_append (c :: t) n
    rw [partsOf_of_isPart hn] at hparts
    by_cases hc : c = '/'
    · subst hc
      have h1 : anchorOf ('/' :: t) ≠ .here := fun h => anchorOf_here.1 h t rfl
      have h2 : anchorOf ('/' :: t ++ '/' :: n) ≠ .here := fun h => anchorOf_here.1 h _ rfl
      unfold under join ofText
      simp only [h1, h2, if_false, hparts]
      exact ⟨(decide_eq_true h2).trans (decide_eq_true h1).symm, rfl⟩
    · have h1 : anchorOf (c :: t) = .here := anchorOf_here.2 fun u hu => hc (List.cons.inj hu).1
      have h2 : anchorOf (c :: t ++ '/' :: n) = .here :=
        anchorOf_here.2 fun u hu => hc (List.cons.inj hu).1
      unfold under join ofText
      simp only [h1, h2, if_true, hparts]
      exact ⟨rfl, by simp⟩

end Path

end ActionSweep
