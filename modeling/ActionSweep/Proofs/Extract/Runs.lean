/-
Which URLs of the API are found in a text. A run of a text is a block of characters that can stand in a URL, as long as
it goes. Each run that has the mark of the API with something behind it gives one bare URL, from the first mark to the
end of the run without the fragment; then come the URLs inside quoted strings, each with the mark and nothing that ends
a URL.
-/
import ActionSweep.Proofs.Extract.Literal

namespace ActionSweep.Extract

open Text (takeWhile_run exists_run findFrom_append exists_of_findFirst?)

/-! ## Runs -/

/-- The blocks of characters that can stand in a URL, as long as they go, from left to right. -/
def runs (t : Text) : List Text := (t.splitOnP (!isUrlChar ·)).filter (· ≠ [])

/-- Whether a text begins with the mark of the API and at least one more character. -/
def beginsUrl (t : Text) : Bool := Key.apiMark.isPrefixOf t && Key.apiMark.length < t.length

/-- Whether a run has the mark of the API with at least one more character behind it. -/
def namesUrl (run : Text) : Bool := run.tails.any beginsUrl

/-- A run from the first mark of the API on. -/
def fromMark (run : Text) : Text := (run.tails.find? (Key.apiMark.isPrefixOf ·)).getD []

theorem namesUrl_cons (c : Char) (run : Text) :
    namesUrl (c :: run) = (beginsUrl (c :: run) || namesUrl run) := by
  unfold namesUrl
  rw [List.tails_cons, List.any_cons]

theorem fromMark_cons (c : Char) (run : Text) :
    fromMark (c :: run) = if Key.apiMark.isPrefixOf (c :: run) then c :: run else fromMark run := by
  unfold fromMark
  rw [List.tails_cons, List.find?_cons]
  split <;> simp_all

theorem beginsUrl_iff {t : Text} : beginsUrl t = true ↔ Key.apiMark <+: t ∧ Key.apiMark.length < t.length := by
  unfold beginsUrl
  rw [Bool.and_eq_true, decide_eq_true_eq, List.isPrefixOf_iff_prefix]

theorem length_of_namesUrl : ∀ {run : Text}, namesUrl run = true → Key.apiMark.length < run.length
  | [], h => absurd h (by decide)
  | c :: run, h => by
    rw [namesUrl_cons, Bool.or_eq_true, beginsUrl_iff] at h
    rcases h with h | h
    · exact h.2
    · exact Nat.lt_succ_of_lt (length_of_namesUrl h)

theorem fromMark_subset : ∀ {run : Text}, fromMark run ⊆ run
  | [] => by decide
  | c :: run => by
    rw [fromMark_cons]
    split
    · exact List.Subset.refl _
    · exact fun d hd => List.mem_cons_of_mem c (fromMark_subset hd)

/-- The runs without a URL do not count, so it does not matter whether there are empty ones. -/
theorem filter_runs (t : Text) : (runs t).filter namesUrl = (t.splitOnP (!isUrlChar ·)).filter namesUrl := by
  unfold runs
  rw [List.filter_filter]
  refine List.filter_congr fun run _ => ?_
  cases run with
  | nil => decide
  | cons c run => simp

/-! ## The search -/

section Search

variable {run rest : Text} (hrun : ∀ c ∈ run, isUrlChar c = true) (hstop : ∀ c ∈ rest.head?, isUrlChar c = false)

include hrun hstop

/-- A URL at the beginning of a run is the whole run. -/
theorem apiUrl_run_iff {url : Text} {n : Nat} :
    apiUrl (run ++ rest) = some (url, n) ↔ beginsUrl run = true ∧ url = run ∧ n = run.length := by
  rw [beginsUrl_iff, apiUrl_iff]
  constructor
  · rintro ⟨tail, rest', htext, hne, htail, hstop', rfl, rfl⟩
    have hplain : ∀ c ∈ Key.apiMark ++ tail, isUrlChar c = true := by
      intro c hc
      rcases List.mem_append.1 hc with hc | hc
      · exact urlChar_iff.2 (.inl (apiMark_plain c hc))
      · exact htail c hc
    obtain rfl : run = Key.apiMark ++ tail := by
      rw [← takeWhile_run hrun hstop, htext, ← List.append_assoc, takeWhile_run hplain hstop']
    exact ⟨⟨List.prefix_append .., by simpa using List.length_pos_iff.2 hne⟩, rfl, rfl⟩
  · rintro ⟨⟨⟨tail, rfl⟩, hlong⟩, rfl, rfl⟩
    refine ⟨tail, rest, List.append_assoc .., ?_, fun c hc => hrun c (List.mem_append_right _ hc), hstop, rfl, rfl⟩
    rintro rfl
    simp at hlong

/-- The search goes through a run and finds its URL, if it has one. -/
theorem findFrom_run : Text.findFrom apiUrl 0 (run ++ rest) =
    (if namesUrl run then [fromMark run] else []) ++ Text.findFrom apiUrl 0 rest := by
  induction run with
  | nil => rfl
  | cons c run ih =>
    have hfind := @apiUrl_run_iff (c :: run) rest hrun hstop
    have ih := ih fun d hd => hrun d (List.mem_cons_of_mem c hd)
    rw [List.cons_append] at hfind ⊢
    rw [Text.findFrom.eq_def, namesUrl_cons, fromMark_cons]
    dsimp only
    cases hbegins : beginsUrl (c :: run) with
    | true =>
      have hmark := List.isPrefixOf_iff_prefix.2 (beginsUrl_iff.1 hbegins).1
      rw [hfind.2 ⟨hbegins, rfl, rfl⟩, if_pos (Bool.true_or _), if_pos hmark]
      dsimp only
      rw [List.length_cons, Nat.add_sub_cancel, findFrom_append]
      rfl
    | false =>
      have hnone : apiUrl (c :: (run ++ rest)) = none := by
        rw [Option.eq_none_iff_forall_ne_some]
        rintro ⟨url, n⟩ h
        rw [(hfind.1 h).1] at hbegins
        cases hbegins
      rw [hnone, Bool.false_or]
      dsimp only
      rw [ih]
      split
      -- a URL further on is longer than the mark, so the mark does not stand here either
      · rename_i hnames
        have hlong := Nat.lt_succ_of_lt (length_of_namesUrl hnames)
        have hmark : ¬ Key.apiMark.isPrefixOf (c :: run) = true := fun hmark => by
          rw [beginsUrl_iff.2 ⟨List.isPrefixOf_iff_prefix.1 hmark, hlong⟩] at hbegins
          cases hbegins
        rw [if_neg hmark]
      · rfl

end Search

/-- What a query begins with does not stand in a run, so only a fragment is dropped from a URL. -/
theorem dropQuery_fromMark {run : Text} (hrun : ∀ c ∈ run, isUrlChar c = true) :
    dropQuery (fromMark run) = (fromMark run).takeWhile (· ≠ '#') := by
  have hquery : ∀ c ∈ fromMark run, decide (c ≠ '?') = true := by
    intro c hc
    have hurl := hrun c (fromMark_subset hc)
    exact decide_eq_true (by rintro rfl; revert hurl; decide)
  rw [dropQuery, List.takeWhile_eq_self_iff.2 hquery]

/-- The bare URLs in a text are those of its runs. -/
theorem findAll_apiUrl (t : Text) : (t.findAll apiUrl).map dropQuery =
    ((runs t).filter namesUrl).map fun run => (fromMark run).takeWhile (· ≠ '#') := by
  rw [filter_runs]
  unfold Text.findAll
  induction hn : t.length using Nat.strongRecOn generalizing t with
  | ind n ih =>
    obtain ⟨run, rest, rfl, -, -, hrun, hstop⟩ := exists_run isUrlChar t
    have hsplit : ∀ c ∈ run, (!isUrlChar c) = false := fun c hc => by rw [hrun c hc]; rfl
    have hown : ((if namesUrl run then [fromMark run] else []).map dropQuery) =
        (if namesUrl run then [run] else []).map fun run => (fromMark run).takeWhile (· ≠ '#') := by
      split
      · exact congrArg ([·]) (dropQuery_fromMark hrun)
      · rfl
    rw [findFrom_run hrun hstop, List.map_append, hown]
    cases rest with
    | nil =>
      rw [List.append_nil, List.splitOnP_eq_singleton hsplit, List.filter_singleton]
      cases namesUrl run <;> rfl
    | cons c rest =>
      have hc : isUrlChar c = false := hstop c rfl
      -- no URL begins with the character that ends the run
      have hskip : Text.findFrom apiUrl 0 (c :: rest) = Text.findFrom apiUrl 0 rest := by
        have hnone : apiUrl (c :: rest) = none := by
          rw [Option.eq_none_iff_forall_ne_some]
          rintro ⟨url, n⟩ h
          cases ((@apiUrl_run_iff [] (c :: rest) (by simp) hstop).1 h).1
        rw [Text.findFrom, hnone]
      rw [hskip, ih rest.length (by rw [← hn]; simp; omega) rest rfl,
        List.splitOnP_append_cons_of_forall_mem hsplit c (by rw [hc]; rfl), List.filter_cons]
      split <;> rfl

/-! ## URLs in a text -/

/-- A URL that is found begins with the mark of the API and has nothing that ends a URL. -/
theorem dropQuery_of_apiUrl {t url : Text} {n : Nat} (h : apiUrl t = some (url, n)) :
    Key.apiMark <+: dropQuery url ∧ ∀ c ∈ dropQuery url, endsUrl c = false := by
  obtain ⟨tail, rest, -, -, htail, -, rfl, -⟩ := apiUrl_iff.1 h
  constructor
  · have hmark : ∀ d, endsUrl d = true → ∀ c ∈ Key.apiMark, decide (c ≠ d) = true := by
      intro d hd c hc
      refine decide_eq_true ?_
      rintro rfl
      rw [apiMark_plain c hc] at hd
      cases hd
    unfold dropQuery
    rw [List.takeWhile_append_of_pos (hmark '?' rfl), List.takeWhile_append_of_pos (hmark '#' rfl)]
    exact List.prefix_append ..
  · intro c hc
    rw [dropQuery] at hc
    have hfragment : c ≠ '#' := by simpa using List.mem_takeWhile_imp hc
    have hmem : c ∈ Key.apiMark ++ tail := (List.takeWhile_subset _) ((List.takeWhile_subset _) hc)
    rcases List.mem_append.1 hmem with hmark | htailMem
    · exact apiMark_plain c hmark
    · exact (urlChar_iff.1 (htail c htailMem)).resolve_right hfragment

/-- The references of a text are first the bare URLs, one for each run that names a URL, in the order of the text, and
then those of quoted strings, each of which is spelled with the mark of the API and without anything that ends a URL. -/
theorem urls_by_runs (t : Text) : ∃ quoted : List RawReference,
    urls t = ((runs t).filter namesUrl).map (fun run => ⟨(fromMark run).takeWhile (· ≠ '#'), .embeddedUrl⟩) ++ quoted ∧
    ∀ raw ∈ quoted, raw.provenance = .templateUrl ∧ Key.apiMark <+: raw.path ∧ ∀ c ∈ raw.path, endsUrl c = false := by
  have hbare := congrArg (List.map fun url => RawReference.mk url .embeddedUrl) (findAll_apiUrl t)
  rw [List.map_map, List.map_map] at hbare
  refine ⟨_, congrArg (· ++ _) hbare, fun raw hraw => ?_⟩
  obtain ⟨string, -, hstring⟩ := List.mem_filterMap.1 hraw
  obtain ⟨url, hurl, rfl⟩ := Option.map_eq_some_iff.1 hstring
  obtain ⟨u, n, hu⟩ := exists_of_findFirst? hurl
  exact ⟨rfl, dropQuery_of_apiUrl hu⟩

example : urls "/api/ /api/x#t&/api/y/api/z" = [⟨"/api/x", .embeddedUrl⟩, ⟨"/api/y/api/z", .embeddedUrl⟩] := by decide

end ActionSweep.Extract
