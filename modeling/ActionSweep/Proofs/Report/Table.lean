/-
What a page shows. Each row of its table is one action, in order: a key or a path stands in a cell without any mark of a
tag and can be put back, whatever it is, so a page tells which keys and files it was made from.
-/
import ActionSweep.Proofs.Report.Markup
import ActionSweep.Proofs.Json.Numbers
import Mathlib.Data.List.Forall2

namespace ActionSweep

namespace Page

/-! ## Rows -/

/-- A path or key in a cell. -/
def code (t : Text) : List Token := .tag "code" :: (plain t.escaped ++ [.tag "/code"])

/-- What is in the cells of the row of an action, each with the attributes of its tag. -/
def cells (a : Action) : List (Text × List Token) :=
  [(" class=\"" ++ a.status ++ "\"", plain a.status), ("", plain a.confidence.label),
   ("", plain (Text.ofNat a.references.length)), ("", code a.key), ("", code a.file)]

/-- A line of a row, with what is in its cell. -/
def cellTokens (c : Text × List Token) : List Token :=
  plain "                " ++ (.tag ("td" ++ c.1) :: (c.2 ++ [.tag "/td"])) ++ plain "\n"

/-- What is in the row of an action. -/
def rowInside (a : Action) : List Token :=
  plain "\n" ++ (cells a).flatMap cellTokens ++ plain "            "

/-- A row, with the line break before it. -/
def rowTokens (a : Action) : List Token :=
  plain "\n            " ++ (.tag ("tr class=\"" ++ a.confidence.label ++ "\"") :: (rowInside a ++ [.tag "/tr"]))

theorem lt_not_mem_ofNat (n : Nat) : '<' ∉ Text.ofNat n := by
  intro h
  cases Json.isDigit_ofNat h

theorem lt_not_mem_escaped (t : Text) : '<' ∉ t.escaped := fun h => Text.not_markup_of_mem_escaped h (by decide)

theorem reads_cell (attributes : Text) {content : Text} {ts : List Token}
    (h : Reads (some "td") content (.tag ("td" ++ attributes) :: ts) none) :
    Reads none (cell content) (cellTokens (attributes, ts)) none := by
  have hopen : Reads none "                <td" (plain "                ") (some "td") := reads_of_check (by decide +kernel)
  have hclose : Reads none "</td>\n" [.tag "/td", .char '\n'] none := reads_of_check (by decide +kernel)
  have htokens : cellTokens (attributes, ts) = plain "                " ++ (.tag ("td" ++ attributes) :: ts) ++
      [.tag "/td", .char '\n'] := by
    simp [cellTokens, plain]
  rw [htokens]
  exact (hopen.append h).append hclose

theorem reads_plainCell {t : Text} (h : '<' ∉ t) : Reads (some "td") (">" ++ t) (.tag "td" :: plain t) none := by
  have hclose : Reads (some "td") ">" [.tag "td"] none := reads_of_check (by decide +kernel)
  exact hclose.append (reads_plain h)

theorem reads_codeCell (t : Text) :
    Reads (some "td") ("><code>" ++ t.escaped ++ "</code>") (.tag "td" :: code t) none := by
  have hopen : Reads (some "td") "><code>" [.tag "td", .tag "code"] none := reads_of_check (by decide +kernel)
  have hclose : Reads none "</code>" [.tag "/code"] none := reads_of_check (by decide +kernel)
  exact (hopen.append (reads_plain (lt_not_mem_escaped t))).append hclose

theorem reads_statusCell (a : Action) : Reads (some "td") (" class=\"" ++ a.status ++ "\">" ++ a.status)
    (.tag ("td" ++ (" class=\"" ++ a.status ++ "\"")) :: plain a.status) none := by
  unfold Action.status
  cases a.confidence with
  | safeToDelete => exact reads_of_check (by decide +kernel)
  | reviewNeeded => exact reads_of_check (by decide +kernel)

theorem reads_rowStart (a : Action) : Reads none ("\n            <tr class=\"" ++ a.confidence.label ++ "\">\n")
    (plain "\n            " ++ [.tag ("tr class=\"" ++ a.confidence.label ++ "\"")] ++ plain "\n") none := by
  cases a.confidence with
  | safeToDelete => exact reads_of_check (by decide +kernel)
  | reviewNeeded => exact reads_of_check (by decide +kernel)

theorem reads_row (a : Action) : Reads none (row a) (rowTokens a) none := by
  have hlabel : '<' ∉ a.confidence.label := by cases a.confidence <;> decide
  have hstatus := reads_cell _ (reads_statusCell a)
  have hconfidence := reads_cell "" (reads_plainCell hlabel)
  have hcount := reads_cell "" (reads_plainCell (lt_not_mem_ofNat a.references.length))
  have hkey := reads_cell "" (reads_codeCell a.key)
  have hfile := reads_cell "" (reads_codeCell a.file)
  have hend : Reads none "            </tr>" (plain "            " ++ [.tag "/tr"]) none := reads_of_check (by decide +kernel)
  have hrow := ((((((reads_rowStart a).append hstatus).append hconfidence).append hcount).append hkey).append hfile).append hend
  have htokens : rowTokens a = plain "\n            " ++ [.tag ("tr class=\"" ++ a.confidence.label ++ "\"")] ++ plain "\n" ++
      cellTokens (" class=\"" ++ a.status ++ "\"", plain a.status) ++ cellTokens ("", plain a.confidence.label) ++
      cellTokens ("", plain (Text.ofNat a.references.length)) ++ cellTokens ("", code a.key) ++
      cellTokens ("", code a.file) ++ (plain "            " ++ [.tag "/tr"]) := by
    simp [rowTokens, rowInside, cells]
  rw [htokens]
  exact hrow

/-! ## Elements of a row -/

theorem yields_cell {attributes : Text} {ts : List Token} (hopens : (Token.tag ("td" ++ attributes)).opens "td" = true)
    (h : ['/', 't', 'd'] ∉ tags ts) : Yields "td" (cellTokens (attributes, ts)) [ts] :=
  ((yields_plain _).append (yields_element hopens (not_closes_of_tags h))).append (yields_plain _)

/-- The tags of a row. -/
def rowTags (a : Action) : List Text :=
  ["tr class=\"" ++ a.confidence.label ++ "\"", "td class=\"" ++ a.status ++ "\"", "/td", "td", "/td", "td", "/td",
    "td", "code", "/code", "/td", "td", "code", "/code", "/td", "/tr"]

theorem tags_rowTokens (a : Action) : tags (rowTokens a) = rowTags a := by
  simp [rowTokens, rowInside, cells, cellTokens, code, rowTags]

theorem tags_code (t : Text) : tags (code t) = ["code", "/code"] := by simp [code]

theorem elements_cells (a : Action) : elements "td" (rowInside a) = (cells a).map (·.2) := by
  have hstatus : (Token.tag ("td" ++ (" class=\"" ++ a.status ++ "\""))).opens "td" = true := by
    unfold Action.status
    cases a.confidence <;> decide
  have hcode (t : Text) : Yields "td" (cellTokens ("", code t)) [code t] := by
    refine yields_cell (by decide) ?_
    rw [tags_code]
    decide
  have hcells : ∀ c ∈ cells a, Yields "td" (cellTokens c) [c.2] := by
    simp only [cells, List.forall_mem_cons]
    exact ⟨yields_cell hstatus (by simp), yields_cell (by decide) (by simp), yields_cell (by decide) (by simp), hcode a.key,
      hcode a.file, by simp⟩
  have hinside := ((yields_plain "\n").append (Yields.flatMap hcells)).append (yields_plain "            ")
  rw [List.nil_append, List.append_nil, ← List.map_eq_flatMap] at hinside
  exact hinside.elements

theorem elements_codes (a : Action) : elements "code" (rowInside a) = [plain a.key.escaped, plain a.file.escaped] := by
  have hplain {attributes : Text} (h : (Token.tag ("td" ++ attributes)).opens "code" = false) (t : Text) :
      Yields "code" (cellTokens (attributes, plain t)) [] := by
    refine yields_none (not_opens_of_tags ?_)
    have htags : tags (cellTokens (attributes, plain t)) = ["td" ++ attributes, "/td"] := by simp [cellTokens]
    rw [htags]
    exact List.forall_mem_cons.2 ⟨h, by decide⟩
  have hcode (t : Text) : Yields "code" (cellTokens ("", code t)) [plain t.escaped] := by
    have hbefore : Yields "code" (plain "                " ++ [.tag "td"]) [] := yields_none (by decide)
    have hafter : Yields "code" (.tag "/td" :: plain "\n") [] := yields_none (by decide)
    have hinside : Yields "code" (code t) [plain t.escaped] := yields_element (by decide) (not_closes_of_tags (by simp))
    have hcell : cellTokens ("", code t) = plain "                " ++ [.tag "td"] ++ code t ++ .tag "/td" :: plain "\n" := by
      simp [cellTokens]
    rw [hcell]
    exact (hbefore.append hinside).append hafter
  have hstatus : (Token.tag ("td" ++ (" class=\"" ++ a.status ++ "\""))).opens "code" = false := by
    unfold Action.status
    cases a.confidence <;> decide
  have hrow : rowInside a = plain "\n" ++ cellTokens (" class=\"" ++ a.status ++ "\"", plain a.status) ++
      cellTokens ("", plain a.confidence.label) ++ cellTokens ("", plain (Text.ofNat a.references.length)) ++
      cellTokens ("", code a.key) ++ cellTokens ("", code a.file) ++ plain "            " := by
    simp [rowInside, cells]
  rw [hrow]
  exact ((((((yields_plain _).append (hplain hstatus _)).append (hplain (by decide) _)).append (hplain (by decide) _)).append
    (hcode a.key)).append (hcode a.file)).append (yields_plain _) |>.elements

/-! ## The table -/

theorem yields_row (a : Action) : Yields "tr" (rowTokens a) [rowInside a] := by
  have hopens : (Token.tag ("tr class=\"" ++ a.confidence.label ++ "\"")).opens "tr" = true := by
    cases a.confidence <;> decide
  have hinside : ['/', 't', 'r'] ∉ tags (rowInside a) := by
    have htags : tags (rowInside a) = ["td class=\"" ++ a.status ++ "\"", "/td", "td", "/td", "td", "/td",
        "td", "code", "/code", "/td", "td", "code", "/code", "/td"] := by
      simp [rowInside, cells, cellTokens, code]
    rw [htags]
    unfold Action.status
    cases a.confidence <;> decide
  exact (yields_plain _).append (yields_element hopens (not_closes_of_tags hinside))

/-- A text that has no table body, whatever follows it. -/
def Skipped (t : Text) : Prop := ∃ ts, Reads none t ts none ∧ ∀ u ∈ ts, u.opens "tbody" = false

theorem Skipped.append {a b : Text} : Skipped a → Skipped b → Skipped (a ++ b) := by
  rintro ⟨ts, ha, hts⟩ ⟨us, hb, hus⟩
  exact ⟨ts ++ us, ha.append hb, List.forall_mem_append.2 ⟨hts, hus⟩⟩

theorem skipped_of_check {t : Text}
    (h : openTag none t = none ∧ ∀ u ∈ tokensFrom none t, u.opens "tbody" = false) : Skipped t :=
  ⟨_, reads_of_check ⟨rfl, h.1⟩, h.2⟩

theorem skipped_ofNat (n : Nat) : Skipped (Text.ofNat n) :=
  ⟨_, reads_plain (lt_not_mem_ofNat n), not_opens_of_tags (by simp)⟩

theorem skipped_summary (s : ScanSummary) : Skipped (summary s) := by
  unfold summary
  repeat' apply Skipped.append
  -- what is left are the fixed texts and the four numbers
  all_goals first
    | exact skipped_ofNat _
    | exact skipped_of_check (by decide +kernel)

/-- The tokens between the beginning and the end of the body of the table. -/
def bodyTokens (actions : List Action) : List Token := actions.flatMap rowTokens ++ plain "\n        "

theorem tags_bodyTokens (actions : List Action) : tags (bodyTokens actions) = actions.flatMap rowTags := by
  have hrows : ∀ l : List Action, tags (l.flatMap rowTokens) = l.flatMap rowTags := by
    intro l
    induction l with
    | nil => rfl
    | cons a l ih => rw [List.flatMap_cons, List.flatMap_cons, tags_append, tags_rowTokens, ih]
  rw [bodyTokens, tags_append, hrows, tags_plain, List.append_nil]

/-- No row ends the body of the table. -/
theorem bodyEnd_not_mem_tags (actions : List Action) : '/' :: ("tbody" : Text) ∉ tags (bodyTokens actions) := by
  rw [tags_bodyTokens, List.mem_flatMap]
  rintro ⟨a, -, ha⟩
  revert ha
  unfold rowTags Action.status
  cases a.confidence <;> decide

theorem elements_rows (actions : List Action) : elements "tr" (bodyTokens actions) = actions.map rowInside := by
  have hrows : Yields "tr" (actions.flatMap rowTokens) (actions.flatMap fun a => [rowInside a]) :=
    Yields.flatMap fun a _ => yields_row a
  have hbody := hrows.append (yields_plain "\n        ")
  rw [List.append_nil, ← List.map_eq_flatMap] at hbody
  exact hbody.elements

theorem foot_begins (now : Stamp) : ∃ rest, foot now = "\n        </tbody>" ++ rest := by
  have hlines : ("\n        </tbody>" : Text) <+: "\n" ++ lines ["        </tbody>", "    </table>"] := by decide +kernel
  obtain ⟨rest, hrest⟩ := hlines
  unfold foot
  rw [← hrest]
  simp only [List.append_assoc]
  exact ⟨_, rfl⟩

/-- The table of a page has one body, which holds the rows. -/
theorem elements_page (r : ScanResult) (now : Stamp) :
    ∃ rest, elements "tbody" (tokens (r.page now)) = bodyTokens r.actions :: rest := by
  obtain ⟨ts, hbefore, hts⟩ := (skipped_of_check (t := head) (by decide +kernel)).append (skipped_summary r.summary)
  have htable : Reads none tableHead ((tokensFrom none tableHead).dropLast ++ [.tag "tbody"]) none :=
    reads_of_check (by decide +kernel)
  have htable' : ∀ u ∈ (tokensFrom none tableHead).dropLast, u.opens "tbody" = false := by decide +kernel
  obtain ⟨rest, hfoot⟩ := foot_begins now
  have hend : Reads none "\n        </tbody>" (plain "\n        " ++ [.tag "/tbody"]) none := reads_of_check (by decide +kernel)
  have hpage := ((hbefore.append htable).append (Reads.flatMap reads_row r.actions)).append hend
  have htokens : tokens (r.page now) = (ts ++ (tokensFrom none tableHead).dropLast) ++
      (.tag "tbody" :: (bodyTokens r.actions ++ [.tag "/tbody"])) ++ tokensFrom none rest := by
    unfold tokens ScanResult.page
    rw [hfoot, ← List.append_assoc, hpage]
    simp [bodyTokens]
  have hfront : Yields "tbody" (ts ++ (tokensFrom none tableHead).dropLast) [] :=
    yields_none (List.forall_mem_append.2 ⟨hts, htable'⟩)
  have hbody : Yields "tbody" (.tag "tbody" :: (bodyTokens r.actions ++ [.tag "/tbody"])) [bodyTokens r.actions] :=
    yields_element (by decide) (not_closes_of_tags (bodyEnd_not_mem_tags r.actions))
  exact ⟨_, by rw [htokens, (hfront.append hbody) (tokensFrom none rest)]; rfl⟩

/-! ## Pages -/

/-- A row shows an action: in five cells its status, how sure that is, how many references it has, its key and its file,
the last two without any mark of a tag, and in such a way that they can be put back. -/
structure Shows (row : List Token) (a : Action) : Prop where
  cells : (elements "td" row).map text =
    [a.status, a.confidence.label, Text.ofNat a.references.length, a.key.escaped, a.file.escaped]
  unmarked : ∀ cell ∈ elements "code" row, ∀ c ∈ text cell, c ∉ Text.markupChars
  restored : (elements "code" row).map (fun cell => (text cell).unescaped) = [a.key, a.file]

theorem shows_rowInside (a : Action) : Shows (rowInside a) a where
  cells := by
    have htext (t : Text) : text (code t) = t.escaped := by simp [code]
    rw [elements_cells]
    simp [Page.cells, htext]
  unmarked := by
    rw [elements_codes]
    simp only [List.forall_mem_cons, text_plain]
    exact ⟨fun c => Text.not_markup_of_mem_escaped, fun c => Text.not_markup_of_mem_escaped, by simp⟩
  restored := by
    rw [elements_codes]
    simp [Text.unescaped_escaped]

/-- What a page shows of an action. -/
def shown (a : Action) : Text × Text × Nat := (a.key, a.file, a.references.length)

theorem ofNat_injective : Function.Injective Text.ofNat := by
  intro m n h
  rw [← Json.digitsValue_ofNat m, h, Json.digitsValue_ofNat]

theorem Shows.shown_eq {row : List Token} {a b : Action} (ha : Shows row a) (hb : Shows row b) : shown a = shown b := by
  have hcells := ha.cells.symm.trans hb.cells
  have hpaths := ha.restored.symm.trans hb.restored
  simp only [List.cons.injEq, and_true] at hcells hpaths
  exact Prod.ext hpaths.1 (Prod.ext hpaths.2 (ofNat_injective hcells.2.2.1))

/-- Rows show one list of actions only, as far as pages show it. -/
theorem shown_unique : ∀ {rows : List (List Token)} {actions others : List Action}, List.Forall₂ Shows rows actions →
    List.Forall₂ Shows rows others → actions.map shown = others.map shown
  | _, _, _, .nil, .nil => rfl
  | _, _, _, .cons ha hrest, .cons hb hrest' => by
    rw [List.map_cons, List.map_cons, ha.shown_eq hb, shown_unique hrest hrest']

theorem row_congr {a b : Action} (h : shown a = shown b) : row a = row b := by
  obtain ⟨hkey, hfile, hcount⟩ : a.key = b.key ∧ a.file = b.file ∧ a.references.length = b.references.length := by
    simpa [shown] using h
  unfold row Action.status Action.confidence
  rw [hkey, hfile, hcount]

/-- The counts of a result are those of what a page shows. -/
theorem summary_congr {r r' : ScanResult} (h : r.actions.map shown = r'.actions.map shown) : r.summary = r'.summary := by
  have hcount (r : ScanResult) : (r.withConfidence .safeToDelete).length =
      (r.actions.map shown).countP fun s => Confidence.ofCount s.2.2 = .safeToDelete := by
    rw [List.countP_map, List.countP_eq_length_filter]
    rfl
  have hlength := congrArg List.length h
  rw [List.length_map, List.length_map] at hlength
  unfold ScanResult.summary
  rw [hcount, hcount, h, hlength]

theorem flatMap_row_congr : ∀ {actions others : List Action}, actions.map shown = others.map shown →
    actions.flatMap row = others.flatMap row
  | [], [], _ => rfl
  | a :: actions, b :: others, h => by
    obtain ⟨hab, hrest⟩ := List.cons.inj h
    rw [List.flatMap_cons, List.flatMap_cons, row_congr hab, flatMap_row_congr hrest]

end Page

namespace ScanResult

open Page

/-- The body of the table of a page has one row for each action, in order, that shows it, and no tags but theirs. Two
results have the same page at one moment exactly if their actions have the same keys, the same files and as many
references. -/
theorem page_shows_actions (r : ScanResult) (now : Stamp) :
    (∃ body rest, elements "tbody" (tokens (r.page now)) = body :: rest ∧ tags body = r.actions.flatMap rowTags ∧
      List.Forall₂ Shows (elements "tr" body) r.actions) ∧
    ∀ r' : ScanResult, r.page now = r'.page now ↔ r.actions.map shown = r'.actions.map shown := by
  have hshows (actions : List Action) : List.Forall₂ Shows (elements "tr" (bodyTokens actions)) actions := by
    rw [elements_rows, List.forall₂_map_left_iff, List.forall₂_same]
    exact fun a _ => shows_rowInside a
  obtain ⟨rest, hbody⟩ := elements_page r now
  refine ⟨⟨_, rest, hbody, tags_bodyTokens r.actions, hshows r.actions⟩, fun r' => ⟨fun hpage => ?_, fun h => ?_⟩⟩
  · obtain ⟨rest', hbody'⟩ := elements_page r' now
    rw [← hpage, hbody] at hbody'
    have hrows := hshows r.actions
    rw [(List.cons.inj hbody').1] at hrows
    exact shown_unique hrows (hshows r'.actions)
  · unfold page
    rw [summary_congr h, flatMap_row_congr h]

end ScanResult

end ActionSweep
