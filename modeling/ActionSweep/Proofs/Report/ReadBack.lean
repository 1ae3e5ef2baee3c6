/-
Reports are read back. What is written for the result of a scan is read as the value of that result, with everything in
its order, as a text and from the file it was saved to, exactly as long as the documents of its actions leave room for
the three brackets that the report puts around each of them. This is so of texts. A string that is none, since it has
halves of UTF-16 pairs in it, is read back too, unless two of them make a pair: what is written for those is what is
written for the character.
-/
import ActionSweep.Report.Save
import ActionSweep.Proofs.Files.Replacing
import ActionSweep.Proofs.Json.Reading
import ActionSweep.Proofs.Scan.Calls

namespace ActionSweep

open Json (Readable readableItems_iff)
open Value (HoldsFloat NestedAt)

/-! ## What a report holds -/

section Readable

variable {room : Nat}

theorem readable_ofNat {n : Nat} (h : n < 10 ^ numeralLimit) : Readable room (.ofNat n) := Json.numeral_short h

theorem readable_map {α : Type} {f : α → Value} {l : List α} :
    Readable room (.list (l.map f)) ↔ 0 < room ∧ ∀ a ∈ l, Readable (room - 1) (f a) :=
  and_congr_right fun _ => readableItems_iff.trans List.forall_mem_map

theorem Reference.readable (r : Reference) (hroom : 0 < room) : Readable room r.toValue := by
  have hnames : (["sourceFile", "type", "originalReference"] : List Text).Nodup := by decide
  exact ⟨hroom, hnames, trivial, trivial, trivial, trivial⟩

theorem EmptyFolder.readable (f : EmptyFolder) (hroom : 0 < room) : Readable room f.toValue := by
  have hnames : (["path", "relativePath"] : List Text).Nodup := by decide
  exact ⟨hroom, hnames, trivial, trivial, trivial⟩

theorem Action.readable {a : Action} (hroom : 3 ≤ room) (hcount : a.references.length < 10 ^ numeralLimit) :
    Readable room a.toValue ↔ Readable (room - 1) a.content := by
  have hnames : (["urlPath", "filePath", "status", "confidence", "referenceCount", "references", "content"] :
      List Text).Nodup := by decide
  have hreferences : Readable (room - 1) (.list (a.references.map Reference.toValue)) :=
    readable_map.2 ⟨by omega, fun r _ => r.readable (by omega)⟩
  constructor
  · rintro ⟨-, -, -, -, -, -, -, -, hcontent, -⟩
    exact hcontent
  · intro hcontent
    exact ⟨by omega, hnames, trivial, trivial, trivial, trivial, readable_ofNat hcount, hreferences, hcontent, trivial⟩

namespace ScanResult

variable {r : ScanResult}

theorem readable_summary (htotal : r.actions.length < 10 ^ numeralLimit) (hroom : 0 < room) :
    Readable room r.summary.toValue := by
  have hnames : (["totalActions", "used", "possiblyUnused", "likelyUnused"] : List Text).Nodup := by decide
  have hunused : (r.withConfidence .safeToDelete).length ≤ r.actions.length := List.length_filter_le ..
  refine ⟨hroom, hnames, readable_ofNat htotal, readable_ofNat ?_, readable_ofNat ?_, readable_ofNat ?_, trivial⟩
  · exact (Nat.sub_le ..).trans_lt htotal
  · exact Nat.pow_pos (by decide)
  · exact hunused.trans_lt htotal

/-- A report is readable exactly if the documents of its actions are, three brackets further in. -/
theorem readable_toValue (hroom : 5 ≤ room) (htotal : r.actions.length < 10 ^ numeralLimit)
    (hcounts : ∀ a ∈ r.actions, a.references.length < 10 ^ numeralLimit) :
    Readable room r.toValue ↔ ∀ a ∈ r.actions, Readable (room - 3) a.content := by
  have hnames : (["summary", "actions", "emptyFolders", "warnings"] : List Text).Nodup := by decide
  have hactions : Readable (room - 1) (.list (r.actions.map Action.toValue)) ↔
      ∀ a ∈ r.actions, Readable (room - 3) a.content :=
    calc Readable (room - 1) (.list (r.actions.map Action.toValue))
        ↔ 0 < room - 1 ∧ ∀ a ∈ r.actions, Readable (room - 2) a.toValue := readable_map
      _ ↔ ∀ a ∈ r.actions, Readable (room - 2) a.toValue := and_iff_right (by omega)
      _ ↔ ∀ a ∈ r.actions, Readable (room - 3) a.content :=
          forall₂_congr fun a ha => Action.readable (by omega) (hcounts a ha)
  have hfolders : Readable (room - 1) (.list (r.emptyFolders.map EmptyFolder.toValue)) :=
    readable_map.2 ⟨by omega, fun f _ => f.readable (by omega)⟩
  have hwarnings : Readable (room - 1) (.list (r.warnings.map .text)) :=
    readable_map.2 ⟨by omega, fun _ _ => trivial⟩
  constructor
  · rintro ⟨-, -, -, h, -⟩
    exact hactions.1 h
  · intro h
    exact ⟨by omega, hnames, readable_summary htotal (by omega), hactions.2 h, hfolders, hwarnings, trivial⟩

end ScanResult

end Readable

/-! ## Reading a report -/

/-- The content of each action was read from a text, with brackets at most `limit` deep, and holds no number with a
fraction. The two bounds are those of the longest numeral that is read; no list in a memory is that long. -/
structure ScanResult.Loaded (limit : Nat) (r : ScanResult) : Prop where
  documents : ∀ a ∈ r.actions, ∃ t, Json.readWithin limit t = .ok a.content
  whole : ∀ a ∈ r.actions, ¬ a.content.HoldsFloat
  total : r.actions.length < 10 ^ numeralLimit
  counts : ∀ a ∈ r.actions, a.references.length < 10 ^ numeralLimit

/-- The contents of all actions can still be read with three brackets of a report around them. -/
def ScanResult.LeavesRoom (limit : Nat) (r : ScanResult) : Prop :=
  ∀ a ∈ r.actions, ∀ n, NestedAt n a.content → n + 3 < limit

namespace ScanResult

variable {r : ScanResult} {limit : Nat}

/-- A scan reads the content of every action, so its results are of this kind but for fractions and sizes. -/
theorem loaded_of_scan {s : Scanner} {disk : Disk} (hscan : (s.scan disk).1 = .ok r)
    (hwhole : ∀ a ∈ r.actions, ¬ a.content.HoldsFloat) (htotal : r.actions.length < 10 ^ numeralLimit)
    (hcounts : ∀ a ∈ r.actions, a.references.length < 10 ^ numeralLimit) : r.Loaded disk.around.nesting where
  documents := by
    intro a ha
    exact Disk.text_of_readJson (Scanner.readJson_of_action hscan ha)
  whole := hwhole
  total := htotal
  counts := hcounts

theorem Loaded.readable (h : r.Loaded limit) : ∀ a ∈ r.actions, Readable limit a.content := by
  intro a ha
  obtain ⟨t, ht⟩ := h.documents a ha
  exact Json.readable_of_read ht (h.whole a ha)

/-- Every report can be read among brackets enough. -/
theorem Loaded.readable_toValue (h : r.Loaded limit) (hlimit : 5 ≤ limit) : Readable (limit + 3) r.toValue :=
  (ScanResult.readable_toValue (Nat.le_add_right_of_le hlimit) h.total h.counts).2 h.readable

theorem Loaded.leavesRoom_iff (h : r.Loaded limit) (hlimit : 5 ≤ limit) :
    Readable limit r.toValue ↔ r.LeavesRoom limit :=
  calc Readable limit r.toValue
      ↔ ∀ a ∈ r.actions, Readable (limit - 3) a.content := ScanResult.readable_toValue hlimit h.total h.counts
    _ ↔ ∀ a ∈ r.actions, ∀ n, NestedAt n a.content → n < limit - 3 :=
        forall₂_congr fun a ha => Json.readable_within (h.readable a ha)
    _ ↔ r.LeavesRoom limit := forall₂_congr fun _ _ => forall₂_congr fun _ _ => Nat.lt_sub_iff_add_lt

/-- The file of a report is read as its text is. -/
theorem readJson_saved {room : Nat} (h : Readable room r.toValue) {disk disk' : Disk} (hdisk : disk.Grounded) {name : Text}
    (hname : isPageName name = false) {now : Stamp} (hsave : r.save name now disk = .ok () disk') :
    disk'.readJson (Path.ofText name) = (Json.readWithin disk.around.nesting r.json).mapError .json := by
  -- nothing of the file is a mark or a line end that reading would change, however deep it nests
  obtain ⟨hne, hascii, hlines⟩ := Json.file_render h.fits
  have htext : r.fileText name now = r.json := by rw [fileText, hname]; rfl
  have haround : disk'.around = disk.around := Disk.write_around (FileWork.change_ok hsave)
  obtain ⟨place, hplace⟩ := Disk.write_finds hdisk (FileWork.change_ok hsave)
  have hbytes := Disk.read_ok.2 ⟨place, hplace⟩
  have hmarked : Utf8.strictUnmarked (Utf8.encode r.json) = .ok r.json := Utf8.strictUnmarked_encode hne hascii
  have hunified : r.json.unifyLines = r.json := hlines
  unfold Disk.readJson
  rw [hbytes, htext]
  simp [hmarked, hunified, haround, Except.mapError, bind, Except.bind]

/-- A report is read back, from its text and from the file it was saved to, exactly if the documents in it leave room
for its brackets. And each string in such a text is read as it was written, exactly if there is no pair of halves in it. -/
theorem report_reads_back (hlimit : 5 ≤ limit) (h : r.Loaded limit) :
    (Json.readWithin limit r.json = .ok r.toValue ↔ r.LeavesRoom limit) ∧
    (∀ {name : Text} {now : Stamp} {disk disk' : Disk}, disk.Grounded → disk.around.nesting = limit →
      isPageName name = false → r.save name now disk = .ok () disk' →
      (disk'.readJson (Path.ofText name) = .ok r.toValue ↔ r.LeavesRoom limit)) ∧
    ∀ {ps : Points} {n : Nat} (rest : Text), (∀ p ∈ ps, p < 0x110000) → ps.length < n →
      (Json.points n (Json.writePoints ps ++ rest).tail = .ok (ps, rest) ↔ ¬ ps.HoldsPair) := by
  have htext : Json.readWithin limit r.json = .ok r.toValue ↔ r.LeavesRoom limit :=
    (Json.read_render_iff (h.readable_toValue hlimit)).trans (h.leavesRoom_iff hlimit)
  refine ⟨htext, fun hdisk hnesting hname hsave => ?_, fun rest hps hn => Json.points_read_iff hps hn rest⟩
  rw [readJson_saved (h.readable_toValue hlimit) hdisk hname hsave, hnesting, Outcome.mapError_ok, htext]

end ScanResult

namespace Sample

/-- Empty brackets, escapes, a control character, characters in and beyond the first plane, and a long integer. -/
def reportedContent : Value :=
  .object [("exec", .list []), ("a\"b", .text ['\\', '\n', '\x01', 'é', '😀']), ("steps", .list [.object [], .int (-2 ^ 70)])]

def report : ScanResult :=
  ⟨[⟨"/api/é", "app/a.json", reportedContent, [⟨"b.js", .scriptFetchCall, "/api/é?x"⟩]⟩], [⟨"/p/c", "c"⟩], ["\t"], []⟩

theorem readable_reportedContent {room : Nat} (hroom : 3 ≤ room) : Readable room reportedContent := by
  have hnames : (["exec", "a\"b", "steps"] : List Text).Nodup := by decide
  have hobject : Readable (room - 2) (.object []) := ⟨by omega, List.nodup_nil, trivial⟩
  have hlong : (Text.ofNat (-2 ^ 70 : Int).natAbs).length ≤ numeralLimit := by decide
  exact ⟨by omega, hnames, ⟨by omega, trivial⟩, trivial, ⟨by omega, hobject, hlong, trivial⟩, trivial⟩

def freshDisk : Disk := ⟨.empty, [], "/"⟩

/-- A report of nothing but one warning, before the string of the warning and behind it. -/
def beforeWarning : Text :=
  "\x7b\n  \"summary\": \x7b\n    \"totalActions\": 0,\n    \"used\": 0,\n    \"possiblyUnused\": 0,\n    " ++
    "\"likelyUnused\": 0\n  \x7d,\n  \"actions\": [],\n  \"emptyFolders\": [],\n  \"warnings\": [\n    "

def behindWarning : Text := "\n  ]\n\x7d"

end Sample

theorem ScanResult.sample_report_reads_back :
    5 ≤ Sample.freshDisk.around.nesting ∧ Sample.report.Loaded Sample.freshDisk.around.nesting ∧
      Sample.report.LeavesRoom Sample.freshDisk.around.nesting ∧
      Json.readWithin Sample.freshDisk.around.nesting Sample.report.json = .ok Sample.report.toValue ∧
      Sample.freshDisk.Grounded ∧ isPageName "r.json" = false ∧
      (∃ disk', Sample.report.save "r.json" ⟨"", ""⟩ Sample.freshDisk = .ok () disk' ∧
        disk'.readJson (Path.ofText "r.json") = .ok Sample.report.toValue) ∧
      Json.points 4 (Json.writePoints [0xd83d, 0x41, 0xde00]).tail = .ok ([0xd83d, 0x41, 0xde00], []) := by
  have hlimit : 5 ≤ Sample.freshDisk.around.nesting := by decide
  have hcontent : Readable Sample.freshDisk.around.nesting Sample.reportedContent :=
    Sample.readable_reportedContent (by decide)
  have hloaded : Sample.report.Loaded Sample.freshDisk.around.nesting := {
    documents := by
      rintro _ (_ | ⟨_, ⟨⟩⟩)
      exact ⟨_, Json.read_render hcontent⟩
    whole := by
      rintro _ (_ | ⟨_, ⟨⟩⟩) hfloat
      exact Json.not_readable_of_float hfloat hcontent
    total := Nat.one_lt_pow (by decide) (by decide)
    counts := by
      rintro _ (_ | ⟨_, ⟨⟩⟩)
      exact Nat.one_lt_pow (by decide) (by decide) }
  have hroom : Sample.report.LeavesRoom Sample.freshDisk.around.nesting := by
    rintro _ (_ | ⟨_, ⟨⟩⟩) n hn
    have hdeep := (Json.readable_within hcontent).1 (Sample.readable_reportedContent (le_refl 3)) n hn
    exact Nat.lt_of_lt_of_le (Nat.add_lt_add_right hdeep 3) (by decide)
  have hdisk : Sample.freshDisk.Grounded := ⟨_, rfl⟩
  obtain ⟨_, disk', hsave, -⟩ : ∃ u disk', Sample.report.save "r.json" ⟨"", ""⟩ Sample.freshDisk = .ok u disk' ∧
      disk'.present "r.json" = .ok true := Outcome.done_of_check (by decide +kernel)
  obtain ⟨htext, hfile, hstring⟩ := ScanResult.report_reads_back hlimit hloaded
  have hapart : ¬ Points.HoldsPair [0xd83d, 0x41, 0xde00] := (Points.joined_eq_iff _).1 (by decide)
  have hhalves := (hstring (n := 4) [] (by decide) (by decide)).2 hapart
  rw [List.append_nil] at hhalves
  exact ⟨hlimit, hloaded, hroom, htext.2 hroom, hdisk, by decide,
    ⟨disk', hsave, (hfile hdisk rfl (by decide) hsave).2 hroom⟩, hhalves⟩

/-- Two halves that make a pair are not read back: the report with them in it is read with the character in their
place, as the report is that has the character. -/
theorem ScanResult.pair_of_halves_lost :
    (∀ w : Text, (⟨[], [], [w], []⟩ : ScanResult).json =
        Sample.beforeWarning ++ Json.writePoints (.ofText w) ++ Sample.behindWarning) ∧
      Json.readWithin Sample.freshDisk.around.nesting
          (Sample.beforeWarning ++ Json.writePoints [0xd83d, 0xde00] ++ Sample.behindWarning) =
        .ok (⟨[], [], ["😀"], []⟩ : ScanResult).toValue ∧
      Points.ofText "😀" = [0x1f600] := by
  have hbefore : Sample.beforeWarning = '\x7b' :: (Json.newline 1 ++ (Json.writeString "summary" ++ (": " ++
      (Json.write 1 (ScanSummary.toValue ⟨0, 0, 0, 0⟩) ++
        (Json.writeFields 0 [("actions", .list []), ("emptyFolders", .list [])] ++
          (',' :: (Json.newline 1 ++ (Json.writeString "warnings" ++ (": " ++ ('[' :: Json.newline 2)))))))))) := by
    decide +kernel
  have hbehind : Sample.behindWarning = Json.newline 1 ++ (']' :: (Json.newline 0 ++ ['\x7d'])) := by decide +kernel
  have hjson : ∀ w : Text, (⟨[], [], [w], []⟩ : ScanResult).json =
      Sample.beforeWarning ++ Json.writePoints (.ofText w) ++ Sample.behindWarning := by
    intro w
    rw [hbefore, hbehind]
    simp only [json, toValue, toFields, Json.render, Json.write, Json.writeFields, Json.writeItems, List.map_nil,
      List.map_cons, List.cons_append, List.append_assoc, List.nil_append]
    rfl
  have hsame : Json.writePoints [0xd83d, 0xde00] = Json.writePoints (.ofText "😀") := by decide
  have hreadable : Readable Sample.freshDisk.around.nesting (⟨[], [], ["😀"], []⟩ : ScanResult).toValue :=
    (readable_toValue (by decide) (Nat.pow_pos (by decide)) (by rintro _ ⟨⟩)).2 (by rintro _ ⟨⟩)
  refine ⟨hjson, ?_, by decide⟩
  rw [hsame, ← hjson]
  exact Json.read_render hreadable

end ActionSweep
