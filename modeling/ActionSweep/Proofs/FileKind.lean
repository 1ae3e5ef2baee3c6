/-
Names that tell that a file is text.
-/
import ActionSweep.FileKind
import ActionSweep.Key
import ActionSweep.Proofs.Texts
import ActionSweep.Proofs.Files.Path

namespace ActionSweep.FileKind

theorem baseName_slash (t : Text) {name : Text} (h : '/' ∉ name) : baseName (t ++ '/' :: name) = name := by
  unfold baseName
  rw [List.reverse_append, List.reverse_cons, List.append_assoc, List.takeWhile_append_of_pos, List.singleton_append,
    List.takeWhile_cons_of_neg (by decide), List.append_nil, List.reverse_reverse]
  intro c hc
  exact decide_eq_true fun he => h (he ▸ List.mem_reverse.1 hc)

theorem baseName_text (a : Anchor) {front : List Text} (hfront : front ≠ []) {name : Text} (h : '/' ∉ name) :
    baseName (Path.mk a (front ++ [name])).text = name := by
  rw [Path.text_of_parts_ne_nil (by simp)]
  show baseName (a.text ++ Text.join "/" (front ++ [name])) = name
  rw [Text.join_append (List.cons_ne_nil name []) hfront, List.append_assoc, ← List.append_assoc]
  exact baseName_slash _ h

/-- What follows the last dot of a name, if something other than dots stands before it. -/
theorem extension_eq {name front rest : Text} (hname : name = front ++ '.' :: rest) (hrest : '.' ∉ rest)
    (h : extension name ≠ []) : extension name = Text.lower rest := by
  obtain ⟨dots, body, hsplit, -, hbody, hdots, hhead⟩ := Text.exists_run (· = '.') name
  have hdot : body.contains '.' = true := by
    unfold extension at h
    rw [hbody] at h
    by_contra hno
    exact h (if_neg hno)
  -- the dots at the beginning end before the last dot
  have hfront : ∃ u, body = u ++ '.' :: rest := by
    rcases List.append_eq_append_iff.1 (hsplit.symm.trans hname) with ⟨u, rfl, hu⟩ | ⟨u, rfl, hu⟩
    · exact ⟨u, hu⟩
    · cases u with
      | nil => exact ⟨[], hu.symm⟩
      | cons c u =>
        obtain ⟨rfl, rfl⟩ := List.cons.inj hu
        exact absurd (List.mem_append_right u (List.contains_iff_mem.1 hdot)) hrest
  obtain ⟨u, hu⟩ := hfront
  unfold extension
  rw [hbody]
  dsimp only
  rw [if_pos hdot, hu, List.reverse_append, List.reverse_cons, List.append_assoc, List.takeWhile_append_of_pos,
    List.singleton_append, List.takeWhile_cons_of_neg (by decide), List.append_nil, List.reverse_reverse]
  intro c hc
  exact decide_eq_true fun he => hrest (he ▸ List.mem_reverse.1 hc)

theorem ofName_of_extension {name : Text} (h : listed textExtensions (extension name) = true) : ofName name = some true := by
  unfold ofName
  rw [h, Bool.or_true, if_pos rfl]

/-- A JSON file is text by its name, unless the name is nothing but dots in front of the ending. -/
theorem ofName_json {name : Text} (hend : Key.extension <:+ name) (h : extension name ≠ []) : ofName name = some true := by
  obtain ⟨front, rfl⟩ := hend
  refine ofName_of_extension ?_
  rw [extension_eq (show front ++ Key.extension = front ++ '.' :: "json".toList from rfl) (by decide) h]
  decide +kernel

theorem isTextFile_of_name {disk : Disk} {path : Text} {place : List Text} {b : Bytes}
    (h : disk.resolve .entry path = .ok (.found place (.file b))) (hname : ofName (baseName path) = some true) :
    isTextFile disk path = true := by
  unfold isTextFile
  rw [h]
  dsimp only
  unfold isText
  rw [hname]
  rfl

end ActionSweep.FileKind
