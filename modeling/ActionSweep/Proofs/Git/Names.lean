/-
The names of staged files as git lists them. A name takes up one line in printable ASCII, and the line is the name
itself unless the name has a byte that git quotes.
-/
import ActionSweep.Git.Staged
import ActionSweep.Proofs.Json.RoundTrip
import ActionSweep.Proofs.Texts

namespace ActionSweep.Git

/-- The characters that stand in a list of names. -/
def isPrintable (c : Char) : Bool := 0x20 ≤ c.toNat && c.toNat < 0x7f

theorem forall_bytes {P : UInt8 → Prop} (h : ∀ n < 256, P (UInt8.ofNat n)) (b : UInt8) : P b := by
  have := h b.toNat b.toNat_lt
  rwa [UInt8.ofNat_toNat] at this

theorem quotedByte_printable : ∀ b, (quotedByte b).all isPrintable = true := forall_bytes (by decide +kernel)

/-- A byte that is shown as it is, is a printable character other than a quote. -/
theorem plain_byte : ∀ b, isQuotedByte b = false → isPrintable (Char.ofNat b.toNat) = true ∧ Char.ofNat b.toNat ≠ '"' ∧
    UInt8.ofNat (Char.ofNat b.toNat).toNat = b := forall_bytes (by decide +kernel)

theorem shownName_printable (e : Bytes) : ∀ c ∈ shownName true e, isPrintable c = true := by
  intro c hc
  unfold shownName at hc
  rw [if_pos rfl] at hc
  split at hc
  · simp only [List.cons_append, List.mem_cons, List.mem_append, List.mem_flatMap, List.not_mem_nil, or_false] at hc
    rcases hc with rfl | ⟨b, -, hc⟩ | rfl
    · decide
    · exact List.all_eq_true.1 (quotedByte_printable b) c hc
    · decide
  · rename_i hplain
    obtain ⟨b, hb, rfl⟩ := List.mem_map.1 hc
    have hb' : isQuotedByte b = false := by
      by_contra hq
      exact hplain (List.any_eq_true.2 ⟨b, hb, eq_true_of_ne_false hq⟩)
    exact (plain_byte b hb').1

/-- A name is shown on a line of its own. -/
theorem nameLines_eq (e : Bytes) : nameLines true e = [shownName true e] := by
  have hends : ∀ c ∈ shownName true e, endsLine c = false ∧ c ≠ '\n' := by
    intro c hc
    have hp := shownName_printable e c hc
    simp only [isPrintable, Bool.and_eq_true, decide_eq_true_eq] at hp
    constructor
    · by_contra hend
      simp only [endsLine, Bool.not_eq_false, Bool.or_eq_true, decide_eq_true_eq] at hend
      rcases hend with (rfl | rfl) | rfl <;> exact absurd hp.2 (by decide)
    · rintro rfl
      exact absurd hp.1 (by decide)
  have hsame : ((shownName true e).map fun c => if endsLine c then '\n' else c) = shownName true e := by
    conv_rhs => rw [← List.map_id (shownName true e)]
    refine List.map_congr_left fun c hc => ?_
    rw [(hends c hc).1]
    rfl
  rw [nameLines, hsame, Text.split_of_not_mem fun hmem => (hends _ hmem).2 rfl]

/-! ## Plain names -/

/-- A name of which no byte is quoted. -/
def isPlain (e : Bytes) : Bool := !e.any isQuotedByte

theorem plain_cons {b : UInt8} {e : Bytes} (h : isPlain (b :: e) = true) : isQuotedByte b = false ∧ isPlain e = true := by
  simpa [isPlain] using h

theorem shownName_plain {e : Bytes} (h : isPlain e = true) : shownName true e = e.map fun b => Char.ofNat b.toNat := by
  rw [shownName, if_pos rfl, if_neg (by simpa [isPlain] using h)]

/-- A name that is not plain is shown in quotes. -/
theorem shownName_quoted {e : Bytes} (h : isPlain e = false) : (shownName true e).head? = some '"' := by
  rw [shownName, if_pos rfl, if_pos (by simpa [isPlain] using h)]
  rfl

theorem encode_shownName : ∀ {e : Bytes}, isPlain e = true → Utf8.encode (e.map fun b => Char.ofNat b.toNat) = e
  | [], _ => rfl
  | b :: e, h => by
    obtain ⟨hb, he⟩ := plain_cons h
    obtain ⟨hprint, -, hback⟩ := plain_byte b hb
    have hsmall : (Char.ofNat b.toNat).toNat < 0x80 := by
      simp only [isPrintable, Bool.and_eq_true, decide_eq_true_eq] at hprint
      omega
    rw [List.map_cons, Utf8.encode_ascii hsmall, encode_shownName he, hback]

theorem not_quoted_of_plain {t : Text} (h : isPlain (Utf8.encode t) = true) {c : Char} (hc : c ∈ t) {b : UInt8}
    (hb : b ∈ String.utf8EncodeChar c) : isQuotedByte b = false := by
  have hnone : (Utf8.encode t).any isQuotedByte = false := by simpa [isPlain] using h
  by_contra hq
  have hmem : b ∈ Utf8.encode t := List.mem_flatMap.2 ⟨c, hc, hb⟩
  exact absurd (List.any_eq_true.2 ⟨b, hmem, eq_true_of_ne_false hq⟩) (by simp [hnone])

/-- The last byte of a character beyond ASCII is beyond ASCII. -/
theorem last_byte {c : Char} (h : 0x80 ≤ c.toNat) : UInt8.ofNat (c.val.toNat % 64 + 128) ∈ String.utf8EncodeChar c := by
  have hc : ¬ c.val.toNat ≤ 127 := Nat.not_le.2 h
  rw [String.utf8EncodeChar, if_neg hc]
  split
  · simp
  · split <;> simp

/-- Text that is plain in UTF-8 is ASCII without a quote. -/
theorem ascii_of_plain {t : Text} (h : isPlain (Utf8.encode t) = true) : ∀ c ∈ t, c.toNat < 0x80 ∧ c ≠ '"' := by
  intro c hc
  constructor
  · by_contra hwide
    have hquoted := not_quoted_of_plain h hc (last_byte (Nat.not_lt.1 hwide))
    have hall : ∀ n < 64, isQuotedByte (UInt8.ofNat (n + 128)) = true := by decide
    rw [hall _ (Nat.mod_lt _ (by decide))] at hquoted
    cases hquoted
  · rintro rfl
    exact absurd (not_quoted_of_plain h hc (List.mem_cons_self ..)) (by decide)

theorem shownName_encode {t : Text} (h : isPlain (Utf8.encode t) = true) : shownName true (Utf8.encode t) = t := by
  rw [shownName_plain h]
  have hascii := ascii_of_plain h
  clear h
  induction t with
  | nil => rfl
  | cons c t ih =>
    obtain ⟨⟨hc, -⟩, ht⟩ := List.forall_mem_cons.1 hascii
    have hnat : (UInt8.ofNat c.toNat).toNat = c.toNat := by
      rw [UInt8.toNat_ofNat']
      omega
    rw [Utf8.encode_ascii hc, List.map_cons, hnat, Char.ofNat_toNat, ih ht]

/-! ## The lines of a list -/

/-- Whether a path is one of the lines in which some names are listed: a plain path is if it is one of the names, and
any other is only if it spells the quotes and backslashes of one that is no plain name. -/
def isLine (names : List Bytes) (path : Text) : Bool :=
  if isPlain (Utf8.encode path) then names.contains (Utf8.encode path)
  else names.any fun e => !isPlain e && shownName true e = path

theorem contains_lines (names : List Bytes) (path : Text) : (names.flatMap (nameLines true)).contains path = isLine names path := by
  have hmem : (names.flatMap (nameLines true)).contains path = true ↔ ∃ e ∈ names, shownName true e = path := by
    simp [nameLines_eq, eq_comm]
  rw [Bool.eq_iff_iff, hmem, isLine]
  split
  · rename_i hplain
    rw [List.contains_iff_mem]
    constructor
    · rintro ⟨e, he, rfl⟩
      cases hp : isPlain e with
      | true => rwa [shownName_plain hp, encode_shownName hp]
      | false =>
        have hquote : '"' ∈ shownName true e := List.mem_of_mem_head? (shownName_quoted hp)
        exact absurd rfl (ascii_of_plain hplain _ hquote).2
    · exact fun hname => ⟨_, hname, shownName_encode hplain⟩
  · rename_i hplain
    simp only [List.any_eq_true, Bool.and_eq_true, Bool.not_eq_true', decide_eq_true_eq]
    constructor
    · rintro ⟨e, he, rfl⟩
      refine ⟨e, he, ?_, rfl⟩
      by_contra hp
      rw [Bool.not_eq_false] at hp
      exact hplain (by rwa [shownName_plain hp, encode_shownName hp])
    · rintro ⟨e, he, -, hshown⟩
      exact ⟨e, he, hshown⟩

/-- A path that is on the list of lines but not among the names begins with a quote. -/
theorem quote_of_isLine {names : List Bytes} {path : Text} (h : isLine names path = true) (hname : Utf8.encode path ∉ names) :
    path.head? = some '"' := by
  unfold isLine at h
  split at h
  · exact absurd (List.contains_iff_mem.1 h) hname
  · obtain ⟨e, -, he⟩ := List.any_eq_true.1 h
    obtain ⟨hquoted, rfl⟩ : isPlain e = false ∧ shownName true e = path := by simpa using he
    exact shownName_quoted hquoted

end ActionSweep.Git
