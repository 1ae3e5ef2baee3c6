/-
Canonical keys. A key begins with a slash or with the mark of library actions, and never with the folder of declarations
in front of a URL. What begins so is looked up as it is spelled, so a key that is looked up again changes exactly if it
still ends in the extension of declaration files. For all readings the extension is dropped last, and the beginning is
read without it, so a reference may have the extension or leave it out.
-/
import ActionSweep.Proofs.Key.Reading

namespace ActionSweep

namespace Key

/-! ## The beginning of keys -/

/-- A text that begins as a key does. -/
inductive Canonical : Text → Prop
  | slash (rest : Text) (happ : ¬ appFolder ++ apiMark <+: '/' :: rest) : Canonical ('/' :: rest)
  | lib (rest : Text) : Canonical (libMark ++ rest)

theorem canonical_iff {t : Text} :
    Canonical t ↔ ['/'] <+: t ∧ ¬ appFolder ++ apiMark <+: t ∨ libMark <+: t := by
  constructor
  · intro h
    cases h with
    | slash rest happ => exact .inl ⟨List.prefix_append ['/'] rest, happ⟩
    | lib rest => exact .inr (List.prefix_append ..)
  · rintro (⟨⟨rest, rfl⟩, happ⟩ | ⟨rest, rfl⟩)
    · exact .slash rest happ
    · exact .lib rest

theorem Reads.canonical {raw key : Text} (h : Reads raw key) : Canonical key := by
  cases h with
  | appApi rest => exact .slash (['a', 'p', 'i', '/'] ++ dropExtension rest) (by simp [appFolder, apiMark])
  | slash rest happ =>
    -- the key is a beginning of the reference, so what begins the one begins the other
    exact .slash _ fun hkey => happ (hkey.trans (List.cons_prefix_cons.2 ⟨rfl, dropExtension_begins rest⟩))
  | lib rest => exact .lib _
  | bare h => exact .lib _

namespace Canonical

variable {t : Text}

theorem not_app (h : Canonical t) : ¬ appFolder ++ apiMark <+: t := by
  cases h with
  | slash rest happ => exact happ
  | lib rest => simp [appFolder, libMark]

/-- What begins as a key is looked up as it is spelled. -/
theorem ofReference_eq (h : Canonical t) : ofReference .action t = some (dropExtension t) := by
  cases h with
  | slash rest happ =>
    rw [ofReference_slash .action happ]
    exact congrArg some (dropExtension_slash [] rest).symm
  | lib rest =>
    rw [ofReference_lib]
    exact congrArg some (dropExtension_slash ['l', 'i', 'b'] rest).symm

theorem append_extension (h : Canonical t) : Canonical (t ++ extension) := by
  cases h with
  | slash rest happ => exact .slash (rest ++ extension) fun hmark => happ (begins_of_extension (by decide) hmark)
  | lib rest =>
    rw [List.append_assoc]
    exact .lib _

end Canonical

/-- The keys of references are the texts that begin so. -/
theorem exists_reference_iff {key : Text} : (∃ raw, ofReference .action raw = some key) ↔ Canonical key := by
  constructor
  · rintro ⟨raw, h⟩
    exact (ofReference_iff.1 h).canonical
  · intro h
    exact ⟨key ++ extension, by rw [h.append_extension.ofReference_eq, dropExtension_append]⟩

/-! ## Extensions that are added -/

/-- What a reference is read as before the extension is dropped. -/
def fullKey (lookup : Lookup) (raw : Text) : Text :=
  if apiMark.isPrefixOf raw then raw
  else if (appFolder ++ apiMark).isPrefixOf raw then raw.drop appFolder.length
  else if lookup = .action && !(['/'].isPrefixOf raw) && !libMark.isPrefixOf raw then libMark ++ raw
  else raw

theorem ofReference_eq_fullKey (lookup : Lookup) (raw : Text) : ofReference lookup raw =
    if raw.allBlank || ['#'].isPrefixOf raw then none else some (dropExtension (fullKey lookup raw)) := by
  unfold ofReference fullKey
  split_ifs <;> rfl

theorem isPrefixOf_extension {mark : Text} (hdot : '.' ∉ mark) (t : Text) :
    mark.isPrefixOf (t ++ extension) = mark.isPrefixOf t := by
  rw [Bool.eq_iff_iff, List.isPrefixOf_iff_prefix, List.isPrefixOf_iff_prefix]
  exact begins_extension_iff hdot

/-- The beginning is read in the same way with the extension at the end. -/
theorem fullKey_extension (lookup : Lookup) (raw : Text) :
    fullKey lookup (raw ++ extension) = fullKey lookup raw ++ extension := by
  unfold fullKey
  rw [isPrefixOf_extension (by decide), isPrefixOf_extension (by decide), isPrefixOf_extension (by decide),
    isPrefixOf_extension (by decide)]
  split
  · rfl
  split
  · rename_i happ
    obtain ⟨rest, rfl⟩ := List.isPrefixOf_iff_prefix.1 happ
    rw [List.append_assoc, List.append_assoc, List.drop_left, List.append_assoc, List.drop_left, List.append_assoc]
  split
  · rw [List.append_assoc]
  · rfl

/-- What replaces the beginning does not change whether the extension is at the end. -/
theorem extension_fullKey_iff (lookup : Lookup) (raw : Text) :
    extension <:+ fullKey lookup raw ↔ extension <:+ raw := by
  unfold fullKey
  split
  · rfl
  split
  · rename_i happ
    obtain ⟨rest, rfl⟩ := List.isPrefixOf_iff_prefix.1 happ
    rw [List.append_assoc, List.drop_left]
    -- every mark ends in a slash, and the extension has none
    exact (extension_behind_slash ['/', 'a', 'p', 'i'] rest).trans
      (extension_behind_slash ['/', 'a', 'p', 'p', '/', 'a', 'p', 'i'] rest).symm
  split
  · exact extension_behind_slash ['l', 'i', 'b'] raw
  · rfl

/-- A text has a key unless it is blank or a bare fragment, whatever it is looked up as. -/
theorem ofReference_eq_none_iff {lookup : Lookup} {raw : Text} :
    ofReference lookup raw = none ↔ (raw.allBlank || ['#'].isPrefixOf raw) = true := by
  rw [ofReference_eq_fullKey]
  split
  · rename_i h
    exact iff_of_true rfl h
  · rename_i h
    exact iff_of_false (Option.some_ne_none _) h

/-- The extension that is added to a reference is the one that is dropped. -/
theorem ofReference_extension (lookup : Lookup) {raw : Text} (hfragment : ¬ ['#'] <+: raw) :
    ofReference lookup (raw ++ extension) = some (fullKey lookup raw) := by
  have hname : ¬ (Text.allBlank (raw ++ extension) || ['#'].isPrefixOf (raw ++ extension)) = true := by
    rw [allBlank_extension, isPrefixOf_extension (by decide), Bool.false_or, List.isPrefixOf_iff_prefix]
    exact hfragment
  rw [ofReference_eq_fullKey, if_neg hname, fullKey_extension, dropExtension_append]

/-! ## Looking up again -/

/-- Keys are canonical: each begins with a slash or with the mark of library actions and not with the folder of
declarations, and as a reference it names itself unless it ends in the extension. A reference that does not end in the
extension has the same key with it. -/
theorem keys_canonical (raw : Text) :
    (∀ key, ofReference .action raw = some key →
      (['/'] <+: key ∨ libMark <+: key) ∧ ¬ appFolder ++ apiMark <+: key ∧
      ofReference .action key = some (dropExtension key) ∧
      (ofReference .action key = ofReference .action raw ↔ ¬ extension <:+ key)) ∧
    ∀ asked, ofReference asked raw ≠ none → ∀ lookup, ∃ key, ofReference lookup raw = some key ∧
      (ofReference lookup (raw ++ extension) = some key ↔ ¬ extension <:+ raw) := by
  constructor
  · intro key hraw
    have hkey : Canonical key := exists_reference_iff.1 ⟨raw, hraw⟩
    refine ⟨(canonical_iff.1 hkey).imp_left And.left, hkey.not_app, hkey.ofReference_eq, ?_⟩
    rw [hkey.ofReference_eq, hraw, Option.some_inj, dropExtension_eq_self_iff]
  · intro asked hasked lookup
    have hname : ¬ (raw.allBlank || ['#'].isPrefixOf raw) = true := fun h => hasked (ofReference_eq_none_iff.2 h)
    have hfragment : ¬ ['#'] <+: raw := fun h =>
      hname (Bool.or_eq_true_iff.2 (.inr (List.isPrefixOf_iff_prefix.2 h)))
    refine ⟨dropExtension (fullKey lookup raw), by rw [ofReference_eq_fullKey, if_neg hname], ?_⟩
    rw [ofReference_extension lookup hfragment, Option.some_inj, eq_comm, dropExtension_eq_self_iff,
      extension_fullKey_iff]

/-- Of an extension that is spelled twice one stays in the key, and the key is then read without it. -/
theorem sample_keys_canonical :
    ofReference .action "mail.json.json" = some "lib/mail.json" ∧
      ofReference .action "lib/mail.json" = some "lib/mail" ∧
      ofReference .action "lib/mail.json" ≠ ofReference .action "mail.json.json" ∧
      ∀ lookup, ∃ key, ofReference lookup "mail" = some key ∧ ofReference lookup "mail.json" = some key := by
  have htwice : ofReference .action "mail.json.json" = some "lib/mail.json" := by decide
  obtain ⟨-, -, hagain, hsame⟩ := (keys_canonical "mail.json.json").1 "lib/mail.json" htwice
  refine ⟨htwice, hagain, fun h => hsame.1 h (by decide), fun lookup => ?_⟩
  obtain ⟨key, hkey, hextended⟩ := (keys_canonical "mail").2 .route (by decide) lookup
  exact ⟨key, hkey, hextended.2 (by decide)⟩

end Key

end ActionSweep
