/-
Pages read again. A page is taken apart into tags and the characters outside of them, an element is what stands between a
tag of its name and the next one that ends it, and entities are put back into the characters they stand for. No text that
was escaped begins or ends a tag, and each is put back as it was.
-/
import ActionSweep.Report.Page

namespace ActionSweep

/-! ## Entities -/

namespace Text

/-- The entities, with the characters they stand for. -/
def entities : List (Text × Char) :=
  [("&amp;", '&'), ("&lt;", '<'), ("&gt;", '>'), ("&quot;", '"'), ("&#x27;", '\'')]

/-- Puts back the characters that entities stand for. The first `skip` characters belong to an entity that was put back. -/
def unescapedFrom (skip : Nat) : Text → Text
  | [] => []
  | c :: t =>
    match skip with
    | n + 1 => unescapedFrom n t
    | 0 =>
      match entities.find? fun e => e.1.isPrefixOf (c :: t) with
      | some e => e.2 :: unescapedFrom (e.1.length - 1) t
      | none => c :: unescapedFrom 0 t

def unescaped (t : Text) : Text := unescapedFrom 0 t

theorem unescapedFrom_entity (c : Char) (rest : Text) : unescapedFrom 0 (entity c ++ rest) = c :: unescapedFrom 0 rest := by
  unfold entity
  split
  · rfl
  · rfl
  · rfl
  · rfl
  · rfl
  · rename_i hamp _ _ _ _
    have hfirst : ∀ e ∈ entities, e.1.head? = some '&' := by decide
    have hnone : entities.find? (fun e => e.1.isPrefixOf (c :: rest)) = none := by
      refine List.find?_eq_none.2 fun e he hbegins => hamp ?_
      obtain ⟨t, ht⟩ := List.head?_eq_some_iff.1 (hfirst e he)
      rw [ht, List.isPrefixOf_cons_cons, Bool.and_eq_true] at hbegins
      exact (eq_of_beq hbegins.1).symm
    rw [List.singleton_append, unescapedFrom, hnone]

/-- Escaping loses nothing. -/
theorem unescaped_escaped (t : Text) : unescaped (escaped t) = t := by
  unfold unescaped
  induction t with
  | nil => rfl
  | cons c t ih => rw [escaped, List.flatMap_cons, unescapedFrom_entity, ← escaped, ih]

/-- The characters that begin or end a tag, or the value of an attribute. -/
def markupChars : List Char := ['<', '>', '"', '\'']

theorem entity_unmarked (c : Char) : (entity c).all (· ∉ markupChars) = true := by
  unfold entity
  split
  · decide
  · decide
  · decide
  · decide
  · decide
  · rename_i _ hopen hclose hquote hmark
    simpa [markupChars] using ⟨hopen, hclose, hquote, hmark⟩

/-- No text begins or ends a tag once it is escaped. -/
theorem not_markup_of_mem_escaped {t : Text} {c : Char} (h : c ∈ escaped t) : c ∉ markupChars := by
  obtain ⟨d, -, hc⟩ := List.mem_flatMap.1 h
  exact of_decide_eq_true (List.all_eq_true.1 (entity_unmarked d) c hc)

end Text

namespace Page

/-! ## Tags -/

/-- A token of a page: what is between angle brackets, or a character outside of them. -/
inductive Token
  | tag (inside : Text)
  | char (c : Char)
deriving Repr, DecidableEq

/-- The tokens of a page. Where a tag is open, the first argument holds what was read of it. -/
def tokensFrom : Option Text → Text → List Token
  | _, [] => []
  | none, c :: t => if c = '<' then tokensFrom (some []) t else .char c :: tokensFrom none t
  | some inside, c :: t =>
    if c = '>' then .tag inside :: tokensFrom none t else tokensFrom (some (inside ++ [c])) t

def tokens (page : Text) : List Token := tokensFrom none page

/-- The open tag behind a text, if there is one. -/
def openTag : Option Text → Text → Option Text
  | tag, [] => tag
  | none, c :: t => openTag (if c = '<' then some [] else none) t
  | some inside, c :: t => openTag (if c = '>' then none else some (inside ++ [c])) t

/-- A text gives some tokens and leaves a tag open or none, whatever follows it. -/
def Reads (before : Option Text) (t : Text) (ts : List Token) (after : Option Text) : Prop :=
  ∀ rest, tokensFrom before (t ++ rest) = ts ++ tokensFrom after rest

/-- The tokens of a text without tags. -/
def plain (t : Text) : List Token := t.map .char

theorem Reads.append {s u v : Option Text} {a b : Text} {ts us : List Token} (h : Reads s a ts u) (h' : Reads u b us v) :
    Reads s (a ++ b) (ts ++ us) v := by
  intro rest
  rw [List.append_assoc, h, h', List.append_assoc]

theorem reads_self : ∀ (s : Option Text) (t : Text), Reads s t (tokensFrom s t) (openTag s t)
  | none, [], rest => rfl
  | some _, [], rest => rfl
  | none, c :: t, rest => by
    rw [List.cons_append, tokensFrom, tokensFrom, openTag]
    split
    · exact reads_self _ t rest
    · rw [reads_self none t rest]
      rfl
  | some inside, c :: t, rest => by
    rw [List.cons_append, tokensFrom, tokensFrom, openTag]
    split
    · rw [reads_self none t rest]
      rfl
    · exact reads_self _ t rest

theorem reads_of_check {s u : Option Text} {t : Text} {ts : List Token} (h : tokensFrom s t = ts ∧ openTag s t = u) :
    Reads s t ts u := by
  obtain ⟨rfl, rfl⟩ := h
  exact reads_self s t

theorem reads_plain {t : Text} (h : '<' ∉ t) : Reads none t (plain t) none := by
  intro rest
  induction t with
  | nil => rfl
  | cons c t ih =>
    obtain ⟨hc, ht⟩ := List.ne_and_not_mem_of_not_mem_cons h
    rw [List.cons_append, tokensFrom, if_neg hc.symm, ih ht]
    rfl

theorem Reads.flatMap {α : Type} {f : α → Text} {g : α → List Token} (h : ∀ a, Reads none (f a) (g a) none) :
    ∀ l : List α, Reads none (l.flatMap f) (l.flatMap g) none
  | [] => fun _ => rfl
  | a :: l => (h a).append (Reads.flatMap h l)

/-! ## Elements -/

/-- Whether a token is a tag of a name, with attributes or without. -/
def Token.opens (name : Text) : Token → Bool
  | .tag inside => inside.takeWhile (!isBlank ·) = name
  | .char _ => false

/-- Whether a token is the end of an element of a name. -/
def Token.closes (name : Text) (t : Token) : Bool := t = .tag ('/' :: name)

/-- What stands in the elements of a name. Where an element is open, the first of the two lists holds what was read of it. -/
def elementsFrom (name : Text) : Option (List Token) → List Token → List (List Token)
  | _, [] => []
  | none, t :: ts => if t.opens name then elementsFrom name (some []) ts else elementsFrom name none ts
  | some inside, t :: ts =>
    if t.closes name then inside :: elementsFrom name none ts else elementsFrom name (some (inside ++ [t])) ts

def elements (name : Text) (ts : List Token) : List (List Token) := elementsFrom name none ts

/-- The characters outside of tags. -/
def text (ts : List Token) : Text := ts.filterMap fun t => match t with
  | .char c => some c
  | .tag _ => none

/-- The tags. -/
def tags (ts : List Token) : List Text := ts.filterMap fun t => match t with
  | .tag inside => some inside
  | .char _ => none

/-- Some tokens have some elements of a name, whatever follows them. -/
def Yields (name : Text) (ts : List Token) (es : List (List Token)) : Prop :=
  ∀ rest, elements name (ts ++ rest) = es ++ elements name rest

variable {name : Text} {ts us inside : List Token} {es es' : List (List Token)}

theorem Yields.elements (h : Yields name ts es) : elements name ts = es := by
  have hend := h []
  rwa [List.append_nil, show Page.elements name [] = [] from rfl, List.append_nil] at hend

theorem Yields.append (h : Yields name ts es) (h' : Yields name us es') : Yields name (ts ++ us) (es ++ es') := by
  intro rest
  rw [List.append_assoc, h, h', List.append_assoc]

theorem Yields.flatMap {α : Type} {f : α → List Token} {g : α → List (List Token)} :
    ∀ {l : List α}, (∀ a ∈ l, Yields name (f a) (g a)) → Yields name (l.flatMap f) (l.flatMap g)
  | [], _ => fun _ => rfl
  | a :: _, h => (h a (List.mem_cons_self ..)).append (Yields.flatMap fun b hb => h b (List.mem_cons_of_mem a hb))

/-- Tokens that begin no element have none. -/
theorem yields_none : ∀ {ts : List Token}, (∀ t ∈ ts, t.opens name = false) → Yields name ts []
  | [], _, rest => rfl
  | t :: ts, h, rest => by
    have ih := yields_none (fun u hu => h u (List.mem_cons_of_mem t hu)) rest
    rw [Page.elements] at ih ⊢
    rw [List.cons_append, elementsFrom, h t (List.mem_cons_self ..), if_neg Bool.false_ne_true, ih]

theorem elementsFrom_inside (h : ∀ t ∈ inside, t.closes name = false) (before rest : List Token) :
    elementsFrom name (some before) (inside ++ .tag ('/' :: name) :: rest) = (before ++ inside) :: elements name rest := by
  induction inside generalizing before with
  | nil =>
    rw [List.nil_append, elementsFrom, if_pos (by simp [Token.closes]), List.append_nil]
    rfl
  | cons t inside ih =>
    rw [List.cons_append, elementsFrom, h t (List.mem_cons_self ..), if_neg Bool.false_ne_true,
      ih fun u hu => h u (List.mem_cons_of_mem t hu), List.append_assoc, List.singleton_append]

/-- An element stands between a tag of its name and the end of that name. -/
theorem yields_element {t : Token} (ht : t.opens name = true) (h : ∀ t ∈ inside, t.closes name = false) :
    Yields name (t :: (inside ++ [.tag ('/' :: name)])) [inside] := by
  intro rest
  rw [Page.elements, List.cons_append, elementsFrom, if_pos ht, List.append_assoc, List.singleton_append,
    elementsFrom_inside h, List.nil_append]
  rfl

/-! ## Texts and tags -/

@[simp]
theorem tags_append (ts us : List Token) : tags (ts ++ us) = tags ts ++ tags us := List.filterMap_append

@[simp]
theorem tags_tag (inside : Text) (ts : List Token) : tags (.tag inside :: ts) = inside :: tags ts := rfl

@[simp]
theorem tags_nil : tags [] = [] := rfl

@[simp]
theorem tags_plain (t : Text) : tags (plain t) = [] := by
  induction t with
  | nil => rfl
  | cons c t ih => exact ih

@[simp]
theorem text_append (ts us : List Token) : text (ts ++ us) = text ts ++ text us := List.filterMap_append

@[simp]
theorem text_tag (inside : Text) (ts : List Token) : text (.tag inside :: ts) = text ts := rfl

@[simp]
theorem text_nil : text [] = [] := rfl

@[simp]
theorem text_plain (t : Text) : text (plain t) = t := by
  induction t with
  | nil => rfl
  | cons c t ih => exact congrArg (c :: ·) ih

theorem tag_mem_tags {inside : Text} (h : .tag inside ∈ ts) : inside ∈ tags ts :=
  List.mem_filterMap.2 ⟨.tag inside, h, rfl⟩

/-- Only tags begin elements. -/
theorem not_opens_of_tags (h : ∀ inside ∈ tags ts, (Token.tag inside).opens name = false) :
    ∀ t ∈ ts, t.opens name = false := by
  intro t ht
  cases t with
  | tag inside => exact h inside (tag_mem_tags ht)
  | char c => rfl

/-- Only tags end elements. -/
theorem not_closes_of_tags (h : '/' :: name ∉ tags ts) : ∀ t ∈ ts, t.closes name = false := by
  intro t ht
  rw [Token.closes, decide_eq_false_iff_not]
  rintro rfl
  exact h (tag_mem_tags ht)

theorem yields_plain (t : Text) : Yields name (plain t) [] := yields_none (not_opens_of_tags (by simp))

end Page

end ActionSweep
