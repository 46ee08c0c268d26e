import Calcsheet.Proofs.Lists
import Calcsheet.Proofs.Xml.Spelling
import Mathlib.Data.List.TakeWhile

/-!
# Reading the text of a tag

In a tag stand raw attributes, each after a blank and with its value in quotes (`Spelled`). Such a
text does not end the tag (`Spelled.cutTag`), and each attribute in it is read, if no key is there
twice (`Spelled.attempts`). After a label, it is a tag (`IsLabel.lex_opening`).
-/

namespace Calcsheet.Xml

/-- Attributes as they stand in a tag, one after another. -/
inductive Spelled : List RawAttribute → List Char → Prop
  | nil : Spelled [] []
  | cons {key value raws q s} (notEmpty : key ≠ []) (plain : ∀ c ∈ key, isWordChar c = true)
      (noEquals : '=' ∉ key) (quote : isQuote q = true) (closed : q ∉ value)
      (rest : Spelled raws s) :
      Spelled (⟨key, value⟩ :: raws) (' ' :: key ++ '=' :: q :: value ++ q :: s)

/-! ## The end of a tag -/

theorem cutTag_plain {c : Char} {s before after : List Char} (notEnd : c ≠ '>')
    (notQuote : isQuote c = false) (h : cutTag none s = .ok (before, after)) :
    cutTag none (c :: s) = .ok (c :: before, after) := by
  simp [cutTag, notEnd, notQuote, h]

theorem cutTag_run {run s before after : List Char} (plain : ∀ c ∈ run, isWordChar c = true)
    (h : cutTag none s = .ok (before, after)) :
    cutTag none (run ++ s) = .ok (run ++ before, after) := by
  induction run with
  | nil => exact h
  | cons c rest ih =>
    obtain ⟨-, notQuote, notEnd⟩ := isWordChar_iff.1 (plain c (by simp))
    exact cutTag_plain notEnd notQuote (ih fun d hd => plain d (by simp [hd]))

theorem cutTag_value {q : Char} {value s before after : List Char} (closed : q ∉ value)
    (h : cutTag none s = .ok (before, after)) :
    cutTag (some q) (value ++ q :: s) = .ok (value ++ q :: before, after) := by
  induction value with
  | nil => simp [cutTag, h]
  | cons c rest ih =>
    simp only [List.mem_cons, not_or] at closed
    simp [cutTag, Ne.symm closed.1, ih closed.2]

theorem cutTag_quote {q : Char} {s before after : List Char} (quote : isQuote q = true)
    (h : cutTag (some q) s = .ok (before, after)) :
    cutTag none (q :: s) = .ok (q :: before, after) := by
  have notEnd : q ≠ '>' := by
    rintro rfl
    cases quote
  simp [cutTag, notEnd, quote, h]

/-- A tag does not end inside its attributes. -/
theorem Spelled.cutTag {raws : List RawAttribute} {tag s before after : List Char}
    (h : Spelled raws tag) (hs : cutTag none s = .ok (before, after)) :
    cutTag none (tag ++ s) = .ok (tag ++ before, after) := by
  induction h with
  | nil => exact hs
  | @cons key value raws q tag _ plain _ quote closed _ ih =>
    have quoted := cutTag_quote quote (cutTag_value closed ih)
    have equals := cutTag_plain (c := '=') (by decide) rfl quoted
    have whole := cutTag_plain (c := ' ') (by decide) rfl (cutTag_run plain equals)
    simpa using whole

theorem Spelled.getLast? {raws : List RawAttribute} {tag : List Char} (h : Spelled raws tag) :
    tag = [] ∨ ∃ q, isQuote q = true ∧ tag.getLast? = some q := by
  induction h with
  | nil => exact .inl rfl
  | cons _ _ _ quote _ _ ih =>
    rw [List.getLast?_append, List.getLast?_cons, Option.some_or]
    rcases ih with rfl | ⟨q, hq, last⟩
    · exact .inr ⟨_, quote, rfl⟩
    · exact .inr ⟨q, hq, by rw [last, Option.getD_some]⟩

theorem Spelled.head? {raws : List RawAttribute} {tag : List Char} (h : Spelled raws tag) :
    ∀ c ∈ tag.head?, isSpace c = true := by
  cases h with
  | nil => simp
  | cons _ _ _ _ _ _ => simp [isSpace]

/-! ## Attempts -/

theorem attempts_of_attempt? {unique : Bool} {seen : List (List Char)} {s : List Char} {a : Attempt}
    (h : attempt? (if unique then seen else []) s = some a) :
    attempts unique seen s = a.attribute? :: attempts unique (a.key?.toList ++ seen) a.rest := by
  rw [attempts]
  split
  · next none => simp [none] at h
  · next b some =>
    rw [h] at some
    cases some
    rfl

theorem attempts_nil (unique : Bool) (seen : List (List Char)) : attempts unique seen [] = [] := by
  rw [attempts]
  rfl

theorem skipSpace_cons {c : Char} (h : isSpace c = false) (s : List Char) :
    skipSpace (c :: s) = c :: s := by
  simp [skipSpace, h]

theorem skipSpace_blank (s : List Char) : skipSpace (' ' :: s) = skipSpace s :=
  rfl

theorem cutAt?_singleton {q : Char} {value : List Char} (closed : q ∉ value) (s : List Char) :
    cutAt? [q] (value ++ q :: s) = some (value, s) := by
  induction value with
  | nil => simp [cutAt?, dropMark?]
  | cons c rest ih =>
    simp only [List.mem_cons, not_or] at closed
    simp [cutAt?, dropMark?, closed.1, ih closed.2]

theorem attemptValue_quoted {key value : List Char} {q : Char} (quote : isQuote q = true)
    (closed : q ∉ value) (s : List Char) :
    attemptValue key (q :: (value ++ q :: s)) = ⟨some key, some ⟨key, value⟩, s⟩ := by
  have notSpace : isSpace q = false := by
    rw [isQuote_iff] at quote
    revert quote
    simp +contextual [isSpace, or_imp]
  rw [attemptValue, skipSpace_cons notSpace]
  simp only [quote, if_true, cutAt?_singleton closed]

theorem attempt?_spelled {seen : List (List Char)} {key value : List Char} {q : Char}
    (notEmpty : key ≠ []) (plain : ∀ c ∈ key, isWordChar c = true) (noEquals : '=' ∉ key)
    (quote : isQuote q = true) (closed : q ∉ value) (new : key ∉ seen) (s : List Char) :
    attempt? seen (' ' :: key ++ '=' :: q :: value ++ q :: s) =
      some ⟨some key, some ⟨key, value⟩, s⟩ := by
  have inKey : ∀ c ∈ key, (c != '=' && !isSpace c) = true := by
    intro c hc
    have equals : c ≠ '=' := ne_of_mem_of_not_mem hc noEquals
    simp [equals, (isWordChar_iff.1 (plain c hc)).1]
  obtain ⟨c, cs, rfl⟩ := List.exists_cons_of_ne_nil notEmpty
  have notSpace : isSpace c = false := (isWordChar_iff.1 (plain c (by simp))).1
  have skip : skipSpace (' ' :: c :: cs ++ '=' :: q :: value ++ q :: s) =
      c :: (cs ++ '=' :: q :: (value ++ q :: s)) := by
    calc skipSpace (' ' :: c :: cs ++ '=' :: q :: value ++ q :: s)
      _ = skipSpace (c :: (cs ++ '=' :: q :: (value ++ q :: s))) := by
        simp only [List.cons_append, List.append_assoc, skipSpace_blank]
      _ = _ := skipSpace_cons notSpace _
  have inKey : ∀ d ∈ cs, (d != '=' && !isSpace d) = true := fun d hd => inKey d (by simp [hd])
  have stop : ∀ d ∈ ('=' :: q :: (value ++ q :: s)).head?, (d != '=' && !isSpace d) = false := by
    simp
  rw [attempt?, skip]
  simp only [Text.takeWhile_run inKey stop, Text.dropWhile_run inKey stop, attemptAfterKey,
    skipSpace_cons (c := '=') rfl, List.contains_eq_mem, new, decide_false, Bool.false_eq_true,
    if_false, attemptValue_quoted quote closed]

/-- Each raw attribute is read, if no key is there twice. -/
theorem Spelled.attempts {raws : List RawAttribute} {tag : List Char} (h : Spelled raws tag)
    (unique : Bool) (seen : List (List Char))
    (new : unique = true → (raws.map RawAttribute.key).Nodup ∧
      ∀ key ∈ raws.map RawAttribute.key, key ∉ seen) :
    attempts unique seen tag = raws.map some := by
  induction h generalizing seen with
  | nil => exact attempts_nil unique seen
  | @cons key value raws q s notEmpty plain noEquals quote closed rest ih =>
    have new' : key ∉ (if unique then seen else []) := by
      cases unique with
      | false => simp
      | true => exact (new rfl).2 key (by simp)
    rw [attempts_of_attempt? (attempt?_spelled notEmpty plain noEquals quote closed new' s),
      List.map_cons]
    refine congrArg _ (ih _ fun huniq => ?_)
    obtain ⟨nodup, notSeen⟩ := new huniq
    rw [List.map_cons, List.nodup_cons] at nodup
    refine ⟨nodup.2, fun k hk => ?_⟩
    simp only [Option.toList_some, List.singleton_append, List.mem_cons, not_or]
    refine ⟨fun same => nodup.1 (same ▸ hk), notSeen k (by simp [hk])⟩

theorem written_eq {raws : List RawAttribute} {name tag : List Char} (h : Spelled raws tag) :
    (Tag.mk name tag).written = raws := by
  have read := h.attempts false [] (by simp)
  have all : (raws.map some).takeWhile Option.isSome = raws.map some :=
    List.takeWhile_eq_self_iff.2 (by simp)
  simp only [Tag.written, read, all, List.filterMap_map, Function.comp_def, id, List.filterMap_some]

theorem lexMarkup_of_ne {c : Char} (slash : c ≠ '/') (question : c ≠ '?') (bang : c ≠ '!')
    (s : List Char) : lexMarkup (c :: s) = lexOpening (c :: s) := by
  unfold lexMarkup
  split <;> simp_all

theorem closingName_eq {name : List Char} (notEmpty : name ≠ [])
    (notSpace : ∀ c ∈ name, isSpace c = false) : closingName name = name := by
  have some : ¬ name.all isSpace = true := by
    obtain ⟨c, cs, rfl⟩ := List.exists_cons_of_ne_nil notEmpty
    simp [notSpace c]
  rw [closingName, if_neg some, List.reverse_eq_iff]
  cases h : name.reverse with
  | nil => rfl
  | cons c cs =>
    have hc : c ∈ name := by
      rw [← List.mem_reverse, h]
      simp
    rw [List.dropWhile_cons_of_neg (by simp [notSpace c hc])]

/-! ## Whole tags -/

/-- A word that can be the name in a tag. -/
structure IsLabel (label : List Char) : Prop where
  notEmpty : label ≠ []
  plain : ∀ c ∈ label, isWordChar c = true
  first : ∀ c ∈ label.head?, c ≠ '/' ∧ c ≠ '?' ∧ c ≠ '!'
  last : label.getLast? ≠ some '/'

namespace IsLabel

variable {label tag : List Char} {raws : List RawAttribute}

theorem notSpace (isLabel : IsLabel label) : ∀ c ∈ label, isSpace c = false :=
  fun c hc => (isWordChar_iff.1 (isLabel.plain c hc)).1

theorem ofText_eq (isLabel : IsLabel label) (spelled : Spelled raws tag) :
    Tag.ofText (label ++ tag) = ⟨label, tag⟩ := by
  have inName : ∀ c ∈ label, (!isSpace c) = true := by simpa using isLabel.notSpace
  have stop : ∀ c ∈ tag.head?, (!isSpace c) = false := by simpa using spelled.head?
  rw [Tag.ofText, Text.takeWhile_run inName stop, Text.dropWhile_run inName stop]

theorem lex_eq_lexOpening (isLabel : IsLabel label) (s : List Char) :
    lex '<' (label ++ s) = lexOpening (label ++ s) := by
  obtain ⟨c, cs, rfl⟩ := List.exists_cons_of_ne_nil isLabel.notEmpty
  obtain ⟨slash, question, bang⟩ := isLabel.first c rfl
  rw [lex, if_pos rfl, List.cons_append]
  exact lexMarkup_of_ne slash question bang _

theorem getLast?_ne_slash (isLabel : IsLabel label) (spelled : Spelled raws tag) :
    (label ++ tag).getLast? ≠ some '/' := by
  rcases spelled.getLast? with rfl | ⟨q, quote, hq⟩
  · rw [List.append_nil]
    exact isLabel.last
  · intro last
    rw [List.getLast?_append, hq, Option.some_or, Option.some.injEq] at last
    rw [last] at quote
    cases quote

theorem cutTag_eq (isLabel : IsLabel label) (spelled : Spelled raws tag)
    {s before after : List Char} (hs : cutTag none s = .ok (before, after)) :
    cutTag none (label ++ tag ++ s) = .ok (label ++ tag ++ before, after) := by
  rw [List.append_assoc, List.append_assoc]
  exact cutTag_run isLabel.plain (spelled.cutTag hs)

theorem lex_opening (isLabel : IsLabel label) (spelled : Spelled raws tag) (s : List Char) :
    lex '<' (label ++ tag ++ '>' :: s) = (.opening ⟨label, tag⟩, s) := by
  have cut := isLabel.cutTag_eq spelled (s := '>' :: s) rfl
  rw [List.append_nil] at cut
  rw [List.append_assoc, isLabel.lex_eq_lexOpening, ← List.append_assoc, lexOpening, cut]
  simp only [if_neg (isLabel.getLast?_ne_slash spelled), isLabel.ofText_eq spelled]

theorem lex_single (isLabel : IsLabel label) (spelled : Spelled raws tag) (s : List Char) :
    lex '<' (label ++ tag ++ "/>".toList ++ s) = (.single ⟨label, tag⟩, s) := by
  have cut := isLabel.cutTag_eq spelled (s := '/' :: '>' :: s) rfl
  have last : (label ++ tag ++ ['/']).getLast? = some '/' := by simp
  rw [List.append_assoc, List.append_assoc, isLabel.lex_eq_lexOpening, ← List.append_assoc]
  show lexOpening (label ++ tag ++ '/' :: '>' :: s) = _
  rw [lexOpening, cut]
  simp only [last, if_true, List.dropLast_concat, isLabel.ofText_eq spelled]

theorem lex_closing (isLabel : IsLabel label) (s : List Char) :
    lex '<' ('/' :: (label ++ '>' :: s)) = (.closing label, s) := by
  have cut := cutTag_run isLabel.plain (s := '>' :: s) rfl
  rw [List.append_nil] at cut
  show lexClosing _ = _
  rw [lexClosing, cut]
  simp only [closingName_eq isLabel.notEmpty isLabel.notSpace]

end IsLabel

end Calcsheet.Xml
