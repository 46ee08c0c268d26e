import Calcsheet.Proofs.Attributes
import Calcsheet.Proofs.Xml.Tags
import Calcsheet.Xml.Scope

/-!
# Reading tags as they are written

Each raw attribute of a written tag declares a prefix or is an attribute of the element (`Means`).
So the tag gives back its attributes (`attributes_eq`), the scope inside it knows the declared
prefixes (`exists_enter_initial`), and under such a scope a written name is resolved to the name it
was written for (`resolve_eq`).
-/

namespace Calcsheet

namespace Xml

/-! ## Meanings -/

/-- What raw attributes declare, and which attributes they are. -/
inductive Means : Bindings → List (String × String) → List RawAttribute → Prop
  | nil : Means [] [] []
  | declaration {label vocabulary bindings attributes raws} (free : isFreeName label = true)
      (rest : Means bindings attributes raws) :
      Means ((label, vocabulary) :: bindings) attributes
        (⟨"xmlns:".toList ++ label, vocabulary.uri.toList⟩ :: raws)
  | entry {key value w bindings attributes raws} (free : isFreeName key.toList = true)
      (read : unescape w = value.toList) (rest : Means bindings attributes raws) :
      Means bindings ((key, value) :: attributes) (⟨key.toList, w⟩ :: raws)

theorem isFreeName_iff {s : List Char} :
    isFreeName s = true ↔ isName s = true ∧ s ≠ "xml".toList ∧ s ≠ "xmlns".toList := by
  simp [isFreeName, and_assoc]

theorem isName_of_isFreeName {s : List Char} (h : isFreeName s = true) : isName s = true :=
  (isFreeName_iff.1 h).1

theorem isAlphanum_of_isName {s : List Char} (h : isName s = true) :
    ∀ c ∈ s, c.isAlphanum = true := by
  obtain ⟨_, _, _, _, all⟩ := isName_iff.1 h
  exact all

theorem ne_nil_of_isName {s : List Char} (h : isName s = true) : s ≠ [] := by
  obtain ⟨c, cs, rfl, _⟩ := isName_iff.1 h
  simp

theorem isLabelChar_of_isName {s : List Char} (h : isName s = true) :
    ∀ c ∈ s, isLabelChar c = true := by
  intro c hc
  exact isLabelChar_of_isAlphanum (isAlphanum_of_isName h c hc)

theorem uri_plain (vocabulary : Vocabulary) {q : Char} (quote : isQuote q = true) :
    q ∉ vocabulary.uri.toList := by
  simp only [isQuote_iff, List.mem_cons, List.not_mem_nil, or_false] at quote
  rcases quote with rfl | rfl <;> cases vocabulary <;> decide

theorem Spelled.cons_of_isLabelChar {key value s : List Char} {raws : List RawAttribute} {q : Char}
    (notEmpty : key ≠ []) (plain : ∀ c ∈ key, isLabelChar c = true) (quote : isQuote q = true)
    (closed : q ∉ value) (rest : Spelled raws s) :
    Spelled (⟨key, value⟩ :: raws) (' ' :: key ++ '=' :: q :: value ++ q :: s) :=
  .cons notEmpty (fun c hc => isWordChar_of_isLabelChar (plain c hc))
    (fun mem => ne_of_isLabelChar (plain '=' mem) rfl rfl) quote closed rest

/-- The raw attributes of a written tag. -/
theorem TagWritten.exists_raws {bindings : Bindings} {attributes : List (String × String)}
    {tag : List Char} (h : TagWritten bindings attributes tag) :
    ∃ raws, Spelled raws tag ∧ Means bindings attributes raws := by
  induction h with
  | nil => exact ⟨[], .nil, .nil⟩
  | @declaration label vocabulary _ _ q s free quote _ ih =>
    obtain ⟨raws, spelled, means⟩ := ih
    have name := isName_of_isFreeName free
    have plain : ∀ c ∈ "xmlns:".toList ++ label, isLabelChar c = true := by
      have mark : ∀ c ∈ "xmlns:".toList, isLabelChar c = true :=
        List.all_eq_true.1 (by decide)
      intro c hc
      rcases List.mem_append.1 hc with hc | hc
      · exact mark c hc
      · exact isLabelChar_of_isName name c hc
    have quote := isQuote_iff.2 quote
    refine ⟨_, ?_, .declaration free means⟩
    exact .cons_of_isLabelChar (by simp) plain quote (uri_plain vocabulary quote) spelled
  | entry free quote written _ ih =>
    obtain ⟨raws, spelled, means⟩ := ih
    have name := isName_of_isFreeName free
    have quote := isQuote_iff.2 quote
    refine ⟨_, ?_, .entry free (unescape_eq written) means⟩
    exact .cons_of_isLabelChar (ne_nil_of_isName name) (isLabelChar_of_isName name) quote
      (written.quote_not_mem quote) spelled

/-! ## Attributes -/

theorem dropMark?_eq_none_of_isName {key : List Char} (name : isName key = true) :
    dropMark? "xmlns:".toList key = none := by
  refine Option.eq_none_iff_forall_ne_some.2 fun after h => ?_
  have colon : ':' ∈ key := by
    rw [dropMark?_eq_some h]
    simp
  exact ne_of_isAlphanum (isAlphanum_of_isName name ':' colon) rfl rfl

theorem declaredPrefix?_eq_none {key : List Char} (free : isFreeName key = true) :
    declaredPrefix? key = none := by
  obtain ⟨name, -, notXmlns⟩ := isFreeName_iff.1 free
  rw [declaredPrefix?, if_neg notXmlns, dropMark?_eq_none_of_isName name]

theorem declaredPrefix?_append (label : List Char) :
    declaredPrefix? ("xmlns:".toList ++ label) = some label := by
  rw [declaredPrefix?, if_neg (by simp), dropMark?_append]

theorem ne_colon_of_isName {name : List Char} (h : isName name = true) :
    ∀ c ∈ name, (c != ':') = true := by
  intro c hc
  exact bne_iff_ne.2 (ne_of_isAlphanum (isAlphanum_of_isName h c hc) rfl)

theorem localPart_of_isName {name : List Char} (h : isName name = true) :
    localPart name = name := by
  rw [localPart, List.dropWhile_eq_nil_iff.2 (ne_colon_of_isName h)]

namespace Means

variable {bindings : Bindings} {attributes : List (String × String)} {raws : List RawAttribute}

theorem key_cases (h : Means bindings attributes raws) {key : List Char}
    (mem : key ∈ raws.map RawAttribute.key) :
    (∃ label ∈ bindings.map Prod.fst, key = "xmlns:".toList ++ label) ∨
      ∃ k ∈ attributes.map Prod.fst, key = k.toList ∧ isName key = true := by
  induction h with
  | nil => simp at mem
  | declaration free _ ih =>
    rcases List.mem_cons.1 mem with rfl | mem
    · exact .inl ⟨_, by simp, rfl⟩
    · rcases ih mem with ⟨label, hlabel, rfl⟩ | entry
      · exact .inl ⟨label, by simp [hlabel], rfl⟩
      · exact .inr entry
  | entry free _ _ ih =>
    rcases List.mem_cons.1 mem with rfl | mem
    · exact .inr ⟨_, by simp, rfl, isName_of_isFreeName free⟩
    · rcases ih mem with declaration | ⟨k, hk, same⟩
      · exact .inl declaration
      · exact .inr ⟨k, by simp [hk], same⟩

theorem nodup_keys (h : Means bindings attributes raws) (labels : (bindings.map Prod.fst).Nodup)
    (keys : (attributes.map Prod.fst).Nodup) : (raws.map RawAttribute.key).Nodup := by
  have apart {label key : List Char} (name : isName key = true) :
      key ≠ "xmlns:".toList ++ label := by
    rintro rfl
    have := dropMark?_eq_none_of_isName name
    rw [dropMark?_append] at this
    cases this
  induction h with
  | nil => simp
  | declaration free rest ih =>
    rw [List.map_cons, List.nodup_cons] at labels ⊢
    refine ⟨fun mem => ?_, ih labels.2 keys⟩
    rcases rest.key_cases mem with ⟨label, hlabel, same⟩ | ⟨_, _, _, name⟩
    · exact labels.1 (List.append_cancel_left same ▸ hlabel)
    · exact apart name rfl
  | entry free _ rest ih =>
    rw [List.map_cons, List.nodup_cons] at keys ⊢
    refine ⟨fun mem => ?_, ih labels keys.2⟩
    rcases rest.key_cases mem with ⟨label, _, same⟩ | ⟨k, hk, same, -⟩
    · exact apart (isName_of_isFreeName free) same
    · exact keys.1 (String.toList_inj.1 same ▸ hk)

/-- What is no declaration is an attribute. -/
theorem kept (h : Means bindings attributes raws) :
    (raws.filter fun a => (declaredPrefix? a.key).isNone).map
      (fun a => (String.ofList (localPart a.key), String.ofList (unescape a.value))) =
      attributes := by
  induction h with
  | nil => rfl
  | declaration _ _ ih =>
    rw [List.filter_cons_of_neg (by rw [declaredPrefix?_append]; simp), ih]
  | entry free read _ ih =>
    simpa [List.filter_cons, declaredPrefix?_eq_none free, read,
      localPart_of_isName (isName_of_isFreeName free)] using ih

end Means

/-- A tag gives back the attributes that were written in it. -/
theorem attributes_eq {bindings : Bindings} {attributes : List (String × String)}
    {tag : List Char} (name : List Char) (labels : (bindings.map Prod.fst).Nodup)
    (keys : (attributes.map Prod.fst).Nodup) (h : TagWritten bindings attributes tag) :
    (Tag.mk name tag).attributes = ⟨attributes⟩ := by
  obtain ⟨raws, spelled, means⟩ := h.exists_raws
  have read := spelled.attempts true [] fun _ => ⟨means.nodup_keys labels keys, by simp⟩
  simp only [Tag.attributes, read, List.filterMap_map, Function.comp_def, id, List.filterMap_some,
    means.kept, Attributes.ofList_eq keys]

/-! ## Scopes -/

/-- The scope has the prefixes of a document, and no default namespace. -/
structure Knows (scope : Scope) (bindings : Bindings) : Prop where
  free : ∀ b ∈ bindings, isFreeName b.1 = true
  lookup : ∀ b ∈ bindings, scope.lookup b.1 = some b.2.uri
  noDefault : scope.lookup [] = none

namespace Means

variable {bindings : Bindings} {attributes : List (String × String)} {raws : List RawAttribute}

theorem isFreeName_label (h : Means bindings attributes raws) :
    ∀ b ∈ bindings, isFreeName b.1 = true := by
  induction h with
  | nil => simp
  | declaration free _ ih => exact List.forall_mem_cons.2 ⟨free, ih⟩
  | entry _ _ _ ih => exact ih

theorem declareAll (h : Means bindings attributes raws) (scope : Scope) :
    scope.declareAll raws = .ok ((bindings.map fun b => (b.1, b.2.uri)).reverse ++ scope) := by
  induction h generalizing scope with
  | nil => rfl
  | @declaration label vocabulary _ _ _ free _ ih =>
    obtain ⟨-, notXml, notXmlns⟩ := isFreeName_iff.1 free
    have uri : vocabulary.uri ≠ xmlUri ∧ vocabulary.uri ≠ xmlnsUri := by
      cases vocabulary <;> decide
    have declared : scope.declare ⟨"xmlns:".toList ++ label, vocabulary.uri.toList⟩ =
        .ok ((label, vocabulary.uri) :: scope) := by
      simp only [Scope.declare, dropMark?_append, String.ofList_toList, notXml, notXmlns, uri.1,
        uri.2, if_false]
      exact if_neg (by simp)
    rw [Scope.declareAll, declared]
    simp only [ih, List.map_cons, List.reverse_cons, List.append_assoc, List.singleton_append]
  | @entry key _ w _ _ _ free _ _ ih =>
    obtain ⟨name, -, notXmlns⟩ := isFreeName_iff.1 free
    have declared : scope.declare ⟨key.toList, w⟩ = .ok scope := by
      rw [Scope.declare, if_neg notXmlns, dropMark?_eq_none_of_isName name]
    rw [Scope.declareAll, declared]
    exact ih scope

/-- The prefixes that a tag declares are in scope inside it. -/
theorem knows (h : Means bindings attributes raws) (labels : (bindings.map Prod.fst).Nodup) :
    Knows ((bindings.map fun b => (b.1, b.2.uri)).reverse ++ Scope.initial) bindings := by
  refine ⟨h.isFreeName_label, fun b hb => ?_, ?_⟩
  · obtain ⟨before, after, rfl⟩ := List.append_of_mem hb
    rw [List.lookup_eq_some_iff]
    refine ⟨(after.map fun b => (b.1, b.2.uri)).reverse,
      (before.map fun b => (b.1, b.2.uri)).reverse ++ Scope.initial, by simp, fun p hp => ?_⟩
    obtain ⟨b', hb', rfl⟩ : ∃ b' ∈ after, (b'.1, b'.2.uri) = p := by simpa using hp
    have : b.1 ≠ b'.1 := by
      rw [List.map_append, List.map_cons, List.nodup_append, List.nodup_cons] at labels
      intro same
      exact labels.2.1.1 (same ▸ List.mem_map_of_mem hb')
    simpa using this
  · rw [List.lookup_eq_none_iff]
    have initial : ∀ p ∈ Scope.initial, ([] != p.1) = true := List.all_eq_true.1 (by decide)
    intro p hp
    rcases List.mem_append.1 hp with hp | hp
    · obtain ⟨b, hb, rfl⟩ : ∃ b ∈ bindings, (b.1, b.2.uri) = p := by simpa using hp
      exact bne_iff_ne.2 (ne_nil_of_isName (isName_of_isFreeName (h.isFreeName_label b hb))).symm
    · exact initial p hp

end Means

/-- The tag of the root brings all prefixes of the document into scope. -/
theorem exists_enter_initial {bindings : Bindings} {attributes : List (String × String)}
    {name tag : List Char} (labels : (bindings.map Prod.fst).Nodup)
    (h : TagWritten bindings attributes tag) :
    ∃ scope, Scope.initial.enter ⟨name, tag⟩ = .ok scope ∧ Knows scope bindings := by
  obtain ⟨raws, spelled, means⟩ := h.exists_raws
  refine ⟨_, ?_, means.knows labels⟩
  rw [Scope.enter, written_eq spelled, means.declareAll]

theorem enter_of_tagWritten {attributes : List (String × String)} {name tag : List Char}
    (h : TagWritten [] attributes tag) (scope : Scope) : scope.enter ⟨name, tag⟩ = .ok scope := by
  obtain ⟨raws, spelled, means⟩ := h.exists_raws
  rw [Scope.enter, written_eq spelled, means.declareAll]
  rfl

/-! ## Names -/

namespace NameWritten

variable {scope : Scope} {bindings : Bindings} {name : QName} {label : List Char}

/-- A name is found in the vocabulary that it was written for. -/
theorem resolve_eq (h : NameWritten bindings name label) (knows : Knows scope bindings) :
    scope.resolve label = .known name := by
  cases h with
  | @bound label vocabulary localName declared _ =>
    have free := isName_of_isFreeName (knows.free _ declared)
    have found := knows.lookup _ declared
    have notEmpty : vocabulary.uri ≠ "" := by cases vocabulary <;> decide
    have stop : ∀ c ∈ (':' :: localName.toList).head?, (c != ':') = false := by simp
    have first : prefixPart? (label ++ ':' :: localName.toList) = some label := by
      rw [prefixPart?, if_pos (by simp), Text.takeWhile_run (ne_colon_of_isName free) stop]
    have second : localPart (label ++ ':' :: localName.toList) = localName.toList := by
      rw [localPart, Text.dropWhile_run (ne_colon_of_isName free) stop]
    simp only [Scope.resolve, first, second, if_neg (ne_nil_of_isName free), found,
      if_neg notEmpty, String.ofList_toList]
  | @unbound localName bare =>
    have first : prefixPart? localName.toList = none := by
      refine if_neg fun colon => ?_
      have := ne_colon_of_isName bare ':' (by simpa using colon)
      simp at this
    simp only [Scope.resolve, first, localPart_of_isName bare, knows.noDefault,
      String.ofList_toList]

theorem mem_label (h : NameWritten bindings name label) (knows : Knows scope bindings) :
    ∀ c ∈ label, isLabelChar c = true := by
  intro c hc
  cases h with
  | bound declared bare =>
    have free := isName_of_isFreeName (knows.free _ declared)
    rcases List.mem_append.1 hc with hc | hc
    · exact isLabelChar_of_isName free c hc
    · rcases List.mem_cons.1 hc with rfl | hc
      · rfl
      · exact isLabelChar_of_isName bare c hc
  | unbound bare => exact isLabelChar_of_isName bare c hc

theorem label_ne_nil (h : NameWritten bindings name label) : label ≠ [] := by
  cases h with
  | bound declared bare => simp
  | unbound bare => exact ne_nil_of_isName bare

theorem isLabel (h : NameWritten bindings name label) (knows : Knows scope bindings) :
    IsLabel label := by
  have labelChar := h.mem_label knows
  refine ⟨h.label_ne_nil, fun c hc => isWordChar_of_isLabelChar (labelChar c hc), fun c hc => ?_,
    fun last => ?_⟩
  · have hc := labelChar c (List.mem_of_mem_head? hc)
    exact ⟨ne_of_isLabelChar hc rfl, ne_of_isLabelChar hc rfl, ne_of_isLabelChar hc rfl⟩
  · exact ne_of_isLabelChar (labelChar '/' (List.mem_of_getLast? last)) rfl rfl

end NameWritten

/-! ## Whole tags -/

namespace HeadWritten

variable {scope : Scope} {bindings declared : Bindings} {name : QName}
  {attributes : List (String × String)} {label tag : List Char}
  (head : HeadWritten bindings declared name attributes label tag) (knows : Knows scope bindings)

include head knows

theorem lex_opening (s : List Char) :
    lex '<' (label ++ tag ++ '>' :: s) = (.opening ⟨label, tag⟩, s) := by
  obtain ⟨raws, spelled, -⟩ := head.tag.exists_raws
  exact (head.name.isLabel knows).lex_opening spelled s

theorem lex_single (s : List Char) :
    lex '<' (label ++ tag ++ "/>".toList ++ s) = (.single ⟨label, tag⟩, s) := by
  obtain ⟨raws, spelled, -⟩ := head.tag.exists_raws
  exact (head.name.isLabel knows).lex_single spelled s

theorem lex_closing (s : List Char) :
    lex '<' ('/' :: (label ++ '>' :: s)) = (.closing label, s) :=
  (head.name.isLabel knows).lex_closing s

end HeadWritten

end Xml

end Calcsheet
