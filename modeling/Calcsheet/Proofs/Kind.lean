import Calcsheet.Kind

/-!
# Names of kinds

Each kind but `other` stands once in the vocabularies, so that an element is of the kind exactly if
it has the name that is listed with it (`Kind.of_eq_iff`).
-/

namespace Calcsheet

namespace Vocabulary

theorem ofUri?_uri (vocabulary : Vocabulary) : ofUri? vocabulary.uri = some vocabulary := by
  cases vocabulary <;> decide

theorem kindOf_of_mem_entries {vocabulary : Vocabulary} {localName : String} {kind : Kind}
    (h : (localName, kind) ∈ vocabulary.entries) : vocabulary.kindOf localName = kind := by
  have listed : ∀ p ∈ vocabulary.entries, vocabulary.kindOf p.1 = p.2 := by
    cases vocabulary <;> decide +kernel
  exact listed _ h

theorem mem_entries_of_kindOf {vocabulary : Vocabulary} {localName : String} {kind : Kind}
    (h : vocabulary.kindOf localName = kind) (known : kind ≠ .other) :
    (localName, kind) ∈ vocabulary.entries := by
  unfold kindOf at h
  cases found : vocabulary.entries.lookup localName with
  | none =>
    rw [found] at h
    exact absurd h.symm known
  | some recorded =>
    rw [found] at h
    obtain ⟨before, after, split, -⟩ := List.lookup_eq_some_iff.1 found
    rw [split, show recorded = kind from h]
    simp

/-- No kind is listed twice. -/
theorem eq_of_mem_entries {vocabulary vocabulary' : Vocabulary} {localName localName' : String}
    {kind : Kind} (h : (localName, kind) ∈ vocabulary.entries)
    (h' : (localName', kind) ∈ vocabulary'.entries) :
    vocabulary = vocabulary' ∧ localName = localName' := by
  have once : ∀ p ∈ vocabulary.entries, ∀ p' ∈ vocabulary'.entries, p.2 = p'.2 →
      vocabulary = vocabulary' ∧ p.1 = p'.1 := by
    cases vocabulary <;> cases vocabulary' <;> decide +kernel
  exact once _ h _ h' rfl

theorem ne_other_of_mem_entries {vocabulary : Vocabulary} {localName : String} {kind : Kind}
    (h : (localName, kind) ∈ vocabulary.entries) : kind ≠ .other := by
  have known : ∀ p ∈ vocabulary.entries, p.2 ≠ .other := by
    cases vocabulary <;> decide +kernel
  exact known _ h

end Vocabulary

/-- A name that stands for something known is listed in the vocabulary of its namespace. -/
theorem Kind.exists_entry {name : QName} {kind : Kind} (h : Kind.of name = kind)
    (known : kind ≠ .other) :
    ∃ vocabulary : Vocabulary, (name.localName, kind) ∈ vocabulary.entries ∧
      name = .bound vocabulary.uri name.localName := by
  unfold Kind.of at h
  split at h
  · next vocabulary found =>
    obtain ⟨uri, huri, hvocabulary⟩ := Option.bind_eq_some_iff.1 found
    have same : vocabulary.uri = uri := by simpa using List.find?_some hvocabulary
    refine ⟨vocabulary, Vocabulary.mem_entries_of_kindOf h known, ?_⟩
    cases name
    simp_all [QName.bound]
  · exact absurd h.symm known

/-- An element is of a kind exactly if it has the name that is listed with the kind. -/
theorem Kind.of_eq_iff {vocabulary : Vocabulary} {localName : String} {kind : Kind}
    (listed : (localName, kind) ∈ vocabulary.entries) (name : QName) :
    Kind.of name = kind ↔ name = .bound vocabulary.uri localName := by
  constructor
  · intro h
    obtain ⟨_, listed', bound⟩ := exists_entry h (Vocabulary.ne_other_of_mem_entries listed)
    obtain ⟨rfl, same⟩ := Vocabulary.eq_of_mem_entries listed' listed
    exact same ▸ bound
  · rintro rfl
    rw [Kind.of, QName.bound, Option.bind_some, Vocabulary.ofUri?_uri]
    exact Vocabulary.kindOf_of_mem_entries listed

theorem Kind.of_eq_mathRegion_iff {name : QName} :
    Kind.of name = .mathRegion ↔ name = .bound Vocabulary.worksheet.uri "math" :=
  Kind.of_eq_iff (by decide) name

theorem Kind.of_eq_apply_iff {name : QName} :
    Kind.of name = .apply ↔ name = .bound Vocabulary.math.uri "apply" :=
  Kind.of_eq_iff (by decide) name

theorem Kind.of_eq_eval_iff {name : QName} :
    Kind.of name = .eval ↔ name = .bound Vocabulary.math.uri "eval" :=
  Kind.of_eq_iff (by decide) name

end Calcsheet
