import Calcsheet.Options

/-!
# Names of classes

The name made from any text is in a form of its own (`IsClassName`), and a name in this form is made
from itself (`classNameOf_eq_self`); so making a name twice is making it once. Such a name is an
identifier but for one thing: only ASCII digits are kept from its beginning, so a number of another
kind at the beginning of the text stays there (`isIdentifier_classNameOf_iff`).
-/

namespace Calcsheet

open Text (isAlphabetic isNumeric isAlphanumeric)

/-- The character can stand in the name of a class. -/
def isNameChar (c : Char) : Bool :=
  isAlphanumeric c || c = '_'

/-- What becomes of a character. -/
def nameChar (c : Char) : Char :=
  if isNameChar c then c else '_'

/-- One of the digits from `0` to `9`. -/
def IsAsciiDigit (c : Char) : Prop :=
  '0' ≤ c ∧ c ≤ '9'

instance : DecidablePred IsAsciiDigit := fun c =>
  inferInstanceAs (Decidable ('0' ≤ c ∧ c ≤ '9'))

/-- There is something in the name, only what can stand there, and no ASCII digit begins it. -/
structure IsClassName (name : String) : Prop where
  notEmpty : name ≠ ""
  isNameChar : ∀ c ∈ name.toList, isNameChar c = true
  noDigit : ∀ c ∈ name.toList.head?, ¬ IsAsciiDigit c

/-- The name begins with an underscore or a letter that is no number, and goes on with letters,
numbers and underscores. -/
def IsIdentifier (name : String) : Prop :=
  ∃ first rest, name.toList = first :: rest ∧
    (first = '_' ∨ isAlphabetic first = true ∧ isNumeric first = false) ∧
    ∀ c ∈ rest, isNameChar c = true

/-! ## Characters -/

theorem isNameChar_underscore : isNameChar '_' = true := by
  rw [isNameChar, decide_eq_true rfl, Bool.or_true]

theorem isNameChar_nameChar (c : Char) : isNameChar (nameChar c) = true := by
  unfold nameChar
  split
  · next kept => exact kept
  · exact isNameChar_underscore

theorem nameChar_eq_self {c : Char} (h : isNameChar c = true) : nameChar c = c :=
  if_pos h

theorem nameChar_of_isNumeric {c : Char} (h : isNumeric c = true) : nameChar c = c :=
  nameChar_eq_self (by simp [isNameChar, isAlphanumeric, h])

theorem isNumeric_underscore : isNumeric '_' = false := by
  decide +kernel

theorem isNumeric_nameChar (c : Char) : isNumeric (nameChar c) = isNumeric c := by
  by_cases numeric : isNumeric c = true
  · rw [nameChar_of_isNumeric numeric]
  · unfold nameChar
    split
    · rfl
    · rw [isNumeric_underscore, eq_false_of_ne_true numeric]

/-- A character that can stand in a name begins an identifier unless it is a number. -/
theorem begins_iff {c : Char} (h : isNameChar c = true) :
    c = '_' ∨ isAlphabetic c = true ∧ isNumeric c = false ↔ isNumeric c = false := by
  constructor
  · rintro (rfl | ⟨-, notNumeric⟩)
    · exact isNumeric_underscore
    · exact notNumeric
  · intro notNumeric
    have kinds : isAlphabetic c = true ∨ c = '_' := by
      simpa [isNameChar, isAlphanumeric, notNumeric] using h
    exact kinds.symm.imp_right fun letter => ⟨letter, notNumeric⟩

/-! ## The name made from a text -/

theorem head?_worksheet : "Worksheet".toList.head? = some 'W' :=
  rfl

/-- A text without characters gives the usual name. Any other text keeps its characters as far as it
can, behind an underscore if they begin with an ASCII digit. -/
theorem classNameOf_cases (stem : String) :
    (stem.toList = [] ∧ classNameOf stem = "Worksheet") ∨
    ∃ c cs, stem.toList = c :: cs ∧
      (IsAsciiDigit (nameChar c) ∧
          (classNameOf stem).toList = '_' :: nameChar c :: cs.map nameChar ∨
        ¬ IsAsciiDigit (nameChar c) ∧
          (classNameOf stem).toList = nameChar c :: cs.map nameChar) := by
  cases h : stem.toList with
  | nil =>
    refine .inl ⟨rfl, ?_⟩
    rw [classNameOf, h]
    rfl
  | cons c cs =>
    refine .inr ⟨c, cs, rfl, ?_⟩
    have name : classNameOf stem = if IsAsciiDigit (nameChar c)
        then String.ofList ('_' :: nameChar c :: cs.map nameChar)
        else String.ofList (nameChar c :: cs.map nameChar) := by
      rw [classNameOf, h]
      rfl
    rw [name]
    split
    · next digit => exact .inl ⟨digit, String.toList_ofList⟩
    · next noDigit => exact .inr ⟨noDigit, String.toList_ofList⟩

theorem isClassName_classNameOf (stem : String) : IsClassName (classNameOf stem) := by
  have kept (c : Char) (cs : List Char) :
      ∀ d ∈ nameChar c :: cs.map nameChar, isNameChar d = true :=
    List.forall_mem_map (l := c :: cs).2 fun d _ => isNameChar_nameChar d
  rcases classNameOf_cases stem with
    ⟨-, name⟩ | ⟨c, cs, -, ⟨-, name⟩ | ⟨noDigit, name⟩⟩
  · rw [name]
    refine ⟨by decide, List.all_eq_true.1 (by decide +kernel), ?_⟩
    rw [head?_worksheet]
    rintro _ ⟨⟩
    decide
  · refine ⟨fun empty => ?_, ?_, ?_⟩
    · simp [empty] at name
    · rw [name]
      exact List.forall_mem_cons.2 ⟨isNameChar_underscore, kept c cs⟩
    · rw [name, List.head?_cons]
      rintro _ ⟨⟩
      decide
  · refine ⟨fun empty => ?_, ?_, ?_⟩
    · simp [empty] at name
    · rw [name]
      exact kept c cs
    · rw [name]
      simpa using noDigit

/-- A name in this form is made from itself. -/
theorem classNameOf_eq_self {name : String} (h : IsClassName name) : classNameOf name = name := by
  have kept : name.toList.map nameChar = name.toList :=
    (List.map_congr_left fun c hc => nameChar_eq_self (h.isNameChar c hc)).trans (List.map_id _)
  rcases classNameOf_cases name with ⟨empty, -⟩ | ⟨c, cs, chars, ⟨digit, -⟩ | ⟨-, made⟩⟩
  · exact absurd (by simpa using empty) h.notEmpty
  · rw [nameChar_eq_self (h.isNameChar c (by simp [chars]))] at digit
    exact absurd digit (h.noDigit c (by simp [chars]))
  · rw [← String.toList_inj, made, ← List.map_cons, ← chars, kept]

/-- A name in this form is an identifier exactly if it begins with no number. -/
theorem IsClassName.isIdentifier_iff {name : String} (h : IsClassName name) :
    IsIdentifier name ↔ ∀ c ∈ name.toList.head?, isNumeric c = false := by
  obtain ⟨first, rest, chars⟩ : ∃ first rest, name.toList = first :: rest :=
    List.exists_cons_of_ne_nil (by simpa using h.notEmpty)
  obtain ⟨hfirst, hrest⟩ := List.forall_mem_cons.1 (chars ▸ h.isNameChar)
  unfold IsIdentifier
  simp only [chars, List.head?_cons, Option.mem_some_iff, forall_eq', List.cons.injEq]
  rw [← begins_iff hfirst]
  constructor
  · rintro ⟨_, _, ⟨rfl, rfl⟩, begins, -⟩
    exact begins
  · intro begins
    exact ⟨first, rest, ⟨rfl, rfl⟩, begins, hrest⟩

/-- The name made from a text is never empty, has only letters, numbers and underscores in it,
begins with no ASCII digit, and is made from itself. It is an identifier exactly if the text does
not begin with a number that is no ASCII digit. -/
theorem isIdentifier_classNameOf_iff (stem : String) :
    IsClassName (classNameOf stem) ∧ classNameOf (classNameOf stem) = classNameOf stem ∧
    (IsIdentifier (classNameOf stem) ↔
      ∀ c ∈ stem.toList.head?, isNumeric c = true → IsAsciiDigit c) := by
  have isName := isClassName_classNameOf stem
  refine ⟨isName, classNameOf_eq_self isName, isName.isIdentifier_iff.trans ?_⟩
  rcases classNameOf_cases stem with
    ⟨empty, name⟩ | ⟨c, cs, chars, ⟨digit, name⟩ | ⟨noDigit, name⟩⟩
  · rw [name, empty, head?_worksheet]
    have letter : isNumeric 'W' = false := by decide +kernel
    simp [letter]
  · rw [name, chars]
    simp only [List.head?_cons, Option.mem_some_iff, forall_eq']
    refine iff_of_true isNumeric_underscore fun numeric => ?_
    rwa [nameChar_of_isNumeric numeric] at digit
  · rw [name, chars]
    simp only [List.head?_cons, Option.mem_some_iff, forall_eq', isNumeric_nameChar]
    constructor
    · intro notNumeric numeric
      rw [notNumeric] at numeric
      cases numeric
    · intro digit
      refine eq_false_of_ne_true fun numeric => noDigit ?_
      rw [nameChar_of_isNumeric numeric]
      exact digit numeric

/-- A superscript two is a number, so it is kept where it is. -/
theorem classNameOf_superscript :
    classNameOf "²x" = "²x" ∧ isNumeric '²' = true ∧
      ¬ ∀ stem, IsIdentifier (classNameOf stem) := by
  have numeric : isNumeric '²' = true := by decide +kernel
  have made : classNameOf "²x" = "²x" := by decide +kernel
  refine ⟨made, numeric, fun always => ?_⟩
  have notNumeric := (isClassName_classNameOf "²x").isIdentifier_iff.1 (always "²x")
  rw [made] at notNumeric
  exact Bool.eq_false_iff.1 (notNumeric '²' rfl) numeric

end Calcsheet
