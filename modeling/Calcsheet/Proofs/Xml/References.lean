import Calcsheet.Proofs.Lists
import Calcsheet.Proofs.Xml.Spelling

/-!
# Text with references

In a text where every `&` begins a reference that comes to its end (`Terminated`) the references can
be resolved one by one: those to a character become the character, and all others stay as they are
written (`Decoded`). The value of an attribute is resolved as a whole, and if one of its references
is to nothing then it stays as it is, with all its references. So it is the decoded text unless
there are references of both kinds in it (`unescape_eq_iff`).
-/

namespace Calcsheet.Xml

/-- What can stand between `&` and `;`. -/
def IsReferenceName (name : List Char) : Prop :=
  ∀ c ∈ name, c ≠ '&' ∧ c ≠ ';' ∧ c ≠ '<'

/-- Every `&` of the text begins a reference that a `;` ends. -/
def Terminated (s : List Char) : Prop :=
  ∀ before after, s = before ++ '&' :: after →
    ∃ name rest, IsReferenceName name ∧ after = name ++ ';' :: rest

/-- The reference `&name;` stands somewhere in the text. -/
def RefersTo (s name : List Char) : Prop :=
  IsReferenceName name ∧ ∃ before after, s = before ++ '&' :: (name ++ ';' :: after)

/-- There is a reference to a character in the text. -/
def HasKnown (s : List Char) : Prop :=
  ∃ name c, RefersTo s name ∧ Reference c name

/-- There is a reference in the text that is to no character. -/
def HasUnknown (s : List Char) : Prop :=
  ∃ name, RefersTo s name ∧ ∀ c, ¬ Reference c name

/-- The text with each reference to a character resolved and all else as it stands. -/
inductive Decoded : List Char → List Char → Prop
  | nil : Decoded [] []
  | plain {c s t} (notReference : c ≠ '&') (rest : Decoded s t) : Decoded (c :: s) (c :: t)
  | known {c name s t} (refers : Reference c name) (rest : Decoded s t) :
      Decoded ('&' :: (name ++ ';' :: s)) (c :: t)
  | unknown {name s t} (isName : IsReferenceName name) (refersNot : ∀ c, ¬ Reference c name)
      (rest : Decoded s t) : Decoded ('&' :: (name ++ ';' :: s)) ('&' :: (name ++ ';' :: t))

theorem Reference.isReferenceName {c : Char} {name : List Char} (h : Reference c name) :
    IsReferenceName name := fun _ hd =>
  ⟨h.ne_of_mem hd rfl (by decide), h.ne_of_mem hd rfl (by decide), h.ne_of_mem hd rfl (by decide)⟩

theorem lex_reference {name : List Char} (isName : IsReferenceName name) (s : List Char) :
    lex '&' (name ++ ';' :: s) = (.reference name, s) := by
  have inName : ∀ c ∈ name, (c != ';' && c != '&' && c != '<') = true := by
    intro c hc
    obtain ⟨ampersand, semicolon, less⟩ := isName c hc
    simp [semicolon, ampersand, less]
  have stop : ∀ c ∈ (';' :: s).head?, (c != ';' && c != '&' && c != '<') = false := by simp
  rw [lex, if_neg (by decide), if_pos rfl, lexReference]
  simp only [Text.dropWhile_run inName stop, Text.takeWhile_run inName stop]

/-! ## Which references there are -/

section

variable {s t name name' : List Char} {c : Char}

theorem Terminated.of_append (before : List Char) (h : Terminated (before ++ s)) :
    Terminated s := by
  rintro before' after rfl
  exact h (before ++ before') after (List.append_assoc ..).symm

/-- A text can be decoded if its references come to their ends. -/
theorem Terminated.exists_decoded (h : Terminated s) : ∃ t, Decoded s t := by
  induction length : s.length using Nat.strongRecOn generalizing s with
  | ind n ih =>
    cases s with
    | nil => exact ⟨[], .nil⟩
    | cons c s =>
      by_cases hc : c = '&'
      · subst hc
        obtain ⟨name, rest, isName, rfl⟩ := h [] s rfl
        have shorter : rest.length < n := by
          rw [← length, List.length_cons, List.length_append, List.length_cons]
          omega
        have terminated : Terminated rest := .of_append ('&' :: name ++ [';']) (by simpa using h)
        obtain ⟨t, ht⟩ := ih rest.length shorter terminated rfl
        by_cases known : ∃ c, Reference c name
        · obtain ⟨c, refers⟩ := known
          exact ⟨_, .known refers ht⟩
        · exact ⟨_, .unknown isName (not_exists.1 known) ht⟩
      · have shorter : s.length < n := by
          rw [← length, List.length_cons]
          omega
        obtain ⟨t, ht⟩ := ih s.length shorter (.of_append [c] h) rfl
        exact ⟨_, .plain hc ht⟩

theorem Terminated.cons (hc : c ≠ '&') (h : Terminated s) : Terminated (c :: s) := by
  intro before after eq
  cases before with
  | nil => exact absurd (List.cons.inj eq).1 hc
  | cons d before => exact h before after (List.cons.inj eq).2

theorem Terminated.append {word : List Char} (noReference : '&' ∉ word) (h : Terminated s) :
    Terminated (word ++ s) := by
  induction word with
  | nil => exact h
  | cons c word ih =>
    rw [List.mem_cons, not_or] at noReference
    exact (ih noReference.2).cons (Ne.symm noReference.1)

theorem Terminated.reference (isName : IsReferenceName name) (h : Terminated s) :
    Terminated ('&' :: (name ++ ';' :: s)) := by
  intro before after eq
  cases before with
  | nil => exact ⟨name, s, isName, (List.cons.inj eq).2.symm⟩
  | cons d before =>
    have noReference : '&' ∉ name := fun mem => (isName '&' mem).1 rfl
    exact (h.cons (by decide)).append noReference before after (List.cons.inj eq).2

theorem Decoded.terminated (h : Decoded s t) : Terminated s := by
  induction h with
  | nil =>
    intro before after eq
    cases before <;> cases eq
  | plain notReference _ ih => exact ih.cons notReference
  | known refers _ ih => exact ih.reference refers.isReferenceName
  | unknown isName _ _ ih => exact ih.reference isName

theorem refersTo_cons_iff (hc : c ≠ '&') : RefersTo (c :: s) name ↔ RefersTo s name := by
  refine and_congr_right fun _ => ⟨?_, ?_⟩
  · rintro ⟨before, after, eq⟩
    cases before with
    | nil => exact absurd (List.cons.inj eq).1 hc
    | cons d before => exact ⟨before, after, (List.cons.inj eq).2⟩
  · rintro ⟨before, after, rfl⟩
    exact ⟨c :: before, after, rfl⟩

/-- There are no references inside a word without `&`. -/
theorem refersTo_append_iff {word : List Char} (noReference : '&' ∉ word) :
    RefersTo (word ++ s) name ↔ RefersTo s name := by
  induction word with
  | nil => rfl
  | cons c word ih =>
    rw [List.mem_cons, not_or] at noReference
    rw [List.cons_append, refersTo_cons_iff (Ne.symm noReference.1), ih noReference.2]

/-- The part up to the first `;` is the name. -/
theorem IsReferenceName.eq_of_append {after after' : List Char} (isName : IsReferenceName name)
    (isName' : IsReferenceName name') (h : name ++ ';' :: after = name' ++ ';' :: after') :
    name = name' ∧ after = after' := by
  induction name generalizing name' with
  | nil =>
    cases name' with
    | nil => exact ⟨rfl, (List.cons.inj h).2⟩
    | cons c name' => exact absurd (List.cons.inj h).1.symm (isName' c (by simp)).2.1
  | cons c name ih =>
    cases name' with
    | nil => exact absurd (List.cons.inj h).1 (isName c (by simp)).2.1
    | cons d name' =>
      obtain ⟨rfl, tails⟩ := List.cons.inj h
      obtain ⟨rfl, rests⟩ :=
        ih (fun e he => isName e (by simp [he])) (fun e he => isName' e (by simp [he])) tails
      exact ⟨rfl, rests⟩

theorem refersTo_reference_iff (isName : IsReferenceName name) :
    RefersTo ('&' :: (name ++ ';' :: s)) name' ↔ name' = name ∨ RefersTo s name' := by
  have word : '&' ∉ name ++ [';'] := by
    rw [List.mem_append, not_or]
    exact ⟨fun mem => (isName '&' mem).1 rfl, by decide⟩
  have later : RefersTo (name ++ [';'] ++ s) name' ↔ RefersTo s name' := refersTo_append_iff word
  rw [← later, List.append_assoc, List.singleton_append]
  constructor
  · rintro ⟨isName', before, after, eq⟩
    cases before with
    | nil => exact .inl (isName'.eq_of_append isName (List.cons.inj eq).2.symm).1
    | cons d before => exact .inr ⟨isName', before, after, (List.cons.inj eq).2⟩
  · rintro (rfl | ⟨isName', before, after, eq⟩)
    · exact ⟨isName, [], s, rfl⟩
    · exact ⟨isName', '&' :: before, after, congrArg ('&' :: ·) eq⟩

theorem Decoded.reference_cases (isName : IsReferenceName name)
    (h : Decoded ('&' :: (name ++ ';' :: s)) t) :
    ∃ t', Decoded s t' ∧ ((∃ c, Reference c name ∧ t = c :: t') ∨
      (∀ c, ¬ Reference c name) ∧ t = '&' :: (name ++ ';' :: t')) := by
  generalize whole : '&' :: (name ++ ';' :: s) = u at h
  cases h with
  | nil => cases whole
  | plain notReference _ => exact absurd (List.cons.inj whole).1.symm notReference
  | known refers rest =>
    obtain ⟨rfl, rfl⟩ := isName.eq_of_append refers.isReferenceName (List.cons.inj whole).2
    exact ⟨_, rest, .inl ⟨_, refers, rfl⟩⟩
  | unknown isName' refersNot rest =>
    obtain ⟨rfl, rfl⟩ := isName.eq_of_append isName' (List.cons.inj whole).2
    exact ⟨_, rest, .inr ⟨refersNot, rfl⟩⟩

/-- There is one way to decode a text. -/
theorem Decoded.unique {t' : List Char} (h : Decoded s t) (h' : Decoded s t') : t = t' := by
  induction h generalizing t' with
  | nil =>
    cases h'
    rfl
  | plain notReference _ ih =>
    cases h' with
    | plain _ rest => rw [ih rest]
    | known => exact absurd rfl notReference
    | unknown => exact absurd rfl notReference
  | known refers _ ih =>
    obtain ⟨t', rest, ⟨c', refers', rfl⟩ | ⟨refersNot, -⟩⟩ :=
      h'.reference_cases refers.isReferenceName
    · have same := (referenced?_eq refers).symm.trans (referenced?_eq refers')
      rw [ih rest, Option.some.inj same]
    · exact absurd refers (refersNot _)
  | unknown isName refersNot _ ih =>
    obtain ⟨t', rest, ⟨c', refers, -⟩ | ⟨-, rfl⟩⟩ := h'.reference_cases isName
    · exact absurd refers (refersNot c')
    · rw [ih rest]

end

/-! ## The value of an attribute -/

section

variable {s t name : List Char} {c : Char}

theorem resolve?_unknown {read : List Char} (isName : IsReferenceName name)
    (refersNot : referenced? (read.reverse ++ name) = none) :
    resolve? (some read) (name ++ ';' :: s) = none := by
  induction name generalizing read with
  | nil =>
    rw [List.append_nil] at refersNot
    rw [List.nil_append, resolve?, if_pos rfl, refersNot]
  | cons d rest ih =>
    obtain ⟨ampersand, semicolon, -⟩ := isName d (by simp)
    rw [List.cons_append, resolve?, if_neg semicolon, if_neg ampersand]
    exact ih (fun e he => isName e (by simp [he])) (by simpa using refersNot)

theorem referenced?_eq_none (refersNot : ∀ c, ¬ Reference c name) : referenced? name = none :=
  Option.eq_none_iff_forall_ne_some.2 fun c h => refersNot c (reference_of_referenced? h)

theorem hasUnknown_cons_iff (hc : c ≠ '&') : HasUnknown (c :: s) ↔ HasUnknown s := by
  simp only [HasUnknown, refersTo_cons_iff hc]

theorem hasKnown_cons_iff (hc : c ≠ '&') : HasKnown (c :: s) ↔ HasKnown s := by
  simp only [HasKnown, refersTo_cons_iff hc]

theorem hasUnknown_reference_iff (isName : IsReferenceName name) :
    HasUnknown ('&' :: (name ++ ';' :: s)) ↔ (∀ c, ¬ Reference c name) ∨ HasUnknown s := by
  simp only [HasUnknown, refersTo_reference_iff isName, or_and_right, exists_or, exists_eq_left]

theorem hasKnown_reference_iff (isName : IsReferenceName name) :
    HasKnown ('&' :: (name ++ ';' :: s)) ↔ (∃ c, Reference c name) ∨ HasKnown s := by
  simp only [HasKnown, refersTo_reference_iff isName, or_and_right, exists_or]
  simp

/-- A value is resolved if all of its references are to characters. -/
theorem Decoded.resolve?_eq_some (h : Decoded s t) (allKnown : ¬ HasUnknown s) :
    resolve? none s = some t := by
  induction h with
  | nil => rfl
  | plain notReference _ ih =>
    rw [hasUnknown_cons_iff notReference] at allKnown
    rw [resolve?, if_neg notReference, ih allKnown, Option.map_some]
  | @known c name s t refers _ ih =>
    have isName := refers.isReferenceName
    rw [hasUnknown_reference_iff isName, not_or] at allKnown
    have plain : ∀ d ∈ name, d ≠ ';' ∧ d ≠ '&' := fun d hd => ⟨(isName d hd).2.1, (isName d hd).1⟩
    rw [resolve?, if_pos rfl, resolve?_name plain (referenced?_eq refers), ih allKnown.2,
      Option.map_some]
  | unknown isName refersNot _ _ =>
    exact absurd ((hasUnknown_reference_iff isName).2 (.inl refersNot)) allKnown

/-- One reference to nothing, and the value is not resolved. -/
theorem Decoded.resolve?_eq_none (h : Decoded s t) (unknown : HasUnknown s) :
    resolve? none s = none := by
  induction h with
  | nil =>
    obtain ⟨name, ⟨-, before, after, eq⟩, -⟩ := unknown
    cases before <;> cases eq
  | plain notReference _ ih =>
    rw [hasUnknown_cons_iff notReference] at unknown
    rw [resolve?, if_neg notReference, ih unknown, Option.map_none]
  | @known c name s t refers _ ih =>
    have isName := refers.isReferenceName
    rw [hasUnknown_reference_iff isName] at unknown
    have unknown := unknown.resolve_left fun refersNot => refersNot c refers
    have plain : ∀ d ∈ name, d ≠ ';' ∧ d ≠ '&' := fun d hd => ⟨(isName d hd).2.1, (isName d hd).1⟩
    rw [resolve?, if_pos rfl, resolve?_name plain (referenced?_eq refers), ih unknown,
      Option.map_none]
  | unknown isName refersNot _ _ =>
    rw [resolve?, if_pos rfl]
    exact resolve?_unknown isName (referenced?_eq_none refersNot)

theorem Decoded.length_le (h : Decoded s t) : t.length ≤ s.length := by
  induction h with
  | nil => exact Nat.le.refl
  | plain _ _ ih => exact Nat.succ_le_succ ih
  | known _ _ ih =>
    simp only [List.length_cons, List.length_append]
    omega
  | unknown _ _ _ ih =>
    simp only [List.length_cons, List.length_append]
    omega

/-- Decoding leaves a text as it is if no reference in it is to a character, and only then: what is
resolved gets shorter. -/
theorem Decoded.eq_iff (h : Decoded s t) : t = s ↔ ¬ HasKnown s := by
  induction h with
  | nil =>
    refine iff_of_true rfl ?_
    rintro ⟨name, c, ⟨-, before, after, eq⟩, -⟩
    cases before <;> cases eq
  | plain notReference _ ih =>
    rw [hasKnown_cons_iff notReference, ← ih, List.cons.injEq, eq_self, true_and]
  | known refers rest _ =>
    refine iff_of_false (fun same => ?_) (fun noneKnown => noneKnown ?_)
    · have length := congrArg List.length same
      have shorter := rest.length_le
      simp only [List.length_cons, List.length_append] at length
      omega
    · exact (hasKnown_reference_iff refers.isReferenceName).2 (.inl ⟨_, refers⟩)
  | unknown isName refersNot _ ih =>
    rw [hasKnown_reference_iff isName, or_iff_right (not_exists.2 refersNot), ← ih]
    simp

theorem Decoded.unescape_eq_self (h : Decoded s t) (unknown : HasUnknown s) : unescape s = s := by
  rw [unescape, h.resolve?_eq_none unknown, Option.getD_none]

/-- The value of an attribute is the decoded text, unless there are references of both kinds. -/
theorem Decoded.unescape_eq_iff (h : Decoded s t) :
    unescape s = t ↔ ¬ (HasKnown s ∧ HasUnknown s) := by
  by_cases unknown : HasUnknown s
  · rw [h.unescape_eq_self unknown, eq_comm, h.eq_iff]
    simp [unknown]
  · rw [unescape, h.resolve?_eq_some unknown, Option.getD_some]
    simp [unknown]

end

end Calcsheet.Xml
