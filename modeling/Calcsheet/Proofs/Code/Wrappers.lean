import Calcsheet.Proofs.Code.Emission
import Calcsheet.Proofs.Code.Meaning
import Calcsheet.Proofs.Kind

/-!
# Elements put around others

Outside the mathematics of a worksheet it does not matter where elements stand, apart from applied
expressions that are regions of their own. Children of such an element that get a new parent of an
unknown name give what they gave before, and so the worksheet does (`members_of_wrapped`). Only the
new name is reported, if it is one of the math vocabulary.
-/

namespace Calcsheet.Code

/-- In the second tree some children in a row of one element stand in a new element named `wrapper`.
The element and all around it are outside the math vocabulary, and no applied expression is taken
out of a region. -/
inductive Wrapped (wrapper : QName) : Element → Element → Prop
  | here {name attributes text before run after attributes' text'} (outside : name.isMath = false)
    (regions : name = .bound Vocabulary.worksheet.uri "math" →
      ∀ c ∈ run, c.name ≠ .bound Vocabulary.math.uri "apply") :
    Wrapped wrapper (.mk name attributes text (before ++ (run ++ after)))
      (.mk name attributes text (before ++ .mk wrapper attributes' text' run :: after))
  | inside {name attributes text before e e' after} (outside : name.isMath = false)
    (inner : Wrapped wrapper e e') :
    Wrapped wrapper (.mk name attributes text (before ++ e :: after))
      (.mk name attributes text (before ++ e' :: after))

variable {wrapper : QName} {e e' : Element}

theorem emitOwn_of_outside (parent : Kind) (outside : e.name.isMath = false) :
    emitOwn parent e = .ok {} := by
  rw [emitOwn, if_neg (by simp [outside])]

/-- What an element gives for itself depends on its parent for applied expressions only. -/
theorem emitOwn_congr {parent parent' : Kind}
    (same : e.kind = .apply → (parent = .mathRegion ↔ parent' = .mathRegion)) :
    emitOwn parent e = emitOwn parent' e := by
  unfold emitOwn
  split
  · split
    case h_4 kind => simp only [same kind]
    all_goals rfl
  · rfl

/-- What the element put around others gives. -/
def wrapping (wrapper : QName) : Emission :=
  { unimplemented := if wrapper.isMath then [wrapper.localName] else [] }

theorem emitOwn_wrapper (unknown : Kind.of wrapper = .other) (parent : Kind)
    (attributes : Attributes) (text : String) (run : List Element) :
    emitOwn parent (.mk wrapper attributes text run) = .ok (wrapping wrapper) := by
  have kind : (Element.mk wrapper attributes text run).kind = .other := unknown
  rw [emitOwn, kind, wrapping]
  split <;> simp_all [Element.name, Element.localName]

namespace Wrapped

theorem name_eq (h : Wrapped wrapper e e') : e.name = e'.name := by
  cases h <;> rfl

theorem outside (h : Wrapped wrapper e e') : e.name.isMath = false := by
  cases h with
  | here outside | inside outside => exact outside

end Wrapped

/-- Elements in a row give the same in two parents if no applied expression is a region in one of
them only. -/
theorem map_emission_visitsOf_congr {parent parent' : Kind} {run : List Element}
    (same : ∀ c ∈ run, c.kind = .apply → (parent = .mathRegion ↔ parent' = .mathRegion)) :
    (visitsOf parent run).map Visit.emission = (visitsOf parent' run).map Visit.emission := by
  induction run with
  | nil => rfl
  | cons c rest ih =>
    obtain ⟨now, later⟩ := List.forall_mem_cons.1 same
    rw [visitsOf, visitsOf, visits_eq, visits_eq parent', List.map_append, List.map_append,
      List.map_cons, List.map_cons, ih later, Visit.emission, Visit.emission, emitOwn_congr now]

theorem map_emission_visits_of_outside (parent : Kind) (outside : e.name.isMath = false) :
    (visits parent e).map Visit.emission =
      .ok {} :: (visitsOf e.kind e.children).map Visit.emission := by
  rw [visits_eq, List.map_cons, Visit.emission, emitOwn_of_outside parent outside]

/-- The visits give what they gave, with what the wrapper gives put in at one place. -/
theorem Wrapped.exists_emissions (unknown : Kind.of wrapper = .other) (h : Wrapped wrapper e e') :
    ∃ xs ys, (visitsOf e.kind e.children).map Visit.emission = xs ++ ys ∧
      (visitsOf e'.kind e'.children).map Visit.emission = xs ++ .ok (wrapping wrapper) :: ys := by
  induction h with
  | @here name attributes text before run after attributes' text' outside regions =>
    have same : (visitsOf .other run).map Visit.emission =
        (visitsOf (Kind.of name) run).map Visit.emission := by
      refine map_emission_visitsOf_congr fun c hc apply => iff_of_false (by simp) fun region => ?_
      exact regions (Kind.of_eq_mathRegion_iff.1 region) c hc (Kind.of_eq_apply_iff.1 apply)
    refine ⟨(visitsOf (Kind.of name) before).map Visit.emission,
      (visitsOf (Kind.of name) (run ++ after)).map Visit.emission, ?_, ?_⟩
    · change (visitsOf (Kind.of name) (before ++ (run ++ after))).map Visit.emission = _
      rw [visitsOf_append, List.map_append]
    · change (visitsOf (Kind.of name) (before ++ .mk wrapper attributes' text' run :: after)).map
        Visit.emission = _
      rw [visitsOf_append, visitsOf, visits, unknown, visitsOf_append, List.map_append,
        List.map_append, List.map_append, List.map_cons, same, Visit.emission,
        emitOwn_wrapper unknown, List.cons_append]
  | @inside name attributes text before e e' after outside inner ih =>
    obtain ⟨xs, ys, first, second⟩ := ih
    refine ⟨(visitsOf (Kind.of name) before).map Visit.emission ++ .ok {} :: xs,
      ys ++ (visitsOf (Kind.of name) after).map Visit.emission, ?_, ?_⟩
    · change (visitsOf (Kind.of name) (before ++ e :: after)).map Visit.emission = _
      rw [visitsOf_append, visitsOf, List.map_append, List.map_append,
        map_emission_visits_of_outside _ inner.outside, first]
      simp
    · change (visitsOf (Kind.of name) (before ++ e' :: after)).map Visit.emission = _
      rw [visitsOf_append, visitsOf, List.map_append, List.map_append,
        map_emission_visits_of_outside _ (inner.name_eq ▸ inner.outside), second]
      simp

/-! ## Worksheets -/

theorem joined_insert (xs ys : List (Except Unsupported Emission)) (a : Emission) :
    joined (xs ++ .ok a :: ys) =
      (do
        let first ← joined xs
        let others ← joined ys
        .ok (first ++ (a ++ others))) := by
  rw [joined_append, joined]
  cases joined xs with
  | error u => rfl
  | ok first => cases joined ys <;> rfl

/-- Putting an element of an unknown name around children of an element outside the mathematics
changes nothing but the names that are reported: the error is the same, or the code and the warnings
about units are, and the name of the new element is reported if it is one of the math vocabulary. -/
theorem members_of_wrapped (unknown : Kind.of wrapper = .other) {document document' : Document}
    (wrapped : Wrapped wrapper document.root document'.root) :
    (∃ u, members document = .error u ∧ members document' = .error u) ∨
      ∃ (code : String) (units : List Warning) (names names' : List String),
        members document = .ok { value := code, warnings := units ++ names.map .unimplemented } ∧
        members document' = .ok { value := code, warnings := units ++ names'.map .unimplemented } ∧
        (∀ w ∈ units, isUnitWarning w = true) ∧
        names.Pairwise (· < ·) ∧ names'.Pairwise (· < ·) ∧
        ∀ n, n ∈ names' ↔ n ∈ names ∨ wrapper.isMath = true ∧ n = wrapper.localName := by
  obtain ⟨xs, ys, first, second⟩ := wrapped.exists_emissions unknown
  have plain := emitRoot_eq_joined document.root
  have around := emitRoot_eq_joined document'.root
  rw [first, joined_append] at plain
  rw [second, joined_insert] at around
  rw [members, members, plain, around]
  cases hxs : joined xs with
  | error u => exact .inl ⟨u, rfl, rfl⟩
  | ok a =>
    cases hys : joined ys with
    | error u => exact .inl ⟨u, rfl, rfl⟩
    | ok b =>
      rw [hxs, hys] at plain
      refine .inr ⟨_, (a ++ b).discarded, Text.sortedNames (a ++ b).unimplemented,
        Text.sortedNames (a ++ (wrapping wrapper ++ b)).unimplemented, rfl, rfl,
        isUnitWarning_of_emitRoot plain, Text.pairwise_sortedNames _,
        Text.pairwise_sortedNames _, fun n => ?_⟩
      rw [Text.mem_sortedNames, Text.mem_sortedNames]
      change n ∈ a.unimplemented ++ ((wrapping wrapper).unimplemented ++ b.unimplemented) ↔
        n ∈ a.unimplemented ++ b.unimplemented ∨ _
      rw [wrapping]
      split <;> simp_all [or_left_comm, or_comm]

/-- The definition of `x` as 1. -/
def unitDefinition : Element :=
  mathElement "define" "" [mathElement "id" "x" [], mathElement "real" "1" []]

/-- The expression `-y`. -/
def negation : Element :=
  mathElement "apply" "" [mathElement "neg" "" [], mathElement "id" "y" []]

/-- The code of the definition and the expression. -/
def twoMembers : List Piece :=
  [.line "public double x = 1;",
    .line "public double Function \x7b get \x7b return (-1.0 * (y)); \x7d \x7d"]

theorem members_of_wrapped_unitDefinition :
    ∃ document document', Document.build (regionSheet [unitDefinition, negation]) = .ok document ∧
      Document.build (regionSheet [mathElement "summation" "" [unitDefinition], negation]) =
        .ok document' ∧
      Wrapped (.bound Vocabulary.math.uri "summation") document.root document'.root ∧
      members document = .ok
        { value := layOut 4 twoMembers,
          warnings := ["id", "neg", "real"].map .unimplemented } ∧
      ∃ r', members document' = .ok r' ∧ r'.value = layOut 4 twoMembers ∧
        r'.warnings = ["id", "neg", "real", "summation"].map .unimplemented := by
  obtain ⟨document, built, root⟩ := Document.exists_build (regionSheet [unitDefinition, negation])
  obtain ⟨document', built', root'⟩ :=
    Document.exists_build (regionSheet [mathElement "summation" "" [unitDefinition], negation])
  have wrapped : Wrapped (.bound Vocabulary.math.uri "summation") document.root document'.root := by
    rw [root, root']
    exact @Wrapped.inside _ _ _ _ [] _ _ [] (by decide)
      (@Wrapped.here _ _ _ _ [] [_] [_] _ _ (by decide) fun _ => by decide)
  have ok : members document = .ok
      { value := layOut 4 twoMembers,
        warnings := ["id", "neg", "real"].map .unimplemented } := by
    rw [members, root]
    rfl
  obtain ⟨u, refused, -⟩ | ⟨code, units, names, names', first, second, -⟩ :=
    members_of_wrapped (by decide) wrapped
  · cases ok.symm.trans refused
  · have same := congrArg Converted.value (Except.ok.inj (first.symm.trans ok))
    refine ⟨document, document', built, built', wrapped, ok, _, second, same, ?_⟩
    obtain ⟨emission, emitted, warnings⟩ : ∃ emission, emitRoot document'.root = .ok emission ∧
        emission.warnings = ["id", "neg", "real", "summation"].map .unimplemented := by
      rw [root']
      exact ⟨_, rfl, rfl⟩
    exact (warnings_eq_of_emitRoot second emitted).trans warnings

end Calcsheet.Code
