import Calcsheet.Proofs.Code.Acceptance
import Calcsheet.Proofs.Code.Layout
import Calcsheet.Proofs.Code.Visits
import Calcsheet.Proofs.Document.Build
import Calcsheet.Proofs.Text.Sorted

/-!
# Emission in document order

What elements in a row give is what the first ones give, followed by what the others give, and the
first error counts (`emitElements_append`). So a worksheet that is put together from two lists of
elements has the code of the one followed by the code of the other (`members_append`). What each
element gives for itself depends on the element and the kind of its parent only, and a property that
each of these has and that `++` keeps is a property of the whole (`emitRoot_induction`).
-/

namespace Calcsheet.Code

theorem emitElements_append (parent : Kind) (es es' : List Element) :
    emitElements parent (es ++ es') =
      (do
        let first ← emitElements parent es
        let others ← emitElements parent es'
        .ok (first ++ others)) := by
  rw [emitElements_eq_joined, visitsOf_append, List.map_append, joined_append,
    ← emitElements_eq_joined, ← emitElements_eq_joined]

/-- What each element below the root gives for itself has it, so the worksheet has it. -/
theorem emitRoot_induction {P : Emission → Prop} (empty : P {})
    (append : ∀ {a b}, P a → P b → P (a ++ b)) {root : Element}
    (own : ∀ e ∈ root.descendants, ∀ {parent r}, emitOwn parent e = .ok r → P r) {r : Emission}
    (h : emitRoot root = .ok r) : P r := by
  rw [emitRoot_eq_joined] at h
  refine walk_induction id joined rfl (fun _ _ => rfl) empty (fun x hx r s hr hs => ?_) h
  obtain ⟨v, hv, rfl⟩ := List.mem_map.1 hx
  have below : v.element ∈ root.descendants := by
    rw [Element.descendants_eq, ← map_element_visitsOf root.kind]
    exact List.mem_map_of_mem hv
  exact append (own v.element below hr) hs

/-! ## Warnings -/

/-- The warning is about a unit. -/
def isUnitWarning (w : Warning) : Bool :=
  match w.cause with
  | .unitDiscarded _ => true
  | _ => false

theorem isUnitWarning_of_emitOwn {parent : Kind} {e : Element} {r : Emission}
    (h : emitOwn parent e = .ok r) : ∀ w ∈ r.discarded, isUnitWarning w = true := by
  cases OwnRule.of_emitOwn h with
  | evaluation kind ok =>
    cases EvaluationRule.of_evaluation ok with
    | pending | shown => simp
    | shownIn => simp [isUnitWarning, Warning.unitDiscarded]
  | definition | function | unimplemented | nothing => simp

theorem isUnitWarning_of_emitRoot {root : Element} {r : Emission} (h : emitRoot root = .ok r) :
    ∀ w ∈ r.discarded, isUnitWarning w = true := by
  refine emitRoot_induction (P := fun r => ∀ w ∈ r.discarded, isUnitWarning w = true)
    (by simp) (fun ha hb w hw => ?_) (fun _ _ => isUnitWarning_of_emitOwn) h
  exact (List.mem_append.1 hw).elim (ha w) (hb w)

namespace Emission

variable {r : Emission} (units : ∀ w ∈ r.discarded, isUnitWarning w = true)

include units

theorem filter_warnings : r.warnings.filter isUnitWarning = r.discarded := by
  have names : ((Text.sortedNames r.unimplemented).map Warning.unimplemented).filter
      isUnitWarning = [] := by
    simp [isUnitWarning, Warning.unimplemented]
  rw [warnings, List.filter_append, List.filter_eq_self.2 units, names, List.append_nil]

theorem unimplemented_warnings :
    r.warnings.filterMap Warning.unimplementedName? = Text.sortedNames r.unimplemented := by
  have none : r.discarded.filterMap Warning.unimplementedName? = [] := by
    refine List.filterMap_eq_nil_iff.2 fun w hw => ?_
    have unit := units w hw
    unfold isUnitWarning at unit
    split at unit
    · next cause => simp [Warning.unimplementedName?, cause]
    · cases unit
  rw [warnings, List.filterMap_append, none, List.nil_append, List.filterMap_map]
  exact List.filterMap_some

end Emission

/-! ## Worksheets in two parts -/

/-- The members of a worksheet whose elements come in two lists. An error is the first list's, or
else the second's. Otherwise the code and the warnings about units follow on each other, and the
names without a rule are those of both lists, in increasing order. -/
theorem members_append (name : QName) (attributes : Attributes) (text : String)
    (es es' : List Element) :
    ∃ d d' both, Document.build (.mk name attributes text es) = .ok d ∧
      Document.build (.mk name attributes text es') = .ok d' ∧
      Document.build (.mk name attributes text (es ++ es')) = .ok both ∧
      ((∃ u, members d = .error u ∧ members both = .error u) ∨
        (∃ r u, members d = .ok r ∧ members d' = .error u ∧ members both = .error u) ∨
        ∃ r r' s, members d = .ok r ∧ members d' = .ok r' ∧ members both = .ok s ∧
          s.value = r.value ++ r'.value ∧
          s.warnings.filter isUnitWarning =
            r.warnings.filter isUnitWarning ++ r'.warnings.filter isUnitWarning ∧
          s.unimplemented.Pairwise (· < ·) ∧
          ∀ n, n ∈ s.unimplemented ↔ n ∈ r.unimplemented ∨ n ∈ r'.unimplemented) := by
  obtain ⟨d, hd, root⟩ := Document.exists_build (.mk name attributes text es)
  obtain ⟨d', hd', root'⟩ := Document.exists_build (.mk name attributes text es')
  obtain ⟨both, hboth, rootBoth⟩ := Document.exists_build (.mk name attributes text (es ++ es'))
  refine ⟨d, d', both, hd, hd', hboth, ?_⟩
  -- the three roots have the same kind, which is all of the root that counts
  have parts : emitRoot both.root = (do
      let first ← emitRoot d.root
      let others ← emitRoot d'.root
      .ok (first ++ others)) := by
    rw [root, root', rootBoth, Element.trimmed, Element.trimmedAll_append]
    exact emitElements_append (Kind.of name) _ _
  cases h : emitRoot d.root with
  | error u =>
    rw [h] at parts
    exact .inl ⟨u, by rw [members, h]; rfl, by rw [members, parts]; rfl⟩
  | ok a =>
    cases h' : emitRoot d'.root with
    | error u =>
      rw [h, h'] at parts
      exact .inr (.inl ⟨_, u, by rw [members, h]; rfl, by rw [members, h']; rfl,
        by rw [members, parts]; rfl⟩)
    | ok b =>
      rw [h, h'] at parts
      have units := isUnitWarning_of_emitRoot h
      have units' := isUnitWarning_of_emitRoot h'
      have unitsBoth := isUnitWarning_of_emitRoot parts
      refine .inr (.inr ⟨_, _, _, by rw [members, h]; rfl, by rw [members, h']; rfl,
        by rw [members, parts]; rfl, layOut_append _ a.code b.code, ?_, ?_, fun n => ?_⟩)
      · rw [Emission.filter_warnings units, Emission.filter_warnings units',
          Emission.filter_warnings unitsBoth]
        rfl
      · rw [Converted.unimplemented, Emission.unimplemented_warnings unitsBoth]
        exact Text.pairwise_sortedNames _
      · rw [Converted.unimplemented, Converted.unimplemented, Converted.unimplemented,
          Emission.unimplemented_warnings units, Emission.unimplemented_warnings units',
          Emission.unimplemented_warnings unitsBoth, Text.mem_sortedNames, Text.mem_sortedNames,
          Text.mem_sortedNames]
        exact List.mem_append

theorem members_of_emitRoot {document : Document} {emission : Emission}
    (h : emitRoot document.root = .ok emission) :
    members document = .ok { value := layOut 4 emission.code, warnings := emission.warnings } := by
  rw [members, h]
  rfl

theorem warnings_eq_of_emitRoot {document : Document} {emission : Emission}
    {r : Converted String} (h : members document = .ok r)
    (emitted : emitRoot document.root = .ok emission) : r.warnings = emission.warnings :=
  congrArg Converted.warnings (Except.ok.inj (h.symm.trans (members_of_emitRoot emitted)))

/-- A worksheet with one region. -/
def regionSheet (children : List Element) : Element :=
  .mk (.bound Vocabulary.worksheet.uri "worksheet") .empty ""
    [.mk (.bound Vocabulary.worksheet.uri "math") .empty "" children]

end Calcsheet.Code
