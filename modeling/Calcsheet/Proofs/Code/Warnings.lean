import Calcsheet.Proofs.Code.Emission
import Calcsheet.Proofs.Code.Meaning
import Calcsheet.Proofs.Kind

/-!
# Warnings of a worksheet

A worksheet that has code has warnings of two sorts. There is one for each evaluation that shows its
result in a unit, in document order, and then one for each name of an element that has no rule
where it stands, in increasing order. There are no others (`warnings_of_members_or_emit`). The
elements inside a definition or an evaluation are visited for themselves too, so that their names
are among those without a rule.
-/

namespace Calcsheet

theorem QName.eq_bound_math_iff {name : QName} {localName : String} :
    name = .bound Vocabulary.math.uri localName ↔
      name.isMath = true ∧ name.localName = localName := by
  cases name
  simp [QName.bound, QName.isMath]

namespace Code

/-- The element is an evaluation with a third child, which gives the unit of the result. -/
def isShownInUnit (e : Element) : Bool :=
  e.name = .bound Vocabulary.math.uri "eval" ∧ e.children.length = 3

/-- The warning that the unit of an evaluation stays in a comment. -/
inductive UnitWarning (e : Element) : Warning → Prop
  | intro {target override result unit : Element} {shown shownIn : Fragment}
    (children : e.children = [target, override, result]) (inside : override.children = [unit])
    (assignee : value target = .ok shown) (united : value unit = .ok shownIn) :
    UnitWarning e
      { severity := .info, cause := .unitDiscarded shownIn.render,
        message := "unit " ++ shownIn.render ++ " on " ++ shown.render ++
          " kept only as a comment" }

/-- The element of the math vocabulary has no rule inside the parent: it is no definition and no
evaluation, and no applied expression that is a region of its own. -/
structure LacksRule (parent e : Element) : Prop where
  math : e.name.isMath = true
  noMember : e.localName ∉ ["define", "globalDefine", "eval"]
  noRegion : ¬ (e.localName = "apply" ∧ parent.name = .bound Vocabulary.worksheet.uri "math")

/-! ## What one element reports -/

/-- There is no rule for the element that is visited. -/
def Visit.lacksRule (v : Visit) : Bool :=
  v.element.name.isMath ∧ v.element.kind ∉ [.define, .globalDefine, .eval] ∧
    ¬ (v.element.kind = .apply ∧ v.parent = .mathRegion)

theorem kind_eq_iff {e : Element} {localName : String} {kind : Kind}
    (listed : (localName, kind) ∈ Vocabulary.math.entries) (math : e.name.isMath = true) :
    e.kind = kind ↔ e.localName = localName := by
  rw [Element.kind, Kind.of_eq_iff listed, QName.eq_bound_math_iff, Element.localName]
  exact and_iff_right math

theorem Visit.lacksRule_iff {parent e : Element} :
    (Visit.mk parent.kind e).lacksRule = true ↔ LacksRule parent e := by
  have region : parent.kind = .mathRegion ↔ parent.name = .bound Vocabulary.worksheet.uri "math" :=
    Kind.of_eq_mathRegion_iff
  rw [Visit.lacksRule, decide_eq_true_eq, region]
  by_cases math : e.name.isMath = true
  · have define : e.kind = .define ↔ e.localName = "define" := kind_eq_iff (by decide) math
    have globalDefine : e.kind = .globalDefine ↔ e.localName = "globalDefine" :=
      kind_eq_iff (by decide) math
    have eval : e.kind = .eval ↔ e.localName = "eval" := kind_eq_iff (by decide) math
    have apply : e.kind = .apply ↔ e.localName = "apply" := kind_eq_iff (by decide) math
    simp only [List.mem_cons, List.not_mem_nil, or_false, define, globalDefine, eval, apply]
    exact ⟨fun ⟨_, noMember, noRegion⟩ => ⟨math, by simpa using noMember, noRegion⟩,
      fun h => ⟨math, by simpa using h.noMember, h.noRegion⟩⟩
  · exact iff_of_false (fun h => math h.1) fun h => math h.math

theorem unimplemented_of_emission {v : Visit} {r : Emission} (h : v.emission = .ok r) :
    r.unimplemented = if v.lacksRule then [v.element.localName] else [] := by
  unfold Visit.emission emitOwn at h
  split at h
  · next math =>
    split at h
    · next kind =>
      simp only [bind_eq_ok_iff, Except.ok.injEq] at h
      obtain ⟨code, -, rfl⟩ := h
      simp [Visit.lacksRule, kind]
    · next kind =>
      simp only [bind_eq_ok_iff, Except.ok.injEq] at h
      obtain ⟨code, -, rfl⟩ := h
      simp [Visit.lacksRule, kind]
    · next kind =>
      simp only [bind_eq_ok_iff, Except.ok.injEq] at h
      obtain ⟨⟨code, discarded⟩, -, rfl⟩ := h
      simp [Visit.lacksRule, kind]
    · next kind =>
      split at h
      · next region =>
        simp only [bind_eq_ok_iff, Except.ok.injEq] at h
        obtain ⟨f, -, rfl⟩ := h
        simp [Visit.lacksRule, kind, region]
      · next region =>
        cases h
        simp [Visit.lacksRule, math, kind, region]
    · cases h
      simp_all [Visit.lacksRule]
  · next math =>
    cases h
    simp [Visit.lacksRule, math]

theorem exists_of_unitOf {e : Element} {f : Fragment} (h : unitOf e = .ok f) :
    ∃ unit, e.children = [unit] ∧ value unit = .ok f := by
  unfold unitOf at h
  split at h
  · next unit children =>
    split at h
    · exact ⟨unit, children, h⟩
    · cases h
  · cases h

theorem EvaluationRule.unitWarning {e : Element} {r : List Piece × List Warning}
    (eval : e.name = .bound Vocabulary.math.uri "eval") (h : EvaluationRule e r) :
    List.Forall₂ UnitWarning ([e].filter isShownInUnit) r.2 := by
  cases h with
  | pending children | shown children =>
    rw [List.filter_eq_nil_iff.2 (by simp [isShownInUnit, children])]
    exact .nil
  | shownIn children kinds assignee united =>
    obtain ⟨unit, inside, united⟩ := exists_of_unitOf united
    rw [List.filter_eq_self.2 (by simp [isShownInUnit, children, eval])]
    exact .cons (.intro children inside assignee united) .nil

/-- An evaluation warns about its unit if it has three children. Nothing else does. -/
theorem unitWarning_of_emission {v : Visit} {r : Emission} (h : v.emission = .ok r) :
    List.Forall₂ UnitWarning ([v.element].filter isShownInUnit) r.discarded := by
  have named : v.element.kind = .eval ↔ v.element.name = .bound Vocabulary.math.uri "eval" :=
    Kind.of_eq_eval_iff
  by_cases kind : v.element.kind = .eval
  · have eval := named.1 kind
    rw [Visit.emission, emitOwn, if_pos (QName.eq_bound_math_iff.1 eval).1, kind] at h
    simp only [bind_eq_ok_iff, Except.ok.injEq] at h
    obtain ⟨⟨code, discarded⟩, ok, rfl⟩ := h
    exact (EvaluationRule.of_evaluation ok).unitWarning eval
  · have none : r.discarded = [] := by
      cases OwnRule.of_emitOwn h with
      | evaluation eval => exact absurd eval kind
      | definition | function | unimplemented | nothing => rfl
    rw [none, List.filter_eq_nil_iff.2 (by simp [isShownInUnit, ← named, kind])]
    exact .nil

/-! ## What a worksheet reports -/

/-- What holds of no visits and is kept by one more in front holds of all visits. -/
theorem joined_induction {P : List Visit → Emission → Prop} (nil : P [] {})
    (cons : ∀ {v vs a b}, v.emission = .ok a → P vs b → P (v :: vs) (a ++ b)) {vs : List Visit}
    {r : Emission} (h : joined (vs.map Visit.emission) = .ok r) : P vs r := by
  induction vs generalizing r with
  | nil =>
    obtain rfl := Except.ok.inj h
    exact nil
  | cons v rest ih =>
    simp only [List.map_cons, joined, bind_eq_ok_iff, Except.ok.injEq] at h
    obtain ⟨a, ha, b, hb, rfl⟩ := h
    exact cons ha (ih hb)

theorem unimplemented_of_joined {vs : List Visit} {r : Emission}
    (h : joined (vs.map Visit.emission) = .ok r) :
    r.unimplemented = (vs.filter Visit.lacksRule).map fun v => v.element.localName := by
  refine joined_induction (P := fun vs r => r.unimplemented =
    (vs.filter Visit.lacksRule).map fun v => v.element.localName) rfl (fun {v vs a b} ha hb => ?_) h
  change a.unimplemented ++ b.unimplemented = _
  rw [unimplemented_of_emission ha, hb, List.filter_cons]
  split <;> simp

theorem unitWarning_of_joined {vs : List Visit} {r : Emission}
    (h : joined (vs.map Visit.emission) = .ok r) :
    List.Forall₂ UnitWarning ((vs.map Visit.element).filter isShownInUnit) r.discarded := by
  refine joined_induction (P := fun vs r =>
    List.Forall₂ UnitWarning ((vs.map Visit.element).filter isShownInUnit) r.discarded) .nil
    (fun {v vs a b} ha hb => ?_) h
  rw [List.map_cons, ← List.singleton_append, List.filter_append]
  exact List.rel_append (unitWarning_of_emission ha) hb

/-- The warnings of a worksheet that has code, bare or as a source file: one for each evaluation
that shows its result in a unit, in document order, then one for each name of an element without a
rule, in increasing order. -/
theorem warnings_of_members_or_emit {document : Document} {r : Converted String}
    (h : members document = .ok r ∨ ∃ options, emit options document = .ok r) :
    ∃ (units : List Warning) (names : List String), r.warnings = units ++ names.map (fun name =>
        { severity := .minor, cause := .unimplemented name,
          message := "not yet implemented: " ++ name }) ∧
      List.Forall₂ UnitWarning (document.root.descendants.filter isShownInUnit) units ∧
      names.Pairwise (· < ·) ∧
      ∀ name, name ∈ names ↔ ∃ parent e, (parent = document.root ∨
        parent ∈ document.root.descendants) ∧ e ∈ parent.children ∧ LacksRule parent e ∧
        e.localName = name := by
  have emitted : ∃ emission, emitRoot document.root = .ok emission ∧
      r.warnings = emission.warnings := by
    simp only [members, emit, bind_eq_ok_iff, Except.ok.injEq] at h
    obtain ⟨emission, ok, rfl⟩ | ⟨options, emission, ok, rfl⟩ := h <;> exact ⟨emission, ok, rfl⟩
  obtain ⟨emission, ok, warnings⟩ := emitted
  rw [emitRoot_eq_joined] at ok
  refine ⟨emission.discarded, Text.sortedNames emission.unimplemented, warnings, ?_,
    Text.pairwise_sortedNames _, fun name => ?_⟩
  · have units := unitWarning_of_joined ok
    rwa [map_element_visitsOf, ← Element.descendants_eq] at units
  · rw [Text.mem_sortedNames, unimplemented_of_joined ok, List.mem_map]
    constructor
    · rintro ⟨v, hv, rfl⟩
      obtain ⟨visited, lacks⟩ := List.mem_filter.1 hv
      obtain ⟨parent, hparent, e, he, rfl⟩ := mem_visitsOf_iff.1 visited
      exact ⟨parent, e, hparent, he, Visit.lacksRule_iff.1 lacks, rfl⟩
    · rintro ⟨parent, e, hparent, he, lacks, rfl⟩
      refine ⟨⟨parent.kind, e⟩, List.mem_filter.2 ⟨?_, Visit.lacksRule_iff.2 lacks⟩, rfl⟩
      exact mem_visitsOf_iff.2 ⟨parent, hparent, e, he, rfl⟩

/-- A region with the length `x`, shown in metres inside an element without a rule, and with `-y`. -/
def lengthSheet : Element :=
  regionSheet
    [mathElement "summation" "" [mathElement "eval" "" [mathElement "id" "x" [],
      mathElement "unitOverride" "" [mathElement "id" "m" []],
      mathElement "result" "" [mathElement "real" "2" []]]],
     mathElement "apply" "" [mathElement "neg" "" [], mathElement "id" "y" []]]

theorem warnings_of_lengthSheet :
    ∃ document r, Document.build lengthSheet = .ok document ∧ members document = .ok r ∧
      r.warnings = .unitDiscarded "m" "x" ::
        ["id", "neg", "real", "result", "summation", "unitOverride"].map .unimplemented ∧
      ∃ (units : List Warning) (names : List String), r.warnings = units ++ names.map (fun name =>
          { severity := .minor, cause := .unimplemented name,
            message := "not yet implemented: " ++ name }) ∧
        List.Forall₂ UnitWarning (document.root.descendants.filter isShownInUnit) units ∧
        names.Pairwise (· < ·) ∧
        ∀ name, name ∈ names ↔ ∃ parent e, (parent = document.root ∨
          parent ∈ document.root.descendants) ∧ e ∈ parent.children ∧ LacksRule parent e ∧
          e.localName = name := by
  obtain ⟨document, built, root⟩ := Document.exists_build lengthSheet
  obtain ⟨emission, emitted, warnings⟩ :
      ∃ emission, emitRoot document.root = .ok emission ∧ emission.warnings =
        .unitDiscarded "m" "x" ::
          ["id", "neg", "real", "result", "summation", "unitOverride"].map .unimplemented := by
    rw [root]
    exact ⟨_, rfl, by decide +kernel⟩
  have ok := members_of_emitRoot emitted
  exact ⟨document, _, built, ok, warnings, warnings_of_members_or_emit (.inl ok)⟩

end Code

end Calcsheet
