import Calcsheet.Proofs.Code.AcceptedValue
import Calcsheet.Proofs.Code.MemberRules
import Calcsheet.Proofs.Kind

/-!
# The code generator accepts exactly its language

There is code for an element where it stands exactly if the grammar has it there. The proof goes up
from values through matrices, programs, definitions and evaluations to whole worksheets.
-/

namespace Calcsheet.Code

/-! ## Ranges and matrices -/

theorem exists_rangeOf_iff {e : Element} (kind : e.kind = .range) :
    (∃ f, rangeOf e = .ok f) ↔ GoodRange e := by
  constructor
  · rintro ⟨f, h⟩
    unfold rangeOf at h
    split at h
    · next first bound children =>
      split at h
      · next kinds =>
        simp only [bind_eq_ok_iff] at h
        obtain ⟨a, -, b, hb, -⟩ := h
        refine ⟨kind, first, bound, children, kinds.1, ?_⟩
        rcases kinds.2 with parens | id
        · exact .inr ((exists_value_iff_goodParens parens).1 ⟨b, hb⟩)
        · exact .inl id
      · cases h
    · cases h
  · rintro ⟨-, first, bound, children, hfirst, hbound⟩
    obtain ⟨a, ha⟩ := exists_value_of_real hfirst
    rcases hbound with id | parens
    · obtain ⟨b, hb⟩ := exists_value_of_id id
      simp [rangeOf, children, hfirst, id, ha, hb, bind, Except.bind]
    · obtain ⟨b, hb⟩ := (exists_value_iff_goodParens parens.kind).2 parens
      simp [rangeOf, children, hfirst, parens.kind, ha, hb, bind, Except.bind]

theorem exists_complexLiteral_iff (position : Position) {e : Element} (kind : e.kind = .complex) :
    (∃ f, complexLiteral position e = .ok f) ↔ GoodComplex e := by
  have found (k : Kind) : (∃ c ∈ e.children, c.kind = k) ↔
      ∃ c, e.children.find? (fun c => c.kind = k) = some c := by
    rw [← Option.isSome_iff_exists, List.find?_isSome]
    simp
  rw [GoodComplex, found, found]
  simp only [complexLiteral_eq_ok_iff]
  constructor
  · rintro ⟨f, re, im, hre, him, -⟩
    exact ⟨kind, ⟨re, hre⟩, im, him⟩
  · rintro ⟨-, ⟨re, hre⟩, im, him⟩
    exact ⟨_, re, im, hre, him, rfl⟩

theorem GoodComplex.kind {e : Element} (h : GoodComplex e) : e.kind = .complex :=
  h.1

theorem exists_cell_iff (e : Element) :
    (∃ f, cell e = .ok f) ↔ e.kind = .real ∨ GoodComplex e ∨ GoodApply e ∨ GoodParens e := by
  constructor
  · intro h
    unfold cell at h
    split at h
    · next kind => exact .inl kind
    · next kind => exact .inr (.inr (.inl ((exists_value_iff_goodApply kind).1 h)))
    · next kind => exact .inr (.inr (.inr ((exists_value_iff_goodParens kind).1 h)))
    · next kind => exact .inr (.inl ((exists_complexLiteral_iff _ kind).1 h))
    · simp [unsupported] at h
  · rintro (kind | good | good | good)
    · rw [cell, kind]
      exact exists_value_of_real kind
    · rw [cell, good.kind]
      exact (exists_complexLiteral_iff _ good.kind).2 good
    · rw [cell, good.kind]
      exact (exists_value_iff_goodApply good.kind).2 good
    · rw [cell, good.kind]
      exact (exists_value_iff_goodParens good.kind).2 good

theorem exists_cells_iff (es : List Element) :
    (∃ fs, cells es = .ok fs) ↔ ∀ e ∈ es, ∃ f, cell e = .ok f :=
  exists_walk_iff cell cells rfl (fun _ _ => rfl) es

theorem cells_eq_nil_iff {es : List Element} {fs : List Fragment} (h : cells es = .ok fs) :
    fs = [] ↔ es = [] := by
  cases es with
  | nil =>
    cases h
    simp
  | cons e rest =>
    simp only [cells, bind_eq_ok_iff, Except.ok.injEq] at h
    obtain ⟨f, -, fs', -, rfl⟩ := h
    simp

theorem exists_matrixCode_iff (name : String) {e : Element} (kind : e.kind = .matrix) :
    (∃ ps, matrixCode name e = .ok ps) ↔ GoodMatrix e := by
  have size : (e.attributes.count? "rows").getD 0 ≠ 0 ↔
      ∃ rows, e.attributes.count? "rows" = some rows ∧ 0 < rows := by
    cases e.attributes.count? "rows" with
    | none => simp
    | some rows => simp [Nat.pos_iff_ne_zero]
  simp only [GoodMatrix, matrixCode, gridOf, exists_bind_ok_iff, ← exists_cell_iff,
    ← exists_cells_iff, kind, true_and, ← size]
  constructor
  · rintro ⟨g, h, -⟩
    obtain ⟨fs, hfs, hg⟩ := bind_eq_ok_iff.1 h
    refine ⟨⟨fs, hfs⟩, fun some none => ?_⟩
    rw [if_pos ⟨none, by simpa [cells_eq_nil_iff hfs] using some⟩] at hg
    cases hg
  · rintro ⟨⟨fs, hfs⟩, rows⟩
    refine ⟨_, bind_eq_ok_iff.2 ⟨fs, hfs, if_neg ?_⟩, _, rfl⟩
    rintro ⟨none, some⟩
    have : fs ≠ [] := by simpa using some
    exact rows (mt (cells_eq_nil_iff hfs).2 this) none

/-! ## Programs -/

theorem exists_statements_iff (es : List Element) :
    (∃ ps, statements es = .ok ps) ↔ ∀ e ∈ es, ∃ ps, statement e = .ok ps :=
  exists_walk_iff statement statements (by rw [statements]) (fun _ _ => by rw [statements]) es

theorem GoodProgram.kind {e : Element} (h : GoodProgram e) : e.kind = .program := by
  cases h
  assumption

theorem exists_program_iff_of_children {e : Element} (kind : e.kind = .program)
    (children : ∀ c ∈ e.children, (∃ ps, statement c = .ok ps) ↔ GoodStatement c) :
    (∃ ps, program e = .ok ps) ↔ GoodProgram e := by
  rw [program_eq, exists_statements_iff]
  constructor
  · intro h
    exact .mk kind fun c hc => (children c hc).1 (h c hc)
  · rintro ⟨-, good⟩ c hc
    exact (children c hc).2 (good c hc)

theorem exists_statement_iff (e : Element) : (∃ ps, statement e = .ok ps) ↔ GoodStatement e := by
  induction e using Element.inductionBelow with
  | step e below =>
    -- a branch runs a program, whose statements are two levels below it
    have body {c : Element} (hc : c ∈ e.children) (kind : c.kind = .program) :
        (∃ ps, program c = .ok ps) ↔ GoodProgram c :=
      exists_program_iff_of_children kind fun d hd =>
        below d (Element.mem_descendants_of_mem_children_children hc hd)
    constructor
    · rintro ⟨ps, h⟩
      cases StatementRule.of_statement h with
      | branch kind children test choice guarded ok =>
        have good := (exists_value_iff_goodApply test).1 ⟨_, guarded⟩
        exact .runs kind children good
          ((body (by simp [children]) choice).1 ⟨_, (program_eq _).trans ok⟩)
      | answer kind children test choice guarded ok =>
        exact .returns kind children ((exists_value_iff_goodApply test).1 ⟨_, guarded⟩) choice
      | expression kind ok => exact .apply ((exists_value_iff_goodApply kind).1 ⟨_, ok⟩)
    · rintro (good | ⟨kind, children, guard, branch⟩ | ⟨kind, children, guard, branch⟩)
      · obtain ⟨f, hf⟩ := (exists_value_iff_goodApply good.kind).2 good
        simp [statement_eq, good.kind, hf, bind, Except.bind]
      · obtain ⟨f, hf⟩ := (exists_value_iff_goodApply guard.kind).2 guard
        obtain ⟨g, hg⟩ := exists_value_of_real branch
        simp [statement_eq, kind, children, guard.kind, branch, hf, hg, bind, Except.bind]
      · obtain ⟨f, hf⟩ := (exists_value_iff_goodApply guard.kind).2 guard
        obtain ⟨ps, hps⟩ := (body (by simp [children]) branch.kind).2 branch
        simp [statement_eq, kind, children, guard.kind, branch.kind, hf, hps, bind, Except.bind]

theorem exists_program_iff {e : Element} (kind : e.kind = .program) :
    (∃ ps, program e = .ok ps) ↔ GoodProgram e :=
  exists_program_iff_of_children kind fun c _ => exists_statement_iff c

/-! ## Definitions -/

theorem exists_parameters_iff (es : List Element) :
    (∃ names, parameters es = .ok names) ↔ ∀ e ∈ es, GoodValue e := by
  simp only [← exists_value_iff]
  exact exists_walk_iff value parameters rfl (fun _ _ => rfl) es

theorem exists_signature_iff {e : Element} (kind : e.kind = .function) :
    (∃ line, signature e = .ok line) ↔ GoodFunction e := by
  constructor
  · rintro ⟨line, h⟩
    unfold signature at h
    split at h
    · next name vars children =>
      split at h
      · next kinds =>
        obtain ⟨names, hnames, -⟩ := bind_eq_ok_iff.1 h
        exact ⟨kind, name, vars, children, kinds.1, kinds.2,
          (exists_parameters_iff vars.children).1 ⟨names, hnames⟩⟩
      · cases h
    · cases h
  · rintro ⟨-, name, vars, children, hname, hvars, good⟩
    obtain ⟨names, hnames⟩ := (exists_parameters_iff vars.children).2 good
    simp [signature, children, hname, hvars, hnames, bind, Except.bind]

theorem GoodFunction.kind {e : Element} (h : GoodFunction e) : e.kind = .function :=
  h.1

theorem GoodRange.kind {e : Element} (h : GoodRange e) : e.kind = .range :=
  h.1

theorem GoodMatrix.kind {e : Element} (h : GoodMatrix e) : e.kind = .matrix :=
  h.1

section DefinitionOf

variable {whole left right : Element}

theorem GoodApply.or_goodParens {e : Element} {f : Fragment}
    (kinds : e.kind = .apply ∨ e.kind = .parens) (h : value e = .ok f) : GoodApply e ∨ GoodParens e :=
  kinds.imp (fun kind => (exists_value_iff_goodApply kind).1 ⟨f, h⟩)
    fun kind => (exists_value_iff_goodParens kind).1 ⟨f, h⟩

theorem DefinitionRule.goodSides {ps : List Piece} (h : DefinitionRule left right ps) :
    left.kind = .id ∧ (right.kind = .real ∨ right.kind = .id ∨ GoodApply right ∨
        GoodParens right ∨ GoodRange right ∨ GoodMatrix right ∨ GoodProgram right) ∨
      GoodFunction left ∧ (GoodApply right ∨ GoodParens right) ∨
      GoodApply left ∧ (GoodApply right ∨ GoodParens right ∨ GoodProgram right) := by
  cases h with
  | field name body _ => exact .inl ⟨name, body.imp id .inl⟩
  | property name body ok =>
    exact .inl ⟨name, .inr (.inr ((GoodApply.or_goodParens body ok).imp id .inl))⟩
  | method name body declared ok =>
    have good := (exists_signature_iff name).1 ⟨_, declared⟩
    exact .inr (.inl ⟨good, GoodApply.or_goodParens body ok⟩)
  | range name body ok =>
    have good := (exists_rangeOf_iff body).1 ⟨_, ok⟩
    exact .inl ⟨name, .inr (.inr (.inr (.inr (.inl good))))⟩
  | matrix name body ok =>
    have good := (exists_matrixCode_iff _ body).1 ⟨_, ok⟩
    exact .inl ⟨name, .inr (.inr (.inr (.inr (.inr (.inl good)))))⟩
  | computed name body ok =>
    have good := (exists_program_iff body).1 ⟨_, ok⟩
    exact .inl ⟨name, .inr (.inr (.inr (.inr (.inr (.inr good)))))⟩
  | assigned place body assignee ok =>
    have good := (exists_value_iff_goodApply place).1 ⟨_, assignee⟩
    exact .inr (.inr ⟨good, (GoodApply.or_goodParens body ok).imp id .inl⟩)
  | called place body assignee ok =>
    have good := (exists_value_iff_goodApply place).1 ⟨_, assignee⟩
    exact .inr (.inr ⟨good, .inr (.inr ((exists_program_iff body).1 ⟨_, ok⟩))⟩)

theorem exists_definitionOf_of_id (kind : left.kind = .id)
    (good : right.kind = .real ∨ right.kind = .id ∨ GoodApply right ∨ GoodParens right ∨
      GoodRange right ∨ GoodMatrix right ∨ GoodProgram right) :
    ∃ ps, definitionOf whole left right = .ok ps := by
  rcases good with real | id | good | good | good | good | good
  · obtain ⟨f, hf⟩ := exists_value_of_real real
    simp [definitionOf, kind, real, hf, bind, Except.bind]
  · obtain ⟨f, hf⟩ := exists_value_of_id id
    simp [definitionOf, kind, id, hf, bind, Except.bind]
  · obtain ⟨f, hf⟩ := (exists_value_iff_goodApply good.kind).2 good
    simp [definitionOf, kind, good.kind, hf, bind, Except.bind]
  · obtain ⟨f, hf⟩ := (exists_value_iff_goodParens good.kind).2 good
    simp [definitionOf, kind, good.kind, hf, bind, Except.bind]
  · obtain ⟨f, hf⟩ := (exists_rangeOf_iff good.kind).2 good
    simp [definitionOf, kind, good.kind, hf, bind, Except.bind]
  · simp only [definitionOf, kind, good.kind]
    exact (exists_matrixCode_iff _ good.kind).2 good
  · obtain ⟨ps, hps⟩ := (exists_program_iff good.kind).2 good
    simp [definitionOf, kind, good.kind, hps, bind, Except.bind]

theorem exists_definitionOf_of_goodFunction (function : GoodFunction left)
    (good : GoodApply right ∨ GoodParens right) : ∃ ps, definitionOf whole left right = .ok ps := by
  obtain ⟨line, hline⟩ := (exists_signature_iff function.kind).2 function
  rcases good with good | good
  · obtain ⟨f, hf⟩ := (exists_value_iff_goodApply good.kind).2 good
    simp [definitionOf, function.kind, good.kind, hline, hf, bind, Except.bind]
  · obtain ⟨f, hf⟩ := (exists_value_iff_goodParens good.kind).2 good
    simp [definitionOf, function.kind, good.kind, hline, hf, bind, Except.bind]

theorem exists_definitionOf_of_goodApply (target : GoodApply left)
    (good : GoodApply right ∨ GoodParens right ∨ GoodProgram right) :
    ∃ ps, definitionOf whole left right = .ok ps := by
  obtain ⟨t, ht⟩ := (exists_value_iff_goodApply target.kind).2 target
  rcases good with good | good | good
  · obtain ⟨f, hf⟩ := (exists_value_iff_goodApply good.kind).2 good
    simp [definitionOf, target.kind, good.kind, ht, hf, bind, Except.bind]
  · obtain ⟨f, hf⟩ := (exists_value_iff_goodParens good.kind).2 good
    simp [definitionOf, target.kind, good.kind, ht, hf, bind, Except.bind]
  · obtain ⟨ps, hps⟩ := (exists_program_iff good.kind).2 good
    simp [definitionOf, target.kind, good.kind, ht, hps, bind, Except.bind]

end DefinitionOf

theorem exists_definition_iff (e : Element) :
    (∃ ps, definition e = .ok ps) ↔ GoodDefinition e := by
  constructor
  · rintro ⟨ps, h⟩
    obtain ⟨left, right, children, rule⟩ := DefinitionRule.of_definition h
    exact ⟨left, right, children, rule.goodSides⟩
  · rintro ⟨left, right, children, good⟩
    simp only [definition, children]
    rcases good with ⟨kind, good⟩ | ⟨function, good⟩ | ⟨target, good⟩
    · exact exists_definitionOf_of_id kind good
    · exact exists_definitionOf_of_goodFunction function good
    · exact exists_definitionOf_of_goodApply target good

/-! ## Evaluations -/

theorem exists_unitOf_iff {e : Element} (kind : e.kind = .unitOverride) :
    (∃ f, unitOf e = .ok f) ↔ GoodUnit e := by
  constructor
  · intro h
    unfold unitOf at h
    split at h
    · next unit children =>
      split at h
      · next kinds =>
        exact ⟨kind, unit, children, goodTarget_iff.2 ⟨kinds, (exists_value_iff unit).1 h⟩⟩
      · simp [unsupported] at h
    · simp [unsupported] at h
  · rintro ⟨-, unit, children, good⟩
    obtain ⟨kinds, good⟩ := goodTarget_iff.1 good
    simp only [unitOf, children, if_pos kinds]
    exact (exists_value_iff unit).2 good

theorem GoodUnit.kind {e : Element} (h : GoodUnit e) : e.kind = .unitOverride :=
  h.1

theorem GoodResult.kind {e : Element} (h : GoodResult e) : e.kind = .result :=
  h.1

theorem isTargetKind_iff {kind : Kind} : isTargetKind kind = true ↔ kind = .apply ∨ kind = .id := by
  cases kind <;> simp [isTargetKind]

theorem goodResult_of_assignment {target : Fragment} {unit? : Option Fragment} {e : Element}
    {shown : Outcome} {ps : List Piece} (kind : e.kind = .result) (hshown : outcome e = .ok shown)
    (hps : assignment target unit? shown = .ok ps) :
    GoodResult e := by
  cases OutcomeRule.of_outcome hshown with
  | real children real => exact ⟨kind, _, children, .inl real⟩
  | united children united parts kinds =>
    exact ⟨kind, _, children, .inr (.inl ⟨united, _, _, parts, kinds⟩)⟩
  | complex children complex ok =>
    have good := (exists_complexLiteral_iff _ complex).1 ⟨_, ok⟩
    exact ⟨kind, _, children, .inr (.inr (.inl good))⟩
  | matrix children matrix =>
    obtain ⟨code, hcode, -⟩ := bind_eq_ok_iff.1 hps
    have good := (exists_matrixCode_iff _ matrix).1 ⟨code, hcode⟩
    exact ⟨kind, _, children, .inr (.inr (.inr good))⟩

theorem GoodResult.exists_assignment {e : Element} (h : GoodResult e) (target : Fragment)
    (unit? : Option Fragment) :
    ∃ shown, outcome e = .ok shown ∧ ∃ ps, assignment target unit? shown = .ok ps := by
  obtain ⟨-, child, children, good⟩ := h
  simp only [outcome, children]
  rcases good with real | ⟨united, magnitude, unit, parts, kinds⟩ | good | good
  · obtain ⟨f, hf⟩ := exists_value_of_real real
    exact ⟨.scalar f, by simp [real, hf, bind, Except.bind], _, rfl⟩
  · obtain ⟨f, hf⟩ := exists_value_of_real kinds.1
    exact ⟨.scalar f, by simp [united, parts, kinds, hf, bind, Except.bind], _, rfl⟩
  · obtain ⟨f, hf⟩ := (exists_complexLiteral_iff .result good.kind).2 good
    exact ⟨.complex f, by simp [good.kind, hf, bind, Except.bind], _, rfl⟩
  · obtain ⟨ps, hps⟩ := (exists_matrixCode_iff target.render good.kind).2 good
    exact ⟨.matrix child, by simp [good.kind], by simp [assignment, hps, bind, Except.bind]⟩

theorem exists_evaluation_iff (e : Element) :
    (∃ r, evaluation e = .ok r) ↔ GoodEvaluation e := by
  constructor
  · rintro ⟨r, h⟩
    cases EvaluationRule.of_evaluation h with
    | pending children name => exact .inl ⟨_, children, name⟩
    | shown children kinds assignee out ok =>
      have target := goodTarget_iff.2
        ⟨isTargetKind_iff.1 kinds.1, (exists_value_iff _).1 ⟨_, assignee⟩⟩
      exact .inr (.inl ⟨_, _, children, target, goodResult_of_assignment kinds.2 out ok⟩)
    | shownIn children kinds assignee united out ok =>
      have target := goodTarget_iff.2
        ⟨isTargetKind_iff.1 kinds.1, (exists_value_iff _).1 ⟨_, assignee⟩⟩
      exact .inr (.inr ⟨_, _, _, children, target, (exists_unitOf_iff kinds.2.1).1 ⟨_, united⟩,
        goodResult_of_assignment kinds.2.2 out ok⟩)
  · rintro (⟨target, children, kind⟩ | ⟨target, result, children, htarget, hresult⟩ |
      ⟨target, override, result, children, htarget, hunit, hresult⟩)
    · simp [evaluation, children, kind]
    · obtain ⟨kind, good⟩ := goodTarget_iff.1 htarget
      obtain ⟨f, hf⟩ := (exists_value_iff target).2 good
      obtain ⟨shown, hshown, ps, hps⟩ := hresult.exists_assignment f none
      simp [evaluation, children, isTargetKind_iff.2 kind, hresult.kind, hf, hshown, hps, bind,
        Except.bind]
    · obtain ⟨kind, good⟩ := goodTarget_iff.1 htarget
      obtain ⟨f, hf⟩ := (exists_value_iff target).2 good
      obtain ⟨u, hu⟩ := (exists_unitOf_iff hunit.kind).2 hunit
      obtain ⟨shown, hshown, ps, hps⟩ := hresult.exists_assignment f (some u)
      simp [evaluation, children, isTargetKind_iff.2 kind, hunit.kind, hresult.kind, hf, hu, hshown,
        hps, bind, Except.bind]

/-! ## Worksheets -/

/-- Only the mathematics of a worksheet has elements of the other kinds. -/
theorem isMath_of_kind {name : QName}
    (h : Kind.of name ∉ [Kind.mathRegion, .binaryContent, .unitMonomial, .other]) :
    name.isMath = true := by
  obtain ⟨vocabulary, listed, bound⟩ :=
    @Kind.exists_entry name _ rfl fun unknown => h (by simp [unknown])
  cases vocabulary with
  | math =>
    rw [bound]
    exact decide_eq_true rfl
  | worksheet | units =>
    clear bound
    simp_all [Vocabulary.entries]

/-- What an element gives for itself, inside a parent of some kind, has code. -/
structure GoodOwn (parent : Kind) (e : Element) : Prop where
  definition : e.kind = .define ∨ e.kind = .globalDefine → GoodDefinition e
  evaluation : e.kind = .eval → GoodEvaluation e
  region : parent = .mathRegion → e.kind = .apply → GoodApply e

theorem exists_emitOwn_iff (parent : Kind) (e : Element) :
    (∃ r, emitOwn parent e = .ok r) ↔ GoodOwn parent e := by
  by_cases math : e.name.isMath = true
  · simp only [emitOwn, if_pos math]
    split
    · next kind =>
      simp only [exists_bind_ok_iff, Except.ok.injEq, exists_eq', and_true, exists_definition_iff]
      exact ⟨fun good => ⟨fun _ => good, by simp [kind], by simp [kind]⟩,
        fun good => good.definition (.inl kind)⟩
    · next kind =>
      simp only [exists_bind_ok_iff, Except.ok.injEq, exists_eq', and_true, exists_definition_iff]
      exact ⟨fun good => ⟨fun _ => good, by simp [kind], by simp [kind]⟩,
        fun good => good.definition (.inr kind)⟩
    · next kind =>
      simp only [exists_bind_ok_iff, Except.ok.injEq, exists_eq', and_true, exists_evaluation_iff]
      exact ⟨fun good => ⟨by simp [kind], fun _ => good, by simp [kind]⟩,
        fun good => good.evaluation kind⟩
    · next kind =>
      split
      · next region =>
        simp only [exists_bind_ok_iff, Except.ok.injEq, exists_eq', and_true,
          exists_value_iff_goodApply kind]
        exact ⟨fun good => ⟨by simp [kind], by simp [kind], fun _ _ => good⟩,
          fun good => good.region region kind⟩
      · next notRegion =>
        exact iff_of_true ⟨_, rfl⟩ ⟨by simp [kind], by simp [kind], fun h => absurd h notRegion⟩
    · next define globalDefine eval apply =>
      exact iff_of_true ⟨_, rfl⟩ ⟨fun h => h.elim (fun h => absurd h define)
        fun h => absurd h globalDefine, fun h => absurd h eval, fun _ h => absurd h apply⟩
  · have other : e.kind ∈ [Kind.mathRegion, .binaryContent, .unitMonomial, .other] := by
      by_contra h
      exact math (isMath_of_kind h)
    simp only [emitOwn, if_neg math]
    refine iff_of_true ⟨_, rfl⟩ ⟨?_, ?_, ?_⟩
    · rintro (kind | kind) <;> simp [kind] at other
    · intro kind
      simp [kind] at other
    · intro _ kind
      simp [kind] at other

theorem emitElement_eq (parent : Kind) (e : Element) :
    emitElement parent e =
      (do
        let own ← emitOwn parent e
        let inner ← emitElements e.kind e.children
        .ok (own ++ inner)) := by
  cases e
  rw [emitElement]
  rfl

theorem exists_emitElements_iff (parent : Kind) (es : List Element) :
    (∃ r, emitElements parent es = .ok r) ↔ ∀ e ∈ es, ∃ r, emitElement parent e = .ok r :=
  exists_walk_iff (emitElement parent) (emitElements parent) (by rw [emitElements])
    (fun _ _ => by rw [emitElements]) es

/-- An element gives code exactly if it is good itself and all below it is good in its parent. -/
theorem exists_emitElement_iff (parent : Kind) (e : Element) :
    (∃ r, emitElement parent e = .ok r) ↔
      GoodOwn parent e ∧ ∀ d, d = e ∨ d ∈ e.descendants → ∀ c ∈ d.children, GoodOwn d.kind c := by
  induction e using Element.inductionBelow generalizing parent with
  | step e below =>
    have own : (∃ r, emitElement parent e = .ok r) ↔
        GoodOwn parent e ∧ ∀ c ∈ e.children, ∃ r, emitElement e.kind c = .ok r := by
      rw [← exists_emitOwn_iff, ← exists_emitElements_iff]
      simp only [emitElement_eq, exists_bind_ok_iff, Except.ok.injEq, exists_eq', and_true]
      exact ⟨fun ⟨a, ha, hb⟩ => ⟨⟨a, ha⟩, hb⟩, fun ⟨⟨a, ha⟩, hb⟩ => ⟨a, ha, hb⟩⟩
    rw [own]
    refine and_congr_right fun _ => ⟨fun h => ?_, fun h c hc => ?_⟩
    · have child {c : Element} (hc : c ∈ e.children) :=
        (below c (Element.mem_descendants_of_mem_children hc) e.kind).1 (h c hc)
      rintro d (rfl | hd) c hc
      · exact (child hc).1
      · obtain ⟨p, hp, hd⟩ := Element.mem_descendants_iff.1 hd
        exact (child hp).2 d hd c hc
    · refine (below c (Element.mem_descendants_of_mem_children hc) e.kind).2 ⟨?_, fun d hd => ?_⟩
      · exact h e (.inl rfl) c hc
      · exact h d (.inr (Element.mem_descendants_iff.2 ⟨c, hc, hd⟩))

theorem goodWorksheet_iff (root : Element) :
    GoodWorksheet root ↔
      ∀ d, d = root ∨ d ∈ root.descendants → ∀ c ∈ d.children, GoodOwn d.kind c := by
  constructor
  · intro good d hd c hc
    have mem := Element.mem_descendants_iff_exists_parent.2 ⟨d, hd, hc⟩
    exact ⟨good.definitions c mem, good.evaluations c mem, fun region kind =>
      good.regions d hd region c hc kind⟩
  · intro good
    refine ⟨fun e he => ?_, fun e he => ?_, fun d hd region c hc => ?_⟩
    · obtain ⟨d, hd, hc⟩ := Element.mem_descendants_iff_exists_parent.1 he
      exact (good d hd e hc).definition
    · obtain ⟨d, hd, hc⟩ := Element.mem_descendants_iff_exists_parent.1 he
      exact (good d hd e hc).evaluation
    · exact (good d hd c hc).region region

theorem exists_emitRoot_iff (root : Element) :
    (∃ r, emitRoot root = .ok r) ↔ GoodWorksheet root := by
  rw [goodWorksheet_iff, emitRoot, exists_emitElements_iff]
  simp only [exists_emitElement_iff]
  constructor
  · rintro h d (rfl | hd) c hc
    · exact (h c hc).1
    · obtain ⟨p, hp, hd⟩ := Element.mem_descendants_iff.1 hd
      exact (h p hp).2 d hd c hc
  · intro h e he
    refine ⟨h root (.inl rfl) e he, fun d hd => h d (.inr ?_)⟩
    exact Element.mem_descendants_iff.2 ⟨e, he, hd⟩

/-- A worksheet is translated, bare or as a source file, exactly if it is in the language. -/
theorem accepts_iff_goodWorksheet (options : Options) (document : Document) :
    ((∃ r, emit options document = .ok r) ↔ GoodWorksheet document.root) ∧
      ((∃ r, members document = .ok r) ↔ GoodWorksheet document.root) := by
  simp only [emit, members, exists_bind_ok_iff, Except.ok.injEq, exists_eq', and_true,
    exists_emitRoot_iff, and_self]

end Calcsheet.Code
