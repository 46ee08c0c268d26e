import Calcsheet.Proofs.Code.Acceptance
import Calcsheet.Proofs.Code.Agreement
import Calcsheet.Proofs.Code.Emission
import Calcsheet.Proofs.Code.Meaning
import Calcsheet.Proofs.Document.Build

/-!
# What generated code depends on

The code for a worksheet is a function of little: of each element its kind, the text of a number or
name, the subscript of a name and the size of a matrix. Two trees of one shape that are the same in
this are `Alike`. Each part of the generator treats alike elements in the same way, so that two
worksheets with alike trees give the same code, or are refused at the same position
(`members_eq_of_alike`).
-/

namespace Calcsheet.Code

/-- All that the generator may read of an element itself is the same. -/
structure SameReading (e e' : Element) : Prop where
  kind : e.kind = e'.kind
  text : e.kind = .real ∨ e.kind = .id ∨ e.kind = .imag → e.text = e'.text
  subscript : e.kind = .id → e.attributes.get? "subscript" = e'.attributes.get? "subscript"
  rows : e.kind = .matrix → e.attributes.get? "rows" = e'.attributes.get? "rows"
  columns : e.kind = .matrix → e.attributes.get? "cols" = e'.attributes.get? "cols"

/-- Trees of one shape in which any two corresponding elements read the same. -/
inductive Alike : Element → Element → Prop
  | intro {e e'} (reading : SameReading e e')
    (children : List.Forall₂ Alike e.children e'.children) : Alike e e'

variable {e e' : Element} {es es' : List Element}

namespace Alike

theorem reading (h : Alike e e') : SameReading e e' := by
  cases h with
  | intro reading _ => exact reading

theorem children (h : Alike e e') : List.Forall₂ Alike e.children e'.children := by
  cases h with
  | intro _ children => exact children

theorem kind (h : Alike e e') : e.kind = e'.kind :=
  h.reading.kind

theorem identifier (h : Alike e e') (kind : e.kind = .id) :
    Code.identifier e = Code.identifier e' := by
  rw [Code.identifier, Code.identifier, h.reading.text (by simp [kind]), h.reading.subscript kind]

/-- Alike elements are the same to an expression that they are part of. -/
theorem sameUse (h : Alike e e') : SameUse id e e' := by
  induction e using Element.inductionBelow generalizing e' with
  | step e below =>
    refine .of_children (forall₂_children below h.children) h.kind ?_ h.identifier
    exact fun kind => h.reading.text (by tauto)

theorem value (h : Alike e e') : Agree id Eq (value e) (value e') :=
  h.sameUse.value

end Alike

/-! ## Parts of members -/

theorem Alike.find? (k : Kind) (h : List.Forall₂ Alike es es') :
    Option.Rel (fun c c' => Alike c c' ∧ c.kind = k) (es.find? fun c => c.kind = k)
      (es'.find? fun c => c.kind = k) := by
  induction h with
  | nil => exact .none
  | @cons c c' rest rest' first _ ih =>
    have kinds := first.kind
    rw [List.find?_cons, List.find?_cons, ← kinds]
    by_cases kind : c.kind = k
    · rw [decide_eq_true kind]
      exact .some ⟨first, kind⟩
    · rw [decide_eq_false kind]
      exact ih

theorem agree_complexLiteral (position : Position) (h : Alike e e') :
    Agree id Eq (complexLiteral position e) (complexLiteral position e') := by
  have re := Alike.find? .real h.children
  have im := Alike.find? .imag h.children
  unfold complexLiteral
  generalize List.find? _ _ = re? at re
  generalize List.find? _ _ = re'? at re
  generalize List.find? _ _ = im? at im
  generalize List.find? _ _ = im'? at im
  cases re with
  | none => exact agree_unsupported _ _ _ _
  | some re =>
    cases im with
    | none => exact agree_unsupported _ _ _ _
    | some im =>
      dsimp only
      rw [re.1.reading.text (by simp [re.2]), im.1.reading.text (by simp [im.2])]
      exact .ok rfl

theorem agree_rangeOf (h : Alike e e') : Agree id Eq (rangeOf e) (rangeOf e') := by
  have children := h.children
  unfold rangeOf
  generalize e.children = cs at children
  generalize e'.children = cs' at children
  rcases children with _ | ⟨first, _ | ⟨bound, _ | _⟩⟩
  case cons.cons.nil =>
    dsimp only
    rw [← first.kind, ← bound.kind]
    split
    · exact first.value.bind_same fun a => bound.value.bind_same fun b => .ok rfl
    · exact agree_unsupported _ _ _ _
  all_goals exact agree_unsupported _ _ _ _

/-! ## Programs -/

theorem agree_statement_of_children (h : Alike e e')
    (programs : List.Forall₂ (fun c c' => Alike c c' ∧ Agree id Eq (program c) (program c'))
      e.children e'.children) : Agree id Eq (statement e) (statement e') := by
  rw [statement_eq, statement_eq e', ← h.kind]
  split
  case h_1 =>
    generalize e.children = cs at programs
    generalize e'.children = cs' at programs
    rcases programs with _ | ⟨⟨condition, _⟩, _ | ⟨⟨body, inner⟩, _ | _⟩⟩
    case cons.cons.nil =>
      dsimp only
      rw [← condition.kind, ← body.kind]
      split
      · refine condition.value.bind_same fun guard => ?_
        split
        · exact inner.bind_same fun ps => .ok rfl
        · exact body.value.bind_same fun f => .ok rfl
      · exact agree_unsupported _ _ _ _
    all_goals exact agree_unsupported _ _ _ _
  case h_2 => exact h.value.bind_same fun f => .ok rfl
  case h_3 => exact agree_unsupported _ _ _ _

/-- Statements and programs hold each other, so that both are settled in one induction. -/
theorem agree_statement_and_program (h : Alike e e') :
    Agree id Eq (statement e) (statement e') ∧ Agree id Eq (program e) (program e') := by
  induction e using Element.inductionBelow generalizing e' with
  | step e below =>
    have children := forall₂_children (fun d hd _ alike => And.intro alike (below d hd alike))
      h.children
    refine ⟨agree_statement_of_children h (children.imp fun _ _ c => ⟨c.1, c.2.2⟩), ?_⟩
    rw [program_eq, program_eq e']
    exact agree_walk statement statements (by rw [statements]) (fun _ _ => by rw [statements]) rfl
      (fun _ _ _ _ first others => by rw [first, others]) (children.imp fun _ _ c => c.2.1)

/-! ## Matrices -/

theorem agree_cell (h : Alike e e') : Agree id Eq (cell e) (cell e') := by
  unfold cell
  rw [← h.kind]
  split
  case h_4 => exact agree_complexLiteral _ h
  case h_5 => exact agree_unsupported _ _ _ _
  all_goals exact h.value

theorem agree_cells (h : List.Forall₂ Alike es es') : Agree id Eq (cells es) (cells es') :=
  agree_walk cell cells (by rw [cells]) (fun _ _ => by rw [cells]) rfl
    (fun _ _ _ _ first others => by rw [first, others]) (h.imp fun _ _ => agree_cell)

theorem agree_matrixCode (name : String) (kind : e.kind = .matrix) (h : Alike e e') :
    Agree id Eq (matrixCode name e) (matrixCode name e') := by
  have rows : e.attributes.count? "rows" = e'.attributes.count? "rows" := by
    rw [Attributes.count?, Attributes.count?, Attributes.read?, Attributes.read?,
      h.reading.rows kind]
  have columns : e.attributes.count? "cols" = e'.attributes.count? "cols" := by
    rw [Attributes.count?, Attributes.count?, Attributes.read?, Attributes.read?,
      h.reading.columns kind]
  have grids : Agree id Eq (gridOf e) (gridOf e') := by
    unfold gridOf
    rw [rows, columns]
    refine (agree_cells h.children).bind_same fun fs => ?_
    split
    · exact agree_unsupported _ _ _ _
    · exact .ok rfl
  exact grids.bind_same fun g => .ok rfl

/-! ## Definitions -/

theorem agree_parameters (h : List.Forall₂ Alike es es') :
    Agree id Eq (parameters es) (parameters es') := by
  induction h with
  | nil => exact .ok rfl
  | cons first _ others =>
    exact first.value.bind_same fun f => others.bind_same fun fs => .ok rfl

theorem agree_signature (h : Alike e e') : Agree id Eq (signature e) (signature e') := by
  have children := h.children
  unfold signature
  generalize e.children = cs at children
  generalize e'.children = cs' at children
  rcases children with _ | ⟨name, _ | ⟨vars, _ | _⟩⟩
  case cons.cons.nil =>
    dsimp only
    rw [← name.kind, ← vars.kind]
    split
    · next kinds =>
      rw [name.identifier kinds.1]
      exact (agree_parameters vars.children).bind_same fun params => .ok rfl
    · exact agree_unsupported _ _ _ _
  all_goals exact agree_unsupported _ _ _ _

theorem agree_definitionOf (whole whole' : Element) {left left' right right' : Element}
    (hl : Alike left left') (hr : Alike right right') :
    Agree id Eq (definitionOf whole left right) (definitionOf whole' left' right') := by
  unfold definitionOf
  rw [← hl.kind, ← hr.kind]
  split
  case h_1 name _ | h_2 name _ | h_3 name _ | h_4 name _ =>
    rw [hl.identifier name]
    exact hr.value.bind_same fun f => .ok rfl
  case h_5 | h_6 =>
    exact (agree_signature hl).bind_same fun head => hr.value.bind_same fun f => .ok rfl
  case h_7 name _ =>
    rw [hl.identifier name]
    exact (agree_rangeOf hr).bind_same fun f => .ok rfl
  case h_8 name matrix =>
    rw [hl.identifier name]
    exact agree_matrixCode _ matrix hr
  case h_9 name _ =>
    rw [hl.identifier name]
    exact (agree_statement_and_program hr).2.bind_same fun body => .ok rfl
  case h_10 | h_11 =>
    exact hl.value.bind_same fun target => hr.value.bind_same fun f => .ok rfl
  case h_12 =>
    exact hl.value.bind_same fun target =>
      (agree_statement_and_program hr).2.bind_same fun body => .ok rfl
  case h_13 => exact agree_unsupported _ _ _ _

theorem agree_definition (h : Alike e e') : Agree id Eq (definition e) (definition e') := by
  have children := h.children
  unfold definition
  generalize e.children = cs at children
  generalize e'.children = cs' at children
  rcases children with _ | ⟨left, _ | ⟨right, _ | _⟩⟩
  case cons.cons.nil => exact agree_definitionOf e e' left right
  all_goals exact agree_unsupported _ _ _ _

/-! ## Evaluations -/

/-- What is shown gives the same code: the same fragment, or alike matrices. -/
inductive Outcome.Same : Outcome → Outcome → Prop
  | scalar (f : Fragment) : Same (.scalar f) (.scalar f)
  | complex (f : Fragment) : Same (.complex f) (.complex f)
  | matrix {g g' : Element} (kind : g.kind = .matrix) (h : Alike g g') :
    Same (.matrix g) (.matrix g')

theorem agree_outcome (h : Alike e e') : Agree id Outcome.Same (outcome e) (outcome e') := by
  have children := h.children
  unfold outcome
  generalize e.children = cs at children
  generalize e'.children = cs' at children
  rcases children with _ | ⟨shown, _ | _⟩
  case cons.nil c c' =>
    dsimp only
    rw [← shown.kind]
    split
    case h_1 => exact shown.value.bind_same fun f => .ok (.scalar f)
    case h_2 =>
      have parts := shown.children
      generalize c.children = cs at parts
      generalize c'.children = cs' at parts
      rcases parts with _ | ⟨magnitude, _ | ⟨unit, _ | _⟩⟩
      case cons.cons.nil =>
        dsimp only
        rw [← magnitude.kind, ← unit.kind]
        split
        · exact magnitude.value.bind_same fun f => .ok (.scalar f)
        · exact agree_unsupported _ _ _ _
      all_goals exact agree_unsupported _ _ _ _
    case h_3 => exact (agree_complexLiteral _ shown).bind_same fun f => .ok (.complex f)
    case h_4 kind => exact .ok (.matrix kind shown)
    case h_5 => exact agree_unsupported _ _ _ _
  all_goals exact agree_unsupported _ _ _ _

theorem agree_unitOf (h : Alike e e') : Agree id Eq (unitOf e) (unitOf e') := by
  have children := h.children
  unfold unitOf
  generalize e.children = cs at children
  generalize e'.children = cs' at children
  rcases children with _ | ⟨unit, _ | _⟩
  case cons.nil =>
    dsimp only
    rw [← unit.kind]
    split
    · exact unit.value
    · exact agree_unsupported _ _ _ _
  all_goals exact agree_unsupported _ _ _ _

theorem agree_assignment (target : Fragment) (unit? : Option Fragment) {shown shown' : Outcome}
    (h : shown.Same shown') :
    Agree id Eq (assignment target unit? shown) (assignment target unit? shown') := by
  cases h with
  | scalar f => exact .ok rfl
  | complex f => exact .ok rfl
  | matrix kind alike => exact (agree_matrixCode _ kind alike).bind_same fun ps => .ok rfl

theorem agree_evaluation (h : Alike e e') : Agree id Eq (evaluation e) (evaluation e') := by
  have children := h.children
  unfold evaluation
  generalize e.children = cs at children
  generalize e'.children = cs' at children
  rcases children with _ | ⟨target, _ | ⟨second, _ | ⟨third, _ | _⟩⟩⟩
  case cons.nil =>
    dsimp only
    rw [← target.kind]
    split
    · next kind =>
      rw [target.identifier kind]
      exact .ok rfl
    · exact agree_unsupported _ _ _ _
  case cons.cons.nil =>
    dsimp only
    rw [← target.kind, ← second.kind]
    split
    · exact target.value.bind_same fun f => (agree_outcome second).bind fun shown shown' same =>
        (agree_assignment f none same).bind_same fun ps => .ok rfl
    · exact agree_unsupported _ _ _ _
  case cons.cons.cons.nil =>
    dsimp only
    rw [← target.kind, ← second.kind, ← third.kind]
    split
    · exact target.value.bind_same fun f => (agree_unitOf second).bind_same fun unit =>
        (agree_outcome third).bind fun shown shown' same =>
          (agree_assignment f (some unit) same).bind_same fun ps => .ok rfl
    · exact agree_unsupported _ _ _ _
  all_goals exact agree_unsupported _ _ _ _

/-! ## Worksheets -/

/-- The code is the same. Warnings give names that code does not depend on. -/
def Emission.SameCode (r r' : Emission) : Prop :=
  r.code = r'.code

theorem emitOwn_of_no_rule (parent : Kind)
    (kind : e.kind ∈ [Kind.mathRegion, .binaryContent, .unitMonomial, .other]) :
    ∃ r, emitOwn parent e = .ok r ∧ r.code = [] := by
  unfold emitOwn
  split
  · split
    case h_5 => exact ⟨_, rfl, rfl⟩
    all_goals simp_all
  · exact ⟨_, rfl, rfl⟩

theorem agree_emitOwn (parent : Kind) (h : Alike e e') :
    Agree id Emission.SameCode (emitOwn parent e) (emitOwn parent e') := by
  by_cases kind : e.kind ∈ [Kind.mathRegion, .binaryContent, .unitMonomial, .other]
  · obtain ⟨r, hr, code⟩ := emitOwn_of_no_rule parent kind
    obtain ⟨r', hr', code'⟩ := emitOwn_of_no_rule parent (h.kind ▸ kind)
    rw [hr, hr']
    exact .ok (code.trans code'.symm)
  -- Any other kind shows that the name is of the math vocabulary.
  have kind' : e'.kind ∉ [Kind.mathRegion, .binaryContent, .unitMonomial, .other] := h.kind ▸ kind
  rw [emitOwn, if_pos (isMath_of_kind kind), emitOwn, if_pos (isMath_of_kind kind'), ← h.kind]
  split
  case h_1 | h_2 => exact (agree_definition h).bind_same fun ps => .ok rfl
  case h_3 => exact (agree_evaluation h).bind_same fun r => .ok rfl
  case h_4 =>
    split
    · exact h.value.bind_same fun f => .ok rfl
    · exact .ok rfl
  case h_5 => exact .ok rfl

theorem Emission.SameCode.append {r r' s s' : Emission} (first : r.SameCode r')
    (second : s.SameCode s') : (r ++ s).SameCode (r' ++ s') := by
  change r.code ++ s.code = r'.code ++ s'.code
  rw [first, second]

theorem agree_emitElements (parent : Kind)
    (h : List.Forall₂ (fun c c' =>
      Agree id Emission.SameCode (emitElement parent c) (emitElement parent c')) es es') :
    Agree id Emission.SameCode (emitElements parent es) (emitElements parent es') := by
  have nothing : Emission.SameCode {} {} := rfl
  exact agree_walk (emitElement parent) (emitElements parent) (by rw [emitElements])
    (fun _ _ => by rw [emitElements]) nothing (fun _ _ _ _ first others => first.append others) h

theorem agree_emitElement (parent : Kind) (h : Alike e e') :
    Agree id Emission.SameCode (emitElement parent e) (emitElement parent e') := by
  induction e using Element.inductionBelow generalizing e' parent with
  | step e below =>
    rw [emitElement_eq, emitElement_eq _ e', ← h.kind]
    have inner := agree_emitElements e.kind
      (forall₂_children (fun d hd _ alike => below d hd e.kind alike) h.children)
    exact (agree_emitOwn parent h).bind fun _ _ own => inner.bind fun _ _ inner =>
      .ok (own.append inner)

/-- Worksheets with alike trees give the same code, or both give none, for a reason of the same
position. -/
theorem members_eq_of_alike {d d' : Document} (h : Alike d.root d'.root) :
    (∃ r r', members d = .ok r ∧ members d' = .ok r' ∧ r.value = r'.value) ∨
      ∃ u u', members d = .error u ∧ members d' = .error u' ∧ u.position = u'.position := by
  have emissions : Agree id Emission.SameCode (emitRoot d.root) (emitRoot d'.root) := by
    rw [emitRoot, emitRoot, ← h.kind]
    exact agree_emitElements _ (h.children.imp fun _ _ => agree_emitElement _)
  have codes : Agree id (fun r r' => r.value = r'.value) (members d) (members d') :=
    emissions.bind fun r r' same => .ok (congrArg (layOut ({} : Options).indent) same)
  revert codes
  generalize members d = x, members d' = x'
  rintro (related | places)
  · exact .inl ⟨_, _, rfl, rfl, related⟩
  · exact .inr ⟨_, _, rfl, rfl, places⟩

/-- A definition of the matrix `M_1` inside an element, with a style and notes. -/
def styledMatrix (outer : QName) (style note : String) : Element :=
  .mk outer (.ofList [("style", style)]) note
    [.mk (.bound Vocabulary.math.uri "define") (.ofList [("style", style)]) note
      [.mk (.bound Vocabulary.math.uri "id") (.ofList [("style", style), ("subscript", "1")]) "M" [],
       .mk (.bound Vocabulary.math.uri "matrix")
        (.ofList [("rows", "2"), ("style", style), ("cols", "1")]) note
        [mathElement "real" "2.5" [], mathElement "apply" note
          [mathElement "neg" note [], mathElement "id" "x" []]]]]

/-- The code of `styledMatrix`. -/
def styledMatrixCode : List Piece :=
  [.line "public Matrix<double> M_1",
    .block [.line "get",
      .block [.line "var matrix = Matrix<double>.Build.Dense(2, 1);", .line "matrix[0, 0] = 2.5;",
        .line "matrix[1, 0] = (-1.0 * (x));", .line "return matrix;"] ""] ""]

theorem members_eq_styledMatrix :
    ∃ d d', Document.build (styledMatrix (.unbound "sheet") "bold" "") = .ok d ∧
      Document.build (styledMatrix (.bound "urn:other" "page") "" "7") = .ok d' ∧
      d.root.name ≠ d'.root.name ∧ Alike d.root d'.root ∧
      members d = .ok
        { value := layOut 4 styledMatrixCode,
          warnings := ["apply", "id", "matrix", "neg", "real"].map .unimplemented } ∧
      ∃ r', members d' = .ok r' ∧ r'.value = layOut 4 styledMatrixCode ∧
        r'.warnings = ["apply", "id", "matrix", "neg", "real"].map .unimplemented := by
  obtain ⟨d, built, root⟩ := Document.exists_build (styledMatrix (.unbound "sheet") "bold" "")
  obtain ⟨d', built', root'⟩ :=
    Document.exists_build (styledMatrix (.bound "urn:other" "page") "" "7")
  have alike : Alike d.root d'.root := by
    rw [root, root']
    -- down the two trees at once, with what is read compared at each element
    repeat' first
      | exact List.Forall₂.nil
      | apply List.Forall₂.cons
      | apply Alike.intro
      | constructor <;> decide +kernel
  have ok : members d = .ok
      { value := layOut 4 styledMatrixCode,
        warnings := ["apply", "id", "matrix", "neg", "real"].map .unimplemented } := by
    rw [members, root]
    rfl
  obtain ⟨r, r', first, second, same⟩ | ⟨u, u', refused, -⟩ := members_eq_of_alike alike
  · obtain rfl := Except.ok.inj (ok.symm.trans first)
    refine ⟨d, d', built, built', by rw [root, root']; decide, alike, ok, r', second, same.symm, ?_⟩
    obtain ⟨emission, emitted, warnings⟩ : ∃ emission, emitRoot d'.root = .ok emission ∧
        emission.warnings = ["apply", "id", "matrix", "neg", "real"].map .unimplemented := by
      rw [root']
      exact ⟨_, rfl, rfl⟩
    exact (warnings_eq_of_emitRoot second emitted).trans warnings
  · cases ok.symm.trans refused

end Calcsheet.Code
