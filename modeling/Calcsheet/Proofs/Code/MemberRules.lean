import Calcsheet.Code.SourceFile
import Calcsheet.Proofs.Code.Value

/-!
# What gives statements and members

Like `ValueRule` for expressions, `StatementRule`, `DefinitionRule`, `EvaluationRule` and `OwnRule`
say from what the code of a statement, of a definition, of an evaluation and of any element for
itself is made. Facts about generated code are proved by cases on the rule, never by opening the
functions that generate it.
-/

namespace Calcsheet.Code

/-! ## Statements -/

theorem program_eq (e : Element) : program e = statements e.children := by
  cases e
  rw [program, Element.children]

theorem statement_eq (e : Element) :
    statement e = match e.kind with
      | .ifThen =>
        match e.children with
        | [condition, body] =>
          if condition.kind = .apply ∧ (body.kind = .real ∨ body.kind = .program) then do
            let guard ← value condition
            let inner ← if body.kind = .program then program body else do
              .ok [returnLine (← value body)]
            .ok [guardLine guard, .braces inner]
          else unsupported .ifThen e
        | _ => unsupported .ifThen e
      | .apply => do
        let f ← value e
        .ok [.line (f.render ++ ";")]
      | _ => unsupported .program e := by
  cases e
  rw [statement.eq_def]
  rfl

/-- One rule gives the code of the statement. -/
inductive StatementRule (e : Element) : List Piece → Prop
  /-- A branch that runs a program. -/
  | branch {condition body guard inner} (kind : e.kind = .ifThen)
      (children : e.children = [condition, body]) (test : condition.kind = .apply)
      (choice : body.kind = .program) (guarded : value condition = .ok guard)
      (ok : statements body.children = .ok inner) :
      StatementRule e [guardLine guard, .braces inner]
  /-- A branch that returns a number. -/
  | answer {condition body guard f} (kind : e.kind = .ifThen)
      (children : e.children = [condition, body]) (test : condition.kind = .apply)
      (choice : body.kind = .real) (guarded : value condition = .ok guard)
      (ok : value body = .ok f) :
      StatementRule e [guardLine guard, .braces [returnLine f]]
  | expression {f} (kind : e.kind = .apply) (ok : value e = .ok f) :
      StatementRule e [.line (f.render ++ ";")]

theorem StatementRule.of_statement {e : Element} {ps : List Piece} (h : statement e = .ok ps) :
    StatementRule e ps := by
  rw [statement_eq] at h
  split at h
  · next kind =>
    split at h
    · next condition body children =>
      split at h
      · next kinds =>
        obtain ⟨guard, guarded, h⟩ := bind_eq_ok_iff.1 h
        split at h
        · next choice =>
          simp only [bind_eq_ok_iff, Except.ok.injEq, program_eq] at h
          obtain ⟨inner, ok, rfl⟩ := h
          exact .branch kind children kinds.1 choice guarded ok
        · next choice =>
          simp only [bind_eq_ok_iff, Except.ok.injEq, exists_eq_left'] at h
          obtain ⟨f, ok, rfl⟩ := h
          exact .answer kind children kinds.1 (kinds.2.resolve_right choice) guarded ok
      · cases h
    · cases h
  · next kind =>
    simp only [bind_eq_ok_iff, Except.ok.injEq] at h
    obtain ⟨f, ok, rfl⟩ := h
    exact .expression kind ok
  · cases h

/-- What holds of each statement with its code and `++` keeps, holds of statements in a row with
theirs. -/
theorem statements_pairing {P : List Element → List Piece → Prop} (nil : P [] [])
    (cons : ∀ {e es ps qs}, P [e] ps → P es qs → P (e :: es) (ps ++ qs)) {es : List Element}
    {ps : List Piece} (each : ∀ e ∈ es, ∀ ps, statement e = .ok ps → P [e] ps)
    (h : statements es = .ok ps) : P es ps :=
  walk_pairing statement statements (by rw [statements]) (fun _ _ => by rw [statements]) nil
    (fun e he _ first _ hfirst others => cons (each e he first hfirst) others) h

/-- What each statement has and `++` keeps, statements in a row have. -/
theorem statements_induction {P : List Piece → Prop} (nil : P [])
    (append : ∀ {ps qs}, P ps → P qs → P (ps ++ qs)) {es : List Element} {ps : List Piece}
    (each : ∀ e ∈ es, ∀ ps, statement e = .ok ps → P ps) (h : statements es = .ok ps) : P ps :=
  statements_pairing (P := fun _ => P) nil append each h

/-! ## Matrices -/

/-- A complex number that is written out has the texts of the first real and the first imaginary
child. -/
theorem complexLiteral_eq_ok_iff {position : Position} {e : Element} {f : Fragment} :
    complexLiteral position e = .ok f ↔ ∃ re im,
      e.children.find? (fun c => c.kind = .real) = some re ∧
      e.children.find? (fun c => c.kind = .imag) = some im ∧
      f = .complex (.atom re.text) (.atom im.text) := by
  unfold complexLiteral
  split
  · next re im hre him => simp [hre, him, eq_comm (a := f)]
  · next missing =>
    refine iff_of_false (unsupported_ne_ok _ _ _) ?_
    rintro ⟨re, im, hre, him, -⟩
    exact missing re im hre him

theorem cell_eq_ok_iff {e : Element} {f : Fragment} :
    cell e = .ok f ↔
      (e.kind = .real ∨ e.kind = .apply ∨ e.kind = .parens) ∧ value e = .ok f ∨
      e.kind = .complex ∧ complexLiteral .matrixCell e = .ok f := by
  unfold cell
  split
  case h_5 real apply parens complex =>
    refine iff_of_false (unsupported_ne_ok _ _ _) ?_
    rintro (⟨kind | kind | kind, -⟩ | ⟨kind, -⟩)
    exacts [real kind, apply kind, parens kind, complex kind]
  all_goals next kind => simp [kind]

theorem cells_eq_ok_iff {es : List Element} {fs : List Fragment} :
    cells es = .ok fs ↔ List.Forall₂ (fun e f => cell e = .ok f) es fs := by
  induction es generalizing fs with
  | nil =>
    rw [cells]
    cases fs <;> simp
  | cons e rest ih =>
    rw [cells]
    simp only [bind_eq_ok_iff, ih, List.forall₂_cons_left_iff, Except.ok.injEq]
    constructor
    · rintro ⟨f, hf, fs', hfs, rfl⟩
      exact ⟨f, fs', hf, hfs, rfl⟩
    · rintro ⟨f, fs', hf, hfs, rfl⟩
      exact ⟨f, hf, fs', hfs, rfl⟩

/-- A grid has the size that the element gives and the cells of its children, and there are rows if
there are cells. -/
theorem gridOf_eq_ok_iff {e : Element} {g : Grid} :
    gridOf e = .ok g ↔
      g.rows = (e.attributes.count? "rows").getD 0 ∧
      g.columns = (e.attributes.count? "cols").getD 0 ∧
      cells e.children = .ok g.cells ∧ (g.cells ≠ [] → 0 < g.rows) := by
  unfold gridOf
  rw [bind_eq_ok_iff]
  constructor
  · rintro ⟨fs, hfs, hg⟩
    split at hg
    · cases hg
    · next refused =>
      obtain rfl := Except.ok.inj hg
      refine ⟨rfl, rfl, hfs, fun some => Nat.pos_of_ne_zero fun none => refused ⟨none, ?_⟩⟩
      simpa using some
  · rintro ⟨rows, columns, hcells, some⟩
    refine ⟨g.cells, hcells, ?_⟩
    rw [← rows, ← columns, if_neg]
    rintro ⟨none, cells⟩
    have := some (by simpa using cells)
    omega

theorem matrixCode_eq_ok_iff {name : String} {e : Element} {ps : List Piece} :
    matrixCode name e = .ok ps ↔ ∃ g, gridOf e = .ok g ∧ g.code name = ps := by
  simp only [matrixCode, bind_eq_ok_iff, Except.ok.injEq]

/-! ## Definitions -/

/-- One rule gives the code of the definition of `left` as `right`. -/
inductive DefinitionRule (left right : Element) : List Piece → Prop
  | field {f} (name : left.kind = .id) (body : right.kind = .real ∨ right.kind = .id)
      (ok : value right = .ok f) :
      DefinitionRule left right
        [.line ("public double " ++ identifier left ++ " = " ++ f.render ++ ";")]
  | property {f} (name : left.kind = .id) (body : right.kind = .apply ∨ right.kind = .parens)
      (ok : value right = .ok f) : DefinitionRule left right [propertyLine (identifier left) f]
  | method {head f} (name : left.kind = .function)
      (body : right.kind = .apply ∨ right.kind = .parens) (declared : signature left = .ok head)
      (ok : value right = .ok f) : DefinitionRule left right [.line head, .braces [returnLine f]]
  | range {f} (name : left.kind = .id) (body : right.kind = .range) (ok : rangeOf right = .ok f) :
      DefinitionRule left right
        [.line ("public IEnumerable<int> " ++ identifier left ++ " = " ++ f.render ++ ";")]
  | matrix {ps} (name : left.kind = .id) (body : right.kind = .matrix)
      (ok : matrixCode (identifier left) right = .ok ps) : DefinitionRule left right ps
  | computed {ps} (name : left.kind = .id) (body : right.kind = .program)
      (ok : program right = .ok ps) :
      DefinitionRule left right (getter ("public double " ++ identifier left) ps)
  | assigned {target f} (place : left.kind = .apply)
      (body : right.kind = .apply ∨ right.kind = .parens) (assignee : value left = .ok target)
      (ok : value right = .ok f) :
      DefinitionRule left right [.line (target.render ++ " = " ++ f.render ++ ";")]
  /-- What is assigned is the outcome of a function that is called at once. -/
  | called {target ps} (place : left.kind = .apply) (body : right.kind = .program)
      (assignee : value left = .ok target) (ok : program right = .ok ps) :
      DefinitionRule left right
        [.line (target.render ++ " = new Func<double>(() =>"), .block ps ")();"]

theorem DefinitionRule.of_definitionOf {whole left right : Element} {ps : List Piece}
    (h : definitionOf whole left right = .ok ps) : DefinitionRule left right ps := by
  unfold definitionOf at h
  split at h <;> try simp only [bind_eq_ok_iff, Except.ok.injEq] at h
  case h_1 name body =>
    obtain ⟨f, ok, rfl⟩ := h
    exact .field name (.inl body) ok
  case h_2 name body =>
    obtain ⟨f, ok, rfl⟩ := h
    exact .field name (.inr body) ok
  case h_3 name body =>
    obtain ⟨f, ok, rfl⟩ := h
    exact .property name (.inl body) ok
  case h_4 name body =>
    obtain ⟨f, ok, rfl⟩ := h
    exact .property name (.inr body) ok
  case h_5 name body =>
    obtain ⟨head, declared, f, ok, rfl⟩ := h
    exact .method name (.inl body) declared ok
  case h_6 name body =>
    obtain ⟨head, declared, f, ok, rfl⟩ := h
    exact .method name (.inr body) declared ok
  case h_7 name body =>
    obtain ⟨f, ok, rfl⟩ := h
    exact .range name body ok
  case h_8 name body => exact .matrix name body h
  case h_9 name body =>
    obtain ⟨ps, ok, rfl⟩ := h
    exact .computed name body ok
  case h_10 place body =>
    obtain ⟨target, hplace, f, ok, rfl⟩ := h
    exact .assigned place (.inl body) hplace ok
  case h_11 place body =>
    obtain ⟨target, hplace, f, ok, rfl⟩ := h
    exact .assigned place (.inr body) hplace ok
  case h_12 place body =>
    obtain ⟨target, hplace, ps, ok, rfl⟩ := h
    exact .called place body hplace ok
  case h_13 => cases h

theorem DefinitionRule.of_definition {e : Element} {ps : List Piece} (h : definition e = .ok ps) :
    ∃ left right, e.children = [left, right] ∧ DefinitionRule left right ps := by
  unfold definition at h
  split at h
  · next left right children => exact ⟨left, right, children, .of_definitionOf h⟩
  · cases h

/-! ## Evaluations -/

/-- One rule gives what the result shows. -/
inductive OutcomeRule (result : Element) : Outcome → Prop
  | real {shown f} (children : result.children = [shown]) (kind : shown.kind = .real)
      (ok : value shown = .ok f) : OutcomeRule result (.scalar f)
  | united {shown magnitude unit f} (children : result.children = [shown])
      (kind : shown.kind = .unitedValue) (parts : shown.children = [magnitude, unit])
      (kinds : magnitude.kind = .real ∧ unit.kind = .unitMonomial) (ok : value magnitude = .ok f) :
      OutcomeRule result (.scalar f)
  | complex {shown f} (children : result.children = [shown]) (kind : shown.kind = .complex)
      (ok : complexLiteral .result shown = .ok f) : OutcomeRule result (.complex f)
  | matrix {shown} (children : result.children = [shown]) (kind : shown.kind = .matrix) :
      OutcomeRule result (.matrix shown)

theorem OutcomeRule.of_outcome {result : Element} {o : Outcome} (h : outcome result = .ok o) :
    OutcomeRule result o := by
  unfold outcome at h
  split at h
  · next shown children =>
    split at h
    · next kind =>
      simp only [bind_eq_ok_iff, Except.ok.injEq] at h
      obtain ⟨f, ok, rfl⟩ := h
      exact .real children kind ok
    · next kind =>
      split at h
      · next magnitude unit parts =>
        split at h
        · next kinds =>
          simp only [bind_eq_ok_iff, Except.ok.injEq] at h
          obtain ⟨f, ok, rfl⟩ := h
          exact .united children kind parts kinds ok
        · cases h
      · cases h
    · next kind =>
      simp only [bind_eq_ok_iff, Except.ok.injEq] at h
      obtain ⟨f, ok, rfl⟩ := h
      exact .complex children kind ok
    · next kind =>
      obtain rfl := Except.ok.inj h
      exact .matrix children kind
    · cases h
  · cases h

/-- One rule gives the code and the warnings of the evaluation. -/
inductive EvaluationRule (e : Element) : List Piece × List Warning → Prop
  | pending {target} (children : e.children = [target]) (name : target.kind = .id) :
      EvaluationRule e ([.line ("public double " ++ identifier target ++ " = 0;")], [])
  | shown {target result f o ps} (children : e.children = [target, result])
      (kinds : isTargetKind target.kind = true ∧ result.kind = .result)
      (assignee : value target = .ok f) (out : outcome result = .ok o)
      (ok : assignment f none o = .ok ps) : EvaluationRule e (ps, [])
  | shownIn {target override result f unit o ps} (children : e.children = [target, override, result])
      (kinds : isTargetKind target.kind = true ∧ override.kind = .unitOverride ∧
        result.kind = .result)
      (assignee : value target = .ok f) (united : unitOf override = .ok unit)
      (out : outcome result = .ok o) (ok : assignment f (some unit) o = .ok ps) :
      EvaluationRule e (ps, [.unitDiscarded unit.render f.render])

theorem EvaluationRule.of_evaluation {e : Element} {r : List Piece × List Warning}
    (h : evaluation e = .ok r) : EvaluationRule e r := by
  unfold evaluation at h
  split at h
  · next target children =>
    split at h
    · next name =>
      cases h
      exact .pending children name
    · cases h
  · next target result children =>
    split at h
    · next kinds =>
      simp only [bind_eq_ok_iff, Except.ok.injEq] at h
      obtain ⟨f, hf, o, out, ps, ok, rfl⟩ := h
      exact .shown children kinds hf out ok
    · cases h
  · next target override result children =>
    split at h
    · next kinds =>
      simp only [bind_eq_ok_iff, Except.ok.injEq] at h
      obtain ⟨f, hf, unit, united, o, out, ps, ok, rfl⟩ := h
      exact .shownIn children kinds hf united out ok
    · cases h
  · cases h

/-! ## Elements -/

/-- One rule gives what the element gives for itself. -/
inductive OwnRule (e : Element) : Emission → Prop
  | definition {code} (kind : e.kind = .define ∨ e.kind = .globalDefine)
      (ok : definition e = .ok code) : OwnRule e { code }
  | evaluation {code discarded} (kind : e.kind = .eval) (ok : evaluation e = .ok (code, discarded)) :
      OwnRule e { code, discarded }
  | function {f} (kind : e.kind = .apply) (ok : value e = .ok f) :
      OwnRule e { code := [propertyLine "Function" f] }
  | unimplemented : OwnRule e { unimplemented := [e.localName] }
  | nothing : OwnRule e {}

theorem OwnRule.of_emitOwn {parent : Kind} {e : Element} {r : Emission}
    (h : emitOwn parent e = .ok r) : OwnRule e r := by
  unfold emitOwn at h
  split at h
  · split at h
    · next kind =>
      simp only [bind_eq_ok_iff, Except.ok.injEq] at h
      obtain ⟨code, ok, rfl⟩ := h
      exact .definition (.inl kind) ok
    · next kind =>
      simp only [bind_eq_ok_iff, Except.ok.injEq] at h
      obtain ⟨code, ok, rfl⟩ := h
      exact .definition (.inr kind) ok
    · next kind =>
      simp only [bind_eq_ok_iff, Except.ok.injEq] at h
      obtain ⟨⟨code, discarded⟩, ok, rfl⟩ := h
      exact .evaluation kind ok
    · next kind =>
      split at h
      · simp only [bind_eq_ok_iff, Except.ok.injEq] at h
        obtain ⟨f, ok, rfl⟩ := h
        exact .function kind ok
      · cases h
        exact .unimplemented
    · cases h
      exact .unimplemented
  · cases h
    exact .nothing

end Calcsheet.Code
