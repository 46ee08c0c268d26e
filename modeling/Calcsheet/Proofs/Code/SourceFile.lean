import Calcsheet.Proofs.Code.Emission

/-!
# Bare members and whole source files

No line of generated code is empty (`inked_emitRoot`), so that every line is indented by its level.
A source file then holds the lines of the bare members, two levels deeper, between the lines that
open and close the namespace and the class (`members_agree_emit`).
-/

namespace Calcsheet.Code

/-! ## No empty lines -/

/-- No line of the code is empty. -/
def Inked (ps : List Piece) : Prop :=
  ∀ r ∈ Piece.recordsAll 0 ps, r.2 ≠ ""

@[simp]
theorem inked_nil : Inked [] := by
  simp [Inked, Piece.recordsAll]

@[simp]
theorem inked_append {ps qs : List Piece} : Inked (ps ++ qs) ↔ Inked ps ∧ Inked qs := by
  simp only [Inked, Piece.recordsAll_append, List.mem_append, or_imp, forall_and]

@[simp]
theorem inked_line_cons {text : String} {ps : List Piece} :
    Inked (.line text :: ps) ↔ text ≠ "" ∧ Inked ps := by
  simp [Inked, Piece.recordsAll, Piece.records]

@[simp]
theorem inked_block_cons {body : List Piece} {closing : String} {ps : List Piece} :
    Inked (.block body closing :: ps) ↔ Inked body ∧ Inked ps := by
  have inside := Piece.recordsAll_add 1 body 0
  simp only [Inked, Piece.recordsAll, Piece.records, inside, List.cons_append, List.mem_cons,
    List.mem_append, List.mem_map, List.append_assoc, List.nil_append]
  constructor
  · intro h
    exact ⟨fun r hr => h (Piece.deeper 1 r) (.inr (.inl ⟨r, hr, rfl⟩)),
      fun r hr => h r (.inr (.inr (.inr hr)))⟩
  · rintro ⟨hbody, hps⟩ r (rfl | ⟨r, hr, rfl⟩ | rfl | hr)
    · simp
    · exact hbody r hr
    · simp
    · exact hps r hr

@[simp]
theorem inked_braces_cons {body ps : List Piece} :
    Inked (.braces body :: ps) ↔ Inked body ∧ Inked ps :=
  inked_block_cons

@[simp]
theorem inked_getter {declaration : String} {body : List Piece} :
    Inked (getter declaration body) ↔ declaration ≠ "" ∧ Inked body := by
  simp [getter]

@[simp]
theorem inked_propertyLine (name : String) (body : Fragment) : Inked [propertyLine name body] := by
  simp [propertyLine]

@[simp]
theorem inked_returnLine (f : Fragment) : Inked [returnLine f] := by
  simp [returnLine]

@[simp]
theorem inked_guardLine_cons {f : Fragment} {ps : List Piece} :
    Inked (guardLine f :: ps) ↔ Inked ps := by
  unfold guardLine
  split <;> simp

theorem inked_matrixCode {name : String} {e : Element} {ps : List Piece}
    (h : matrixCode name e = .ok ps) : Inked ps := by
  obtain ⟨g, -, rfl⟩ := matrixCode_eq_ok_iff.1 h
  have cells (as : List ((Nat × Nat) × Fragment)) : Inked (as.map Grid.assignmentLine) := by
    induction as with
    | nil => simp
    | cons a rest ih => simp [Grid.assignmentLine, ih]
  simp [Grid.code, cells]

/-! ## Programs -/

theorem inked_statements {es : List Element} {ps : List Piece}
    (each : ∀ e ∈ es, ∀ ps, statement e = .ok ps → Inked ps) (h : statements es = .ok ps) :
    Inked ps :=
  statements_induction inked_nil (fun hps hqs => inked_append.2 ⟨hps, hqs⟩) each h

theorem inked_statement {e : Element} {ps : List Piece} (h : statement e = .ok ps) : Inked ps := by
  induction e using Element.inductionBelow generalizing ps with
  | step e below =>
    cases StatementRule.of_statement h with
    | branch kind children test choice guarded ok =>
      -- the statements of the branch stand two levels below the statement
      simpa using inked_statements (fun d hd ps => below d
        (Element.mem_descendants_of_mem_children_children (by simp [children]) hd)) ok
    | answer => simp
    | expression => simp

theorem inked_program {e : Element} {ps : List Piece} (h : program e = .ok ps) : Inked ps :=
  inked_statements (fun _ _ _ => inked_statement) (program_eq e ▸ h)

/-! ## Members -/

theorem inked_signature {e : Element} {head : String} (h : signature e = .ok head) : head ≠ "" := by
  unfold signature at h
  split at h
  · split at h
    · simp only [bind_eq_ok_iff, Except.ok.injEq] at h
      obtain ⟨params, -, rfl⟩ := h
      simp
    · cases h
  · cases h

theorem DefinitionRule.inked {left right : Element} {ps : List Piece}
    (h : DefinitionRule left right ps) : Inked ps := by
  cases h with
  | field | property | range | assigned => simp
  | method name body declared ok => simp [inked_signature declared]
  | matrix name body ok => exact inked_matrixCode ok
  | computed name body ok => simp [inked_program ok]
  | called place body assignee ok => simp [inked_program ok]

theorem inked_assignment {target : Fragment} {unit? : Option Fragment} {shown : Outcome}
    {ps : List Piece} (h : assignment target unit? shown = .ok ps) : Inked ps := by
  cases shown with
  | scalar f =>
    obtain rfl := Except.ok.inj h
    simp [assignment.fieldLine]
  | complex f =>
    obtain rfl := Except.ok.inj h
    simp [assignment.fieldLine]
  | matrix e =>
    simp only [assignment, bind_eq_ok_iff, Except.ok.injEq] at h
    obtain ⟨code, hcode, rfl⟩ := h
    rw [inked_append]
    refine ⟨?_, inked_matrixCode hcode⟩
    cases unit? <;> simp [unitComment]

theorem EvaluationRule.inked {e : Element} {r : List Piece × List Warning}
    (h : EvaluationRule e r) : Inked r.1 := by
  cases h with
  | pending => simp
  | shown children kinds assignee out ok => exact inked_assignment ok
  | shownIn children kinds assignee united out ok => exact inked_assignment ok

theorem inked_emitOwn {parent : Kind} {e : Element} {r : Emission}
    (h : emitOwn parent e = .ok r) : Inked r.code := by
  cases OwnRule.of_emitOwn h with
  | definition kind ok =>
    obtain ⟨left, right, -, rule⟩ := DefinitionRule.of_definition ok
    exact rule.inked
  | evaluation kind ok => exact (EvaluationRule.of_evaluation ok).inked
  | function kind ok => exact inked_propertyLine _ _
  | unimplemented | nothing => exact inked_nil

theorem inked_emitRoot {root : Element} {r : Emission} (h : emitRoot root = .ok r) :
    Inked r.code :=
  emitRoot_induction (P := fun r => Inked r.code) inked_nil
    (fun ha hb => inked_append.2 ⟨ha, hb⟩) (fun _ _ => inked_emitOwn) h

/-! ## Whole files -/

/-- The lines of a source file, given the lines of its members. -/
theorem recordsAll_sourceFile (options : Options) (code : List Piece) :
    Piece.recordsAll 0 (sourceFile options code) =
      usings.map (fun name => (0, "using " ++ name ++ ";")) ++
        ([(0, ""), (0, "namespace " ++ options.namespaceName), (0, "\x7b"),
          (1, "public class " ++ options.className), (1, "\x7b")] ++
          (Piece.recordsAll 0 code).map (Piece.deeper 2) ++ [(1, "\x7d"), (0, "\x7d")]) := by
  have lines (names : List String) :
      Piece.recordsAll 0 (names.map fun name => .line ("using " ++ name ++ ";")) =
        names.map fun name => (0, "using " ++ name ++ ";") := by
    induction names with
    | nil => rfl
    | cons name rest ih => simp [Piece.recordsAll, Piece.records, ih]
  rw [sourceFile, Piece.recordsAll_append, lines, ← Piece.recordsAll_add 2 code 0]
  simp [Piece.recordsAll, Piece.records, Piece.braces]

theorem writtenText_usings (width : Nat) (names : List String) :
    writtenText width (names.map fun name => (0, "using " ++ name ++ ";")) =
      Text.concat (names.map fun name => "using " ++ name ++ ";\n") := by
  induction names with
  | nil => rfl
  | cons name rest ih =>
    rw [List.map_cons, writtenText, List.map_cons, Text.concat, ih]
    simp [Writer.lineText, Text.spaces, String.append_assoc]

end Calcsheet.Code
