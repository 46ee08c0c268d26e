import Calcsheet.Batch
import Calcsheet.Proofs.FileTree.Action

/-!
# Plans for worksheets

A worksheet gives code if it can be read, decoded and translated (`codeOf?`). Then there is a plan
for it, which writes the code and after it the attachments (`Plan.Writes`), and else nothing is done
to the tree (`plan_cases`).
-/

namespace Calcsheet.Batch

open FileTree

/-- The options for the code of a worksheet. -/
def emitOptions (options : Options) (w : Path) : Calcsheet.Options :=
  (Calcsheet.Options.forDocument w).withNamespace? options.namespaceName?

/-- The code for a worksheet with this text, if there is any and its attachments can be decoded. -/
def codeOfText? (options : Options) (w : Path) (text : String) : Option String := do
  let read ← (Worksheet.read text).toOption
  let _ ← (attachmentsOf options read.value.root).toOption
  let result ← (translateDocument (emitOptions options w) read).toOption
  some result.value

/-- The code for a worksheet of a tree. -/
def codeOf? (options : Options) (tree : FileTree) (w : Path) : Option String :=
  (readText tree w).toOption.bind (codeOfText? options w)

/-- The name of the source file of a worksheet. -/
def sourceName (options : Options) (w : Path) : String :=
  w.stem ++ "." ++ options.extension

/-- The plan writes the code and after it some attachments, none if they are not wanted. -/
structure Plan.Writes (plan : Plan) (options : Options) (root w : Path) (code : String) : Prop where
  code_eq : plan.code =
    [.makeFolders (outputFolderOf root w options.outputFolder),
      .write ((outputFolderOf root w options.outputFolder).join ⟨sourceName options w⟩) code.toUTF8]
  attachments_eq : ∃ attachments,
    plan.attachments =
        Attachment.actions (outputFolderOf root w options.outputFolder) w.stem attachments ∧
      (options.attachments = false → attachments = [])

theorem attachmentsOf_of_unwanted {options : Options} (h : options.attachments = false)
    (root : Element) : attachmentsOf options root = .ok [] := by
  rw [attachmentsOf, h]
  rfl

theorem planText_of_ok {options : Options} {w : Path} {text : String} {read : Converted Document}
    {attachments : List Attachment} {result : Converted String} (root : Path)
    (hread : Worksheet.read text = .ok read)
    (hattached : attachmentsOf options read.value.root = .ok attachments)
    (hresult : translateDocument (emitOptions options w) read = .ok result) :
    ∃ plan, planText options root w text = .ok plan ∧ plan.Writes options root w result.value := by
  rw [emitOptions] at hresult
  refine ⟨⟨_, _, attachments.length, result.warnings⟩, ?_, rfl, attachments, rfl, fun unwanted => ?_⟩
  · rw [planText, hread]
    refine bind_eq_ok_iff.2 ⟨read, rfl, bind_eq_ok_iff.2 ⟨attachments, hattached, ?_⟩⟩
    rw [hresult]
    rfl
  · rw [attachmentsOf_of_unwanted unwanted] at hattached
    exact (Except.ok.inj hattached).symm

/-- There is a plan exactly if there is code. -/
theorem planText_cases (options : Options) (root w : Path) (text : String) :
    (codeOfText? options w text = none ∧ ∃ failure, planText options root w text = .error failure) ∨
      ∃ result plan, translate (emitOptions options w) text = .ok result ∧
        codeOfText? options w text = some result.value ∧
        planText options root w text = .ok plan ∧ plan.Writes options root w result.value := by
  unfold codeOfText?
  cases hread : Worksheet.read text with
  | error error => exact .inl ⟨rfl, .translate (.reading error), by simp [planText, hread]; rfl⟩
  | ok read =>
    cases hattached : attachmentsOf options read.value.root with
    | error failure =>
      refine .inl ⟨by simp [Except.toOption, hattached], failure, ?_⟩
      rw [planText, hread]
      show attachmentsOf options read.value.root >>= _ = _
      rw [hattached]
      rfl
    | ok attachments =>
      cases hresult : translateDocument (emitOptions options w) read with
      | error error =>
        refine .inl ⟨by simp [Except.toOption, hattached, hresult], .translate error, ?_⟩
        rw [emitOptions] at hresult
        rw [planText, hread]
        show attachmentsOf options read.value.root >>= _ = _
        rw [hattached, hresult]
        rfl
      | ok result =>
        obtain ⟨plan, hplan, writes⟩ := planText_of_ok root hread hattached hresult
        refine .inr ⟨result, plan, ?_, by simp [Except.toOption, hattached, hresult], hplan, writes⟩
        rw [translate, hread]
        exact hresult

theorem plan_cases (options : Options) (root : Path) (tree : FileTree) (w : Path) :
    (codeOf? options tree w = none ∧
        ∃ failure, Batch.plan options root w (readText tree w) = .error failure) ∨
      ∃ text result plan, readText tree w = .ok text ∧
        translate (emitOptions options w) text = .ok result ∧
        codeOf? options tree w = some result.value ∧
        Batch.plan options root w (readText tree w) = .ok plan ∧
        plan.Writes options root w result.value := by
  unfold codeOf?
  cases readText tree w with
  | error error => exact .inl ⟨rfl, .file error, rfl⟩
  | ok text =>
    rcases planText_cases options root w text with none | ⟨result, plan, some⟩
    · exact .inl none
    · exact .inr ⟨text, result, plan, rfl, some⟩

/-! ## Carrying out a plan -/

/-- What is to be done for a worksheet: nothing if there is no plan for it. -/
def actionsFor (options : Options) (root : Path) (tree : FileTree) (w : Path) :
    List FileTree.Action :=
  ((Batch.plan options root w (readText tree w)).toOption.map fun plan =>
    plan.code ++ plan.attachments).getD []

section Run

variable {options : Options} {root w : Path} {tree : FileTree} {plan : Plan}

theorem actionsFor_of_ok (h : Batch.plan options root w (readText tree w) = .ok plan) :
    actionsFor options root tree w = plan.code ++ plan.attachments := by
  rw [actionsFor, h]
  rfl

theorem actionsFor_of_error {failure : Failure}
    (h : Batch.plan options root w (readText tree w) = .error failure) :
    actionsFor options root tree w = [] := by
  rw [actionsFor, h]
  rfl

theorem actionsFor_of_none (h : codeOf? options tree w = none) :
    actionsFor options root tree w = [] := by
  rcases plan_cases options root tree w with
    ⟨-, failure, hplan⟩ | ⟨text, result, plan, -, -, some, -⟩
  · exact actionsFor_of_error hplan
  · rw [h] at some
    cases some

theorem convertOne_of_ok (h : Batch.plan options root w (readText tree w) = .ok plan) :
    convertOne options root tree w = plan.run tree := by
  rw [convertOne, h]

theorem convertOne_of_error {failure : Failure}
    (h : Batch.plan options root w (readText tree w) = .error failure) :
    convertOne options root tree w = (tree, .error failure) := by
  rw [convertOne, h]

/-- Converting a worksheet carries out its actions. -/
theorem convertOne_tree (options : Options) (root : Path) (tree : FileTree) (w : Path) :
    (convertOne options root tree w).1 = (tree.actAll (actionsFor options root tree w)).1 := by
  cases h : Batch.plan options root w (readText tree w) with
  | error failure =>
    rw [convertOne_of_error h, actionsFor_of_error h]
    rfl
  | ok plan =>
    rw [convertOne_of_ok h, actionsFor_of_ok h, Plan.run, actAll_append]
    rcases tree.actAll plan.code with ⟨coded, _ | error⟩
    · simp only [Option.isSome_none, Bool.false_eq_true, if_false]
      rcases coded.actAll plan.attachments with ⟨written, _ | error⟩ <;> rfl
    · rfl

theorem Plan.code_of_run_ok {plan' : Plan} (h : (plan.run tree).2 = .ok plan') :
    (tree.actAll plan.code).2 = none := by
  unfold Plan.run at h
  rcases hcode : tree.actAll plan.code with ⟨coded, _ | error⟩
  · rfl
  · rw [hcode] at h
    cases h

theorem grows_convertOne (options : Options) (root : Path) (tree : FileTree) (w : Path) :
    Grows tree (convertOne options root tree w).1 := by
  rw [convertOne_tree]
  exact grows_actAll tree _

end Run

end Calcsheet.Batch
