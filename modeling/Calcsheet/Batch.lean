import Calcsheet.Text.Basic
import Calcsheet.WorksheetFile

/-!
# Converting all worksheets below a folder

A batch finds the worksheets below a root in the order of their paths and converts one after
another. The outputs go into a folder below the root, in which the folders of the worksheets are
repeated; that folder is not searched. A worksheet that fails is counted, and the batch goes on.
-/

namespace Calcsheet.Batch

/-- How a batch is to be run. -/
structure Options where
  /-- The folder for the outputs, seen from the root. -/
  outputFolder : String := "Net"
  /-- The extension of the source files. -/
  extension : String := "cs"
  /-- The namespace around the classes, if not the usual one. -/
  namespaceName? : Option String := none
  /-- Attachments are written. -/
  attachments : Bool := true
  /-- Warnings are not told. -/
  quiet : Bool := false
  deriving DecidableEq, Repr, Inhabited

/-! ## Finding worksheets -/

/-- The path names a worksheet: its extension is `xmcd` in any case. -/
def isWorksheet (p : Path) : Bool :=
  match p.extension? with
  | some extension => extension.map Char.toLower = "xmcd"
  | none => false

/-- What was found in the entries of a folder, in the order of their names. -/
def inOrder (entries : List (String × List Path)) : List Path :=
  (Text.sortOn Prod.fst entries).flatMap Prod.snd

mutual

/-- The worksheets in an entry at a path. A folder at the path `skip` is left out. -/
def found (skip path : Path) : FileTree → List Path
  | .file _ => if isWorksheet path then [path] else []
  | .folder entries => if path.sameAs skip then [] else inOrder (foundIn skip path entries)

/-- The worksheets in each entry of the folder at a path. -/
def foundIn (skip path : Path) : List (String × FileTree) → List (String × List Path)
  | [] => []
  | (name, entry) :: rest =>
    (name, found skip (path.join ⟨name⟩) entry) :: foundIn skip path rest

end

/-- The worksheets below `root` in the order of their paths, except those below `skip`. -/
def discover (tree : FileTree) (root skip : Path) : Except FileError (List Path) := do
  .ok (inOrder (foundIn skip root (← tree.list root)))

/-- The folder for the outputs of a worksheet: its own folder, repeated below the output folder. -/
def outputFolderOf (root file : Path) (outputFolder : String) : Path :=
  let relative := (file.parent?.bind fun parent => parent.below? root).getD ⟨""⟩
  (root.join ⟨outputFolder⟩).join relative

/-! ## One worksheet -/

/-- Why a worksheet of a batch fails. -/
inductive Failure where
  | file (error : FileError)
  | translate (error : TranslateError)
  | attachment (error : AttachmentError)
  /-- The source file was written and the attachments cannot be. -/
  | attachmentFile (error : FileError)
  deriving DecidableEq, Repr, Inhabited

/-- What is wrong, in words. -/
def Failure.message : Failure → String
  | file error => error.message
  | translate error => error.message
  | attachment error => "attachments: " ++ error.message
  | attachmentFile error => "attachments: io error: " ++ error.message

/-- What is to be done for a worksheet, and what there is to tell about it. -/
structure Plan where
  /-- Writes the source file. -/
  code : List FileTree.Action
  /-- Writes the attachments. -/
  attachments : List FileTree.Action
  attachmentCount : Nat
  warnings : List Warning

/-- The attachments that a batch writes for a worksheet. -/
def attachmentsOf (options : Options) (root : Element) : Except Failure (List Attachment) :=
  if options.attachments then
    match Attachment.collect root with
    | .ok attachments => .ok attachments
    | .error error => .error (.attachment error)
  else .ok []

/-- The plan for the worksheet at `file`, given its text. All is decoded and generated before
anything is written. -/
def planText (options : Options) (root file : Path) (text : String) : Except Failure Plan := do
  let emitOptions := (Calcsheet.Options.forDocument file).withNamespace? options.namespaceName?
  let read ← (Worksheet.read text).mapError fun error => .translate (.reading error)
  let attachments ← attachmentsOf options read.value.root
  let result ← (translateDocument emitOptions read).mapError Failure.translate
  let destination := outputFolderOf root file options.outputFolder
  let output := destination.join ⟨file.stem ++ "." ++ options.extension⟩
  .ok { code := [.makeFolders destination, .write output result.value.toUTF8],
        attachments := Attachment.actions destination file.stem attachments,
        attachmentCount := attachments.length,
        warnings := result.warnings }

/-- The plan for the worksheet at `file`, given what reading it gave. -/
def plan (options : Options) (root file : Path) (text : Except FileError String) :
    Except Failure Plan :=
  match text with
  | .ok text => planText options root file text
  | .error error => .error (.file error)

/-- Carries out a plan. -/
def Plan.run (plan : Plan) (tree : FileTree) : FileTree × Except Failure Plan :=
  match tree.actAll plan.code with
  | (tree, some error) => (tree, .error (.file error))
  | (tree, none) =>
    match tree.actAll plan.attachments with
    | (tree, some error) => (tree, .error (.attachmentFile error))
    | (tree, none) => (tree, .ok plan)

/-- Converts the worksheet at `file`. -/
def convertOne (options : Options) (root : Path) (tree : FileTree) (file : Path) :
    FileTree × Except Failure Plan :=
  match plan options root file (readText tree file) with
  | .ok plan => plan.run tree
  | .error failure => (tree, .error failure)

/-! ## All worksheets -/

/-- What a batch has done. -/
structure Summary where
  translated : Nat := 0
  failed : Nat := 0
  attachments : Nat := 0
  /-- The names without a rule in worksheets that were converted, in increasing order. -/
  unimplemented : List String := []
  deriving DecidableEq, Repr, Inhabited

/-- The lines that are told about the worksheet at `file`. -/
def linesFor (quiet : Bool) (file : Path) : Except Failure Plan → List String
  | .error failure => ["error: " ++ file.text ++ ": " ++ failure.message]
  | .ok plan =>
    if quiet then []
    else
      (plan.warnings.filter fun w => w.unimplementedName?.isNone).map fun w =>
        "warning: " ++ file.text ++ ": " ++ w.message

/-- The summary after one more worksheet. -/
def Summary.record (s : Summary) : Except Failure Plan → Summary
  | .error _ => { s with failed := s.failed + 1 }
  | .ok plan =>
    { s with
      translated := s.translated + 1,
      attachments := s.attachments + plan.attachmentCount,
      unimplemented :=
        Text.sortedNames (s.unimplemented ++ plan.warnings.filterMap Warning.unimplementedName?) }

/-- Where a batch stands: the tree, the summary, and the lines told so far. -/
structure State where
  tree : FileTree
  summary : Summary := {}
  lines : List String := []

/-- Converts one more worksheet. -/
def State.step (options : Options) (root : Path) (s : State) (file : Path) : State :=
  let (tree, result) := convertOne options root s.tree file
  { tree, summary := s.summary.record result, lines := s.lines ++ linesFor options.quiet file result }

/-- Converts all worksheets below `root`. -/
def convert (options : Options) (root : Path) (tree : FileTree) :
    FileTree × Except FileError (Summary × List String) :=
  match discover tree root (root.join ⟨options.outputFolder⟩) with
  | .error error => (tree, .error error)
  | .ok files =>
    let final := files.foldl (State.step options root) { tree }
    (final.tree, .ok (final.summary, final.lines))

end Calcsheet.Batch
