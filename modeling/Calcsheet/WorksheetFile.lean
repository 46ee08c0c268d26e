import Calcsheet.Attachment
import Calcsheet.Code.SourceFile
import Calcsheet.FileTree
import Calcsheet.Worksheet

/-!
# Worksheets in files

What is made from a worksheet file by itself: its source file, and the files that hold its
attachments. The text of a worksheet is read and its source file is generated in one go, with the
reader's warnings first. Attachments go into a folder of their own, named after the worksheet.
-/

namespace Calcsheet

/-! ## From texts to source files -/

/-- Why a text gives no source file. -/
inductive TranslateError where
  | reading (error : ReadError)
  | unsupported (construct : Code.Unsupported)
  deriving DecidableEq, Repr, Inhabited

/-- What is wrong, in words. -/
def TranslateError.message : TranslateError → String
  | reading error => error.message
  | unsupported construct => construct.message

/-- The source file for a worksheet that has been read. -/
def translateDocument (options : Options) (read : Converted Document) :
    Except TranslateError (Converted String) :=
  match Code.emit options read.value with
  | .ok emitted => .ok { emitted with warnings := read.warnings ++ emitted.warnings }
  | .error construct => .error (.unsupported construct)

/-- The source file for the text of a worksheet. -/
def translate (options : Options) (text : String) : Except TranslateError (Converted String) :=
  match Worksheet.read text with
  | .ok read => translateDocument options read
  | .error error => .error (.reading error)

/-! ## Source files -/

/-- The text of a file. -/
def readText (tree : FileTree) (p : Path) : Except FileError String := do
  FileTree.textOf (← tree.read p)

/-- Why the worksheet at a path gives no source file. -/
inductive FileTranslateError where
  | file (error : FileError)
  | translate (error : TranslateError)
  deriving DecidableEq, Repr, Inhabited

/-- What is wrong, in words. -/
def FileTranslateError.message : FileTranslateError → String
  | file error => "io error: " ++ error.message
  | translate error => error.message

/-- The source file for a text that may not have been read. -/
def translateText (options : Options) (text : Except FileError String) :
    Except FileTranslateError (Converted String) :=
  match text with
  | .error error => .error (.file error)
  | .ok text =>
    match translate options text with
    | .ok result => .ok result
    | .error error => .error (.translate error)

/-- The source file for the worksheet at a path. -/
def translateFile (tree : FileTree) (options : Options) (document : Path) :
    Except FileTranslateError (Converted String) :=
  translateText options (readText tree document)

/-! ## Attachments -/

namespace Attachment

/-- The folder for the attachments of a worksheet, given the folder for its outputs. -/
def folder (destination : Path) (stem : String) : Path :=
  (destination.join ⟨"bin"⟩).join ⟨stem⟩

/-- What is to be done to write attachments: nothing if there are none. -/
def actions (destination : Path) (stem : String) (attachments : List Attachment) :
    List FileTree.Action :=
  if attachments.isEmpty then []
  else
    let folder := folder destination stem
    .makeFolders folder :: attachments.map fun a =>
      .write (folder.join ⟨a.fileName⟩) ⟨a.data.toArray⟩

end Attachment

/-- Why the attachments of the worksheet at a path cannot be written. -/
inductive ExtractError where
  | file (error : FileError)
  | reading (error : ReadError)
  | attachment (error : AttachmentError)
  deriving DecidableEq, Repr, Inhabited

/-- What is wrong, in words. -/
def ExtractError.message : ExtractError → String
  | file error => "io error: " ++ error.message
  | reading error => error.message
  | attachment error => error.message

/-- The attachments of the worksheet at a path. -/
def attachmentsOf (tree : FileTree) (document : Path) : Except ExtractError (List Attachment) :=
  match readText tree document with
  | .error error => .error (.file error)
  | .ok text =>
    match Worksheet.read text with
    | .error error => .error (.reading error)
    | .ok read =>
      match Attachment.collect read.value.root with
      | .error error => .error (.attachment error)
      | .ok attachments => .ok attachments

/-- Writes the attachments of the worksheet at a path, and tells how many there are. -/
def extract (tree : FileTree) (destination document : Path) : FileTree × Except ExtractError Nat :=
  match attachmentsOf tree document with
  | .error error => (tree, .error error)
  | .ok attachments =>
    match tree.actAll (Attachment.actions destination document.stem attachments) with
    | (tree, some error) => (tree, .error (.file error))
    | (tree, none) => (tree, .ok attachments.length)

end Calcsheet
