import Calcsheet.CommandLine

/-!
# The program

The command line on the files of the system. What is to be written, told and returned is settled by
`Batch.plan` and `CommandLine`; here files are read, folders listed and actions carried out.
-/

namespace Calcsheet.Program

/-- What the system says, as an error of ours. -/
def fileError : IO.Error → FileError
  | .noFileOrDirectory .. | .noSuchThing .. => .notFound
  | .alreadyExists .. => .alreadyExists
  | .inappropriateType _ code _ => if code = 21 then .isFolder else .notFolder
  | error => .other error.toString

/-- Does something with files. -/
def attempt {α : Type} (action : IO α) : BaseIO (Except FileError α) := do
  match ← action.toBaseIO with
  | .ok a => return .ok a
  | .error error => return .error (fileError error)

/-- The text of a file. -/
def readText (p : Path) : BaseIO (Except FileError String) := do
  match ← attempt (IO.FS.readBinFile p.text) with
  | .ok content => return FileTree.textOf content
  | .error error => return .error error

/-- Carries out an action. -/
def act : FileTree.Action → BaseIO (Except FileError Unit)
  | .makeFolders p => attempt (if p.text = "" then pure () else IO.FS.createDirAll p.text)
  | .write p content => attempt (IO.FS.writeBinFile p.text content)

/-- Carries out actions in order, up to the first that goes wrong. -/
def actAll : List FileTree.Action → BaseIO (Except FileError Unit)
  | [] => return .ok ()
  | action :: rest => do
    match ← act action with
    | .ok () => actAll rest
    | .error error => return .error error

/-- The entries of a folder, all files taken for empty. -/
partial def survey (folder : String) : IO (List (String × FileTree)) := do
  let here ← IO.FS.realPath folder
  (← here.readDir).toList.mapM fun entry => do
    if (← entry.path.symlinkMetadata).type == .dir then
      return (entry.fileName, .folder (← survey entry.path.toString))
    else return (entry.fileName, .file .empty)

/-- Tells a line. -/
def tell (line : String) : IO Unit :=
  IO.eprintln line

/-- Converts one worksheet of a batch. -/
def convertOne (options : Batch.Options) (root file : Path) :
    BaseIO (Except Batch.Failure Batch.Plan) := do
  match Batch.plan options root file (← readText file) with
  | .error failure => return .error failure
  | .ok plan =>
    match ← actAll plan.code with
    | .error error => return .error (.file error)
    | .ok () =>
      match ← actAll plan.attachments with
      | .error error => return .error (.attachmentFile error)
      | .ok () => return .ok plan

/-- Runs a batch. -/
def convert (options : Batch.Options) (root : Path) : IO Nat := do
  match ← attempt (survey root.text) with
  | .error error =>
    tell (CommandLine.errorLine error.message)
    return 1
  | .ok entries =>
    let skip := root.join ⟨options.outputFolder⟩
    let mut summary : Batch.Summary := {}
    for file in Batch.inOrder (Batch.foundIn skip root entries) do
      let result ← convertOne options root file
      (Batch.linesFor options.quiet file result).forM tell
      summary := summary.record result
    (CommandLine.summaryLines options.quiet summary).forM tell
    return CommandLine.summaryStatus summary

/-- Makes one source file. -/
def translate (input : Path) (output? : Option Path) (options : Options) (quiet : Bool) :
    IO Nat := do
  match translateText options (← readText input) with
  | .error error =>
    tell (CommandLine.errorLine error.message)
    return 1
  | .ok result =>
    (CommandLine.warningLines quiet result.warnings).forM tell
    match CommandLine.outputFile? output? with
    | none =>
      IO.print result.value
      return 0
    | some output =>
      match ← act (.write output result.value.toUTF8) with
      | .ok () => return 0
      | .error error =>
        tell (CommandLine.errorLine error.message)
        return 1

/-- Runs a command and gives its status. -/
def run : CommandLine.Command → IO Nat
  | .version => do
    IO.print CommandLine.versionText
    return 0
  | .kinds only? => do
    IO.print (CommandLine.kindsText only?)
    return 0
  | .convert root options => convert options root
  | .translate input output? namespaceName? className? quiet =>
    translate input output? (CommandLine.optionsFor input namespaceName? className?) quiet

end Calcsheet.Program

/-- The entry point. -/
def main (args : List String) : IO UInt32 := do
  match Calcsheet.CommandLine.read false args with
  | some command => return (← Calcsheet.Program.run command).toUInt32
  | none =>
    Calcsheet.Program.tell (Calcsheet.CommandLine.errorLine "the arguments are not understood")
    return 2
