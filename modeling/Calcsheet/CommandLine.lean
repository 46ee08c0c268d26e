import Calcsheet.Batch

/-!
# The command line

Three commands: `convert` for all worksheets below a folder, `translate` for one, and `kinds` to
list the elements that are known. Options may stand anywhere after the command, `--` ends them, and
an option that is given twice, is unknown or lacks its value makes the whole line unusable.
-/

namespace Calcsheet.CommandLine

/-! ## Arguments -/

/-- An option as a command declares it. -/
structure OptionRule where
  /-- The name after two dashes. -/
  long : String
  /-- The letter after one dash. -/
  short? : Option Char := none
  takesValue : Bool := true
  deriving DecidableEq, Repr, Inhabited

/-- An argument that has been understood. -/
inductive Argument where
  /-- An option, by its long name, with its value. -/
  | option (long : String) (value? : Option String)
  | operand (text : String)
  deriving DecidableEq, Repr, Inhabited

/-- The argument is written as an option. A single dash is not. -/
def looksLikeOption (arg : String) : Bool :=
  match arg.toList with
  | '-' :: _ :: _ => true
  | _ => false

/-- A long option cut at its first equals sign. -/
def cutEquals (s : List Char) : String × Option String :=
  match s.dropWhile (· != '=') with
  | [] => (String.ofList s, none)
  | _ :: value => (String.ofList (s.takeWhile (· != '=')), some (String.ofList value))

/-- What has to follow the options that were read from an argument. -/
inductive Ending where
  | complete
  /-- The next argument is the value of the option with this long name. -/
  | waiting (long : String)
  /-- Only operands. -/
  | operandsOnly
  /-- Nothing that would help. -/
  | wrong
  deriving DecidableEq, Repr, Inhabited

/-- What one argument says by itself. -/
structure Reading where
  arguments : List Argument
  ending : Ending := .complete
  deriving DecidableEq, Repr, Inhabited

/-- Reads a run of letters after one dash. The first that takes a value takes the rest of the run,
without an equals sign in front, or waits for the next argument. -/
def readLetters (rules : List OptionRule) : List Char → Reading
  | [] => { arguments := [] }
  | c :: rest =>
    match rules.find? fun rule => rule.short? = some c with
    | none => { arguments := [], ending := .wrong }
    | some rule =>
      if rule.takesValue then
        match rest with
        | [] => { arguments := [], ending := .waiting rule.long }
        | '=' :: value => { arguments := [.option rule.long (some (String.ofList value))] }
        | value => { arguments := [.option rule.long (some (String.ofList value))] }
      else
        let reading := readLetters rules rest
        { reading with arguments := .option rule.long none :: reading.arguments }

/-- Reads a long option, after its dashes. -/
def readLong (rules : List OptionRule) (s : List Char) : Reading :=
  let (long, value?) := cutEquals s
  match rules.find? fun rule => rule.long = long with
  | none => { arguments := [], ending := .wrong }
  | some rule =>
    match rule.takesValue, value? with
    | true, some value => { arguments := [.option long (some value)] }
    | true, none => { arguments := [], ending := .waiting long }
    | false, none => { arguments := [.option long none] }
    | false, some _ => { arguments := [], ending := .wrong }

/-- Reads one argument. -/
def readArgument (rules : List OptionRule) (arg : String) : Reading :=
  match arg.toList with
  | ['-', '-'] => { arguments := [], ending := .operandsOnly }
  | '-' :: '-' :: s => readLong rules s
  | '-' :: c :: s => readLetters rules (c :: s)
  | _ => { arguments := [.operand arg] }

/-- Reads the arguments of a command. -/
def readArguments (rules : List OptionRule) : List String → Option (List Argument)
  | [] => some []
  | arg :: rest =>
    let reading := readArgument rules arg
    match reading.ending with
    | .wrong => none
    | .operandsOnly => some (reading.arguments ++ rest.map Argument.operand)
    | .complete => (readArguments rules rest).map (reading.arguments ++ ·)
    | .waiting long =>
      match rest with
      | [] => none
      | value :: rest =>
        if looksLikeOption value then none
        else (readArguments rules rest).map (reading.arguments ++ .option long (some value) :: ·)

/-- The long names of the options that are given. -/
def optionNames (arguments : List Argument) : List String :=
  arguments.filterMap fun
    | .option long _ => some long
    | .operand _ => none

/-- The operands in order. -/
def operands (arguments : List Argument) : List String :=
  arguments.filterMap fun
    | .operand text => some text
    | .option .. => none

/-- The option is given. -/
def isGiven (arguments : List Argument) (long : String) : Bool :=
  (optionNames arguments).contains long

/-- The value that is given for an option. -/
def valueOf? (arguments : List Argument) (long : String) : Option String :=
  arguments.findSome? fun
    | .option name value? => if name = long then value? else none
    | .operand _ => none

/-- No name stands twice in the list. -/
def allDistinct : List String → Bool
  | [] => true
  | name :: rest => !rest.contains name && allDistinct rest

/-- Reads the arguments of a command in which no option is given twice. -/
def readOnce (rules : List OptionRule) (args : List String) : Option (List Argument) :=
  (readArguments rules args).filter fun arguments => allDistinct (optionNames arguments)

/-! ## Commands -/

/-- What is to be done. -/
inductive Command where
  | version
  | convert (root : Path) (options : Batch.Options)
  | translate (input : Path) (output? : Option Path) (namespaceName? className? : Option String)
      (quiet : Bool)
  | kinds (only? : Option Vocabulary)
  deriving DecidableEq, Repr, Inhabited

/-- The option of every command that keeps warnings back. -/
def quietRule : OptionRule := { long := "quiet", short? := some 'q', takesValue := false }

/-- A path, which cannot be empty. -/
def path? (text : String) : Option Path :=
  if text = "" then none else some ⟨text⟩

/-- The only operand, which is a path. -/
def onlyPath? (arguments : List Argument) : Option Path :=
  match operands arguments with
  | [text] => path? text
  | _ => none

/-- The command `convert`. -/
def readConvert (quiet : Bool) (args : List String) : Option Command := do
  let rules := [quietRule, { long := "output-subdir" }, { long := "extension" },
    { long := "namespace" }, { long := "no-binaries", takesValue := false }]
  let arguments ← readOnce rules args
  let root ← onlyPath? arguments
  let usual : Batch.Options := {}
  some (.convert root
    { outputFolder := (valueOf? arguments "output-subdir").getD usual.outputFolder,
      extension := (valueOf? arguments "extension").getD usual.extension,
      namespaceName? := valueOf? arguments "namespace",
      attachments := !isGiven arguments "no-binaries",
      quiet := quiet || isGiven arguments "quiet" })

/-- The command `translate`. -/
def readTranslate (quiet : Bool) (args : List String) : Option Command := do
  let rules := [quietRule, { long := "output", short? := some 'o' }, { long := "namespace" },
    { long := "class-name" }]
  let arguments ← readOnce rules args
  let input ← onlyPath? arguments
  let output? ← match valueOf? arguments "output" with
    | some text => (path? text).map some
    | none => some none
  some (.translate input output? (valueOf? arguments "namespace") (valueOf? arguments "class-name")
    (quiet || isGiven arguments "quiet"))

/-- The command `kinds`. -/
def readKinds (args : List String) : Option Command := do
  let arguments ← readOnce [quietRule, { long := "namespace" }] args
  if (operands arguments).isEmpty then
    match valueOf? arguments "namespace" with
    | some label => (Vocabulary.ofLabel? label).map fun only => .kinds (some only)
    | none => some (.kinds none)
  else none

/-- Reads a command by its name. -/
def readCommand (quiet : Bool) (name : String) (args : List String) : Option Command :=
  if name = "convert" then readConvert quiet args
  else if name = "translate" then readTranslate quiet args
  else if name = "kinds" then readKinds args
  else none

/-- What the arguments up to the command come to. -/
inductive Opening where
  /-- More arguments follow; `quiet` has been asked for or not. -/
  | more (quiet : Bool)
  | version
  | command (name : String)
  | wrong
  deriving DecidableEq, Repr, Inhabited

/-- Takes arguments that stand before the command in order. To ask for the version is to ask for
nothing else, whatever follows. -/
def openWith (quiet : Bool) : List Argument → Opening
  | [] => .more quiet
  | .operand name :: _ => .command name
  | .option long _ :: rest =>
    if long = "version" then .version
    else if quiet then .wrong
    else openWith true rest

/-- The options that may stand before the command. -/
def openingRules : List OptionRule :=
  [quietRule, { long := "version", short? := some 'V', takesValue := false }]

/-- Reads a whole line of arguments: options that are not a command's own, then a command. -/
def read (quiet : Bool) : List String → Option Command
  | [] => none
  | arg :: rest =>
    let reading := readArgument openingRules arg
    match openWith quiet reading.arguments, reading.ending with
    | .version, _ => some .version
    | .command name, _ => readCommand quiet name rest
    | .more quiet, .complete => read quiet rest
    | _, _ => none

/-! ## Answers -/

/-- What a run of the program leaves behind. -/
structure Outcome where
  status : Nat := 0
  output : String := ""
  /-- The lines told beside the output. -/
  told : List String := []
  tree : FileTree

/-- Lines as one text. -/
def unlines (lines : List String) : String :=
  Text.concat (lines.map (· ++ "\n"))

/-- What is told when the program gives up. -/
def errorLine (message : String) : String :=
  "error: " ++ message

/-- The program's name and version. -/
def versionText : String :=
  "mathsharp 0.1.0\n"

/-- One row of the list of kinds. -/
def kindRow (vocabulary tag kind : String) : String :=
  "  " ++ Text.padded 10 vocabulary ++ " " ++ Text.padded 18 tag ++ " " ++ kind

/-- The list of known elements, of one vocabulary or of all. -/
def kindsText (only? : Option Vocabulary) : String :=
  let rows (vocabulary : Vocabulary) : List String :=
    vocabulary.entries.map fun (tag, kind) => kindRow vocabulary.label tag kind.label
  let shown := match only? with
    | some only => [only]
    | none => Vocabulary.all
  unlines (["Recognized elements:", "", kindRow "NAMESPACE" "TAG" "KIND",
    kindRow "---------" "---" "----"] ++ shown.flatMap rows)

/-- What is told at the end of a batch. -/
def summaryLines (quiet : Bool) (s : Batch.Summary) : List String :=
  let missing := if s.unimplemented.isEmpty then []
    else ["not yet implemented: " ++ Text.joinWith ", " s.unimplemented]
  let counts := if quiet then []
    else ["translated " ++ Text.decimal s.translated ++ " worksheet(s), extracted " ++
      Text.decimal s.attachments ++ " attachment(s)"]
  let failed := if s.failed = 0 then []
    else [errorLine (Text.decimal s.failed ++ " worksheet(s) failed")]
  missing ++ counts ++ failed

/-- The status of a batch. -/
def summaryStatus (s : Batch.Summary) : Nat :=
  if s.failed = 0 then 0 else 1

/-- What is told about a source file. -/
def warningLines (quiet : Bool) (warnings : List Warning) : List String :=
  if quiet then [] else warnings.map fun w => "warning: " ++ w.message

/-- The options for a source file that is made by itself. -/
def optionsFor (input : Path) (namespaceName? className? : Option String) : Options :=
  ((Options.forDocument input).withNamespace? namespaceName?).withClassName? className?

/-- The file that a source file goes to; a dash stands for the output. -/
def outputFile? (output? : Option Path) : Option Path :=
  output?.filter fun output => output.text ≠ "-"

/-- Does what a command says. -/
def Command.run (tree : FileTree) : Command → Outcome
  | .version => { output := versionText, tree }
  | .kinds only? => { output := kindsText only?, tree }
  | .convert root options =>
    match Batch.convert options root tree with
    | (tree, .error error) => { status := 1, told := [errorLine error.message], tree }
    | (tree, .ok (summary, lines)) =>
      { status := summaryStatus summary, told := lines ++ summaryLines options.quiet summary, tree }
  | .translate input output? namespaceName? className? quiet =>
    match translateFile tree (optionsFor input namespaceName? className?) input with
    | .error error => { status := 1, told := [errorLine error.message], tree }
    | .ok result =>
      let told := warningLines quiet result.warnings
      match outputFile? output? with
      | none => { output := result.value, told, tree }
      | some output =>
        match tree.write output result.value.toUTF8 with
        | .ok tree => { told, tree }
        | .error error => { status := 1, told := told ++ [errorLine error.message], tree }

/-- Runs the program on its arguments. A line that is no command leaves everything as it is. -/
def run (args : List String) (tree : FileTree) : Outcome :=
  match read false args with
  | some command => command.run tree
  | none => { status := 2, told := [errorLine "the arguments are not understood"], tree }

end Calcsheet.CommandLine
