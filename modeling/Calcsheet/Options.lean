import Calcsheet.Path
import Calcsheet.Text.Alphanumeric

/-!
# Options of generated code

The generated class has a name and stands in a namespace. A class made from a file is named after
the file.
-/

namespace Calcsheet

/-- How generated code is to look. -/
structure Options where
  /-- The namespace around the class. -/
  namespaceName : String := "Mathcad2Cs"
  className : String := "Worksheet"
  /-- Spaces for each level of nesting. -/
  indent : Nat := 4
  deriving DecidableEq, Repr, Inhabited

/-- A name of a class made from any text: what is neither letter, number nor underscore becomes an
underscore, and one goes before a leading ASCII digit. -/
def classNameOf (stem : String) : String :=
  let name := stem.toList.map fun c => if Text.isAlphanumeric c || c = '_' then c else '_'
  match name with
  | [] => "Worksheet"
  | c :: _ => if '0' ≤ c ∧ c ≤ '9' then String.ofList ('_' :: name) else String.ofList name

namespace Options

/-- The options for the worksheet at a path. -/
def forDocument (path : Path) : Options :=
  { className := classNameOf path.stem }

/-- The options with another namespace, if one is given. -/
def withNamespace? (o : Options) (name? : Option String) : Options :=
  { o with namespaceName := name?.getD o.namespaceName }

/-- The options with another class name, if one is given. -/
def withClassName? (o : Options) (name? : Option String) : Options :=
  { o with className := name?.getD o.className }

/-- The options with another indentation, if one is given. -/
def withIndent? (o : Options) (indent? : Option Nat) : Options :=
  { o with indent := indent?.getD o.indent }

end Options

end Calcsheet
