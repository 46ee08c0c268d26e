import Calcsheet.QName

/-!
# Kinds of elements

Three vocabularies name the elements that the code generator knows: the worksheet itself, its
mathematics and its units. `Kind.of` sorts a qualified name into one of the kinds; a name outside
the vocabularies is `other`.
-/

namespace Calcsheet

/-- The operators that stand between two operands. -/
inductive BinaryOp where
  | mult | minus | div | plus
  | lessThan | greaterThan | greaterOrEqual | lessOrEqual | equal
  deriving DecidableEq, Repr, Inhabited

namespace BinaryOp

/-- All operators, in the order of the vocabulary. -/
def all : List BinaryOp :=
  [mult, minus, div, plus, lessThan, greaterThan, greaterOrEqual, lessOrEqual, equal]

/-- The local name of the operator's element. -/
def tag : BinaryOp → String
  | mult => "mult"
  | minus => "minus"
  | div => "div"
  | plus => "plus"
  | lessThan => "lessThan"
  | greaterThan => "greaterThan"
  | greaterOrEqual => "greaterOrEqual"
  | lessOrEqual => "lessOrEqual"
  | equal => "equal"

/-- The operator in generated code. -/
def symbol : BinaryOp → String
  | mult => "*"
  | minus => "-"
  | div => "/"
  | plus => "+"
  | lessThan => "<"
  | greaterThan => ">"
  | greaterOrEqual => ">="
  | lessOrEqual => "<="
  | equal => "=="

/-- The operator's name in listings. -/
def label : BinaryOp → String
  | mult => "Mult"
  | minus => "Minus"
  | div => "Div"
  | plus => "Plus"
  | lessThan => "LessThan"
  | greaterThan => "GreaterThan"
  | greaterOrEqual => "GreaterOrEqual"
  | lessOrEqual => "LessOrEqual"
  | equal => "Equal"

/-- The operator with a given local name. -/
def ofTag? (tag : String) : Option BinaryOp :=
  all.find? fun op => op.tag = tag

end BinaryOp

/-- What an element is to the code generator. -/
inductive Kind where
  | mathRegion | binaryContent
  | define | globalDefine | eval | apply
  | id | real | imag | complex
  | parens | sequence | range | matrix
  | program | ifThen | function | boundVars
  | unitOverride | result | unitedValue
  | binary (op : BinaryOp)
  | nthRoot | pow | indexer | sqrt | absVal | neg
  | find | vectorSum
  | unitMonomial
  | other
  deriving DecidableEq, Repr, Inhabited

namespace Kind

/-- The kind's name in listings. -/
def label : Kind → String
  | mathRegion => "MathRegion"
  | binaryContent => "BinaryContent"
  | define => "Define"
  | globalDefine => "GlobalDefine"
  | eval => "Eval"
  | apply => "Apply"
  | id => "Id"
  | real => "Real"
  | imag => "Imag"
  | complex => "Complex"
  | parens => "Parens"
  | sequence => "Sequence"
  | range => "Range"
  | matrix => "Matrix"
  | program => "Program"
  | ifThen => "IfThen"
  | function => "Function"
  | boundVars => "BoundVars"
  | unitOverride => "UnitOverride"
  | result => "Result"
  | unitedValue => "UnitedValue"
  | binary op => "Binary(" ++ op.label ++ ")"
  | nthRoot => "NthRoot"
  | pow => "Pow"
  | indexer => "Indexer"
  | sqrt => "Sqrt"
  | absVal => "AbsVal"
  | neg => "Neg"
  | find => "Find"
  | vectorSum => "VectorSum"
  | unitMonomial => "UnitMonomial"
  | other => "Other"

end Kind

/-- A namespace whose elements are known. -/
inductive Vocabulary where
  | worksheet | math | units
  deriving DecidableEq, Repr, Inhabited

namespace Vocabulary

/-- All vocabularies, in the order in which they are listed. -/
def all : List Vocabulary :=
  [worksheet, math, units]

/-- The vocabulary's name on the command line and in listings. -/
def label : Vocabulary → String
  | worksheet => "worksheet"
  | math => "math"
  | units => "units"

/-- The vocabulary with a given name. -/
def ofLabel? (label : String) : Option Vocabulary :=
  all.find? fun vocabulary => vocabulary.label = label

/-- The namespace of the vocabulary. -/
def uri : Vocabulary → String
  | worksheet => "http://schemas.mathsoft.com/worksheet30"
  | math => "http://schemas.mathsoft.com/math30"
  | units => "http://schemas.mathsoft.com/units10"

/-- The local names of the vocabulary with their kinds, in the order in which they are listed. -/
def entries : Vocabulary → List (String × Kind)
  | worksheet => [("math", .mathRegion), ("binaryContent", .binaryContent)]
  | math =>
    [("define", .define), ("globalDefine", .globalDefine), ("eval", .eval), ("apply", .apply),
     ("id", .id), ("real", .real), ("imag", .imag), ("complex", .complex),
     ("parens", .parens), ("sequence", .sequence), ("range", .range), ("matrix", .matrix),
     ("program", .program), ("ifThen", .ifThen), ("function", .function),
     ("boundVars", .boundVars), ("unitOverride", .unitOverride), ("result", .result),
     ("unitedValue", .unitedValue), ("Find", .find), ("vectorSum", .vectorSum)] ++
    BinaryOp.all.map (fun op => (op.tag, .binary op)) ++
    [("nthRoot", .nthRoot), ("pow", .pow), ("indexer", .indexer), ("sqrt", .sqrt),
     ("absval", .absVal), ("neg", .neg)]
  | units => [("unitMonomial", .unitMonomial)]

/-- The vocabulary of a namespace. -/
def ofUri? (uri : String) : Option Vocabulary :=
  all.find? fun vocabulary => vocabulary.uri = uri

end Vocabulary

/-- The kind of a local name in a vocabulary. -/
def Vocabulary.kindOf (vocabulary : Vocabulary) (localName : String) : Kind :=
  (vocabulary.entries.lookup localName).getD .other

/-- The kind of the elements of a given name. -/
def Kind.of (name : QName) : Kind :=
  match name.uri.bind Vocabulary.ofUri? with
  | some vocabulary => vocabulary.kindOf name.localName
  | none => .other

/-- The name belongs to the mathematics of a worksheet. -/
def QName.isMath (name : QName) : Bool :=
  name.uri = some Vocabulary.math.uri

end Calcsheet
