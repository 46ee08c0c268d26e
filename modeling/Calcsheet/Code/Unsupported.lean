import Calcsheet.Element

/-!
# Constructs without code

The generator gives up at the first element that it has no code for where it stands. It tells the
place, as a part of the worksheet's mathematics, and the shape of the element.
-/

namespace Calcsheet.Code

/-- A place in the mathematics of a worksheet. -/
inductive Position where
  | value | parens | sequence | apply | conditional | definition | function | range
  | matrix | matrixCell | eval | unitOverride | result | program | ifThen
  deriving DecidableEq, Repr, Inhabited

namespace Position

/-- All positions. -/
def all : List Position :=
  [value, parens, sequence, apply, conditional, definition, function, range, matrix, matrixCell,
   eval, unitOverride, result, program, ifThen]

/-- The position in words. -/
def description : Position → String
  | value => "value"
  | parens => "parenthesized group"
  | sequence => "sequence element"
  | apply => "apply"
  | conditional => "if/then/else sequence"
  | definition => "definition"
  | function => "function signature"
  | range => "range"
  | matrix => "matrix"
  | matrixCell => "matrix cell"
  | eval => "eval"
  | unitOverride => "unit override"
  | result => "result"
  | program => "program statement"
  | ifThen => "if/then branch"

end Position

/-- An element that has no code where it stands. -/
structure Unsupported where
  position : Position
  shape : String
  deriving DecidableEq, Repr, Inhabited

namespace Unsupported

/-- What has no code, in words. -/
def message (u : Unsupported) : String :=
  "unsupported " ++ u.position.description ++ ": " ++ u.shape

end Unsupported

/-- Gives up at an element. -/
def unsupported {α : Type} (position : Position) (e : Element) : Except Unsupported α :=
  .error { position, shape := e.shape }

end Calcsheet.Code
