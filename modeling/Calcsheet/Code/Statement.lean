import Calcsheet.Code.Expression
import Calcsheet.Code.Layout
import Calcsheet.Text.Numeral

/-!
# Statements and matrices

The code in the body of a member: the statements of a program, and the getter that fills a matrix
cell by cell, column after column.
-/

namespace Calcsheet.Code

/-- Text between braces on one line. -/
def inBraces (text : String) : String :=
  "\x7b " ++ text ++ " \x7d"

/-- A property that returns an expression. -/
def propertyLine (name : String) (body : Fragment) : Piece :=
  .line ("public double " ++ name ++ " " ++
    inBraces ("get " ++ inBraces ("return " ++ body.render ++ ";")))

/-- The statement that returns a value. -/
def returnLine (f : Fragment) : Piece :=
  .line ("return " ++ f.render ++ ";")

/-- A getter with code of its own, after the line that declares what it gets. -/
def getter (declaration : String) (body : List Piece) : List Piece :=
  [.line declaration, .braces [.line "get", .braces body]]

/-! ## Programs -/

/-- The line that guards a branch. The condition always stands in parentheses. -/
def guardLine (condition : Fragment) : Piece :=
  if condition.isParenthesized then .line ("if " ++ condition.render)
  else .line ("if (" ++ condition.render ++ ")")

mutual

/-- The statements of a program. -/
def program : Element → Except Unsupported (List Piece)
  | .mk _ _ _ children => statements children

/-- Statements in a row. -/
def statements : List Element → Except Unsupported (List Piece)
  | [] => .ok []
  | e :: rest => do
    let first ← statement e
    let others ← statements rest
    .ok (first ++ others)

/-- A branch or an expression. -/
def statement : Element → Except Unsupported (List Piece)
  | .mk name attributes text children =>
    match Kind.of name with
    | .ifThen =>
      match children with
      | [condition, body] =>
        if condition.kind = .apply ∧ (body.kind = .real ∨ body.kind = .program) then do
          let guard ← value condition
          let inner ← if body.kind = .program then program body else do
            .ok [returnLine (← value body)]
          .ok [guardLine guard, .braces inner]
        else unsupported .ifThen (.mk name attributes text children)
      | _ => unsupported .ifThen (.mk name attributes text children)
    | .apply => do
      let f ← value (.mk name attributes text children)
      .ok [.line (f.render ++ ";")]
    | _ => unsupported .program (.mk name attributes text children)

end

/-! ## Matrices -/

/-- The fragment in a cell of a matrix. -/
def cell (e : Element) : Except Unsupported Fragment :=
  match e.kind with
  | .real | .apply | .parens => value e
  | .complex => complexLiteral .matrixCell e
  | _ => unsupported .matrixCell e

/-- The fragments in the cells of a matrix, in order. -/
def cells : List Element → Except Unsupported (List Fragment)
  | [] => .ok []
  | e :: rest => do
    let f ← cell e
    let fs ← cells rest
    .ok (f :: fs)

/-- The row and column of a cell, when cells are counted down the columns. -/
def cellPosition (rows index : Nat) : Nat × Nat :=
  (index % rows, index / rows)

/-- A matrix that can be written: its size, and its cells column after column. -/
structure Grid where
  rows : Nat
  columns : Nat
  cells : List Fragment
  deriving Repr, Inhabited

namespace Grid

/-- The type of the cells: complex if one of them makes a complex number. -/
def elementType (g : Grid) : String :=
  if g.cells.any Fragment.isComplex then "Complex" else "double"

/-- The cells from `index` on with their positions. -/
def assignmentsFrom (rows index : Nat) : List Fragment → List ((Nat × Nat) × Fragment)
  | [] => []
  | f :: rest => (cellPosition rows index, f) :: assignmentsFrom rows (index + 1) rest

/-- The cells with their positions, in the order in which they are assigned. -/
def assignments (g : Grid) : List ((Nat × Nat) × Fragment) :=
  assignmentsFrom g.rows 0 g.cells

/-- The line that assigns one cell. -/
def assignmentLine : (Nat × Nat) × Fragment → Piece
  | ((row, column), f) =>
    .line ("matrix[" ++ Text.decimal row ++ ", " ++ Text.decimal column ++ "] = " ++ f.render ++
      ";")

/-- The property that builds the matrix. -/
def code (g : Grid) (name : String) : List Piece :=
  getter ("public Matrix<" ++ g.elementType ++ "> " ++ name)
    ([.line ("var matrix = Matrix<" ++ g.elementType ++ ">.Build.Dense(" ++ Text.decimal g.rows ++
        ", " ++ Text.decimal g.columns ++ ");")] ++
      g.assignments.map assignmentLine ++ [.line "return matrix;"])

end Grid

/-- The matrix of an element. A size that is not given as a number is 0, and then there may be no
cells. -/
def gridOf (e : Element) : Except Unsupported Grid := do
  let rows := (e.attributes.count? "rows").getD 0
  let columns := (e.attributes.count? "cols").getD 0
  let cells ← cells e.children
  if rows = 0 ∧ cells.isEmpty = false then unsupported .matrix e
  else .ok { rows, columns, cells }

/-- The property `name` that builds the matrix of an element. -/
def matrixCode (name : String) (e : Element) : Except Unsupported (List Piece) := do
  .ok ((← gridOf e).code name)

end Calcsheet.Code
