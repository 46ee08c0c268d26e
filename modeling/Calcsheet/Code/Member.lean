import Calcsheet.Code.Statement
import Calcsheet.Warning

/-!
# Members

The members of the generated class come from definitions and evaluations. A definition gives a
field, a property, a method or an assignment, by the kinds of its two sides. An evaluation gives a
field that holds the shown result; a unit in which it is shown stays in a comment.
-/

namespace Calcsheet.Code

/-! ## Definitions -/

/-- The parameters of a method, in order. -/
def parameters : List Element → Except Unsupported (List String)
  | [] => .ok []
  | e :: rest => do
    let f ← value e
    let others ← parameters rest
    .ok (("double " ++ f.render) :: others)

/-- The line that begins a method. -/
def signature (function : Element) : Except Unsupported String :=
  match function.children with
  | [name, vars] =>
    if name.kind = .id ∧ vars.kind = .boundVars then do
      let params ← parameters vars.children
      .ok ("public double " ++ identifier name ++ "(" ++ Text.joinWith ", " params ++ ")")
    else unsupported .function function
  | _ => unsupported .function function

/-- The code for a definition of `left` as `right`; `whole` is the definition itself. -/
def definitionOf (whole left right : Element) : Except Unsupported (List Piece) :=
  match left.kind, right.kind with
  | .id, .real | .id, .id => do
    let f ← value right
    .ok [.line ("public double " ++ identifier left ++ " = " ++ f.render ++ ";")]
  | .id, .apply | .id, .parens => do
    let f ← value right
    .ok [propertyLine (identifier left) f]
  | .function, .apply | .function, .parens => do
    let head ← signature left
    let f ← value right
    .ok [.line head, .braces [returnLine f]]
  | .id, .range => do
    let f ← rangeOf right
    .ok [.line ("public IEnumerable<int> " ++ identifier left ++ " = " ++ f.render ++ ";")]
  | .id, .matrix => matrixCode (identifier left) right
  | .id, .program => do
    let body ← program right
    .ok (getter ("public double " ++ identifier left) body)
  | .apply, .apply | .apply, .parens => do
    let target ← value left
    let f ← value right
    .ok [.line (target.render ++ " = " ++ f.render ++ ";")]
  | .apply, .program => do
    let target ← value left
    let body ← program right
    .ok [.line (target.render ++ " = new Func<double>(() =>"), .block body ")();"]
  | _, _ => unsupported .definition whole

/-- The code for a definition, which has two sides. -/
def definition (e : Element) : Except Unsupported (List Piece) :=
  match e.children with
  | [left, right] => definitionOf e left right
  | _ => unsupported .definition e

/-! ## Evaluations -/

/-- What an evaluation shows. -/
inductive Outcome where
  | scalar (f : Fragment)
  | complex (f : Fragment)
  | matrix (g : Element)
  deriving Repr, Inhabited

/-- What a result shows. -/
def outcome (result : Element) : Except Unsupported Outcome :=
  match result.children with
  | [shown] =>
    match shown.kind with
    | .real => do .ok (.scalar (← value shown))
    | .unitedValue =>
      match shown.children with
      | [magnitude, unit] =>
        if magnitude.kind = .real ∧ unit.kind = .unitMonomial then do
          .ok (.scalar (← value magnitude))
        else unsupported .result shown
      | _ => unsupported .result shown
    | .complex => do .ok (.complex (← complexLiteral .result shown))
    | .matrix => .ok (.matrix shown)
    | _ => unsupported .result result
  | _ => unsupported .result result

/-- The unit in which a result is shown. -/
def unitOf (e : Element) : Except Unsupported Fragment :=
  match e.children with
  | [unit] =>
    if unit.kind = .apply ∨ unit.kind = .id then value unit else unsupported .unitOverride e
  | _ => unsupported .unitOverride e

/-- The kinds that an evaluation can assign to. -/
def isTargetKind : Kind → Bool
  | .id | .apply => true
  | _ => false

/-- The comment that keeps a unit. -/
def unitComment (unit : Fragment) : String :=
  "// unit: " ++ unit.render

/-- The code that holds what `target` shows. -/
def assignment (target : Fragment) (unit? : Option Fragment) :
    Outcome → Except Unsupported (List Piece)
  | .scalar f => .ok [fieldLine "double" f]
  | .complex f => .ok [fieldLine "Complex" f]
  | .matrix e => do
    let comment := unit?.toList.map fun unit => Piece.line (unitComment unit)
    .ok (comment ++ (← matrixCode target.render e))
where
  /-- A field of a type with the unit behind it. -/
  fieldLine (type : String) (f : Fragment) : Piece :=
    let comment := match unit? with
      | some unit => " " ++ unitComment unit
      | none => ""
    .line ("public " ++ type ++ " " ++ target.render ++ " = " ++ f.render ++ ";" ++ comment)

/-- The code and warnings for an evaluation. -/
def evaluation (e : Element) : Except Unsupported (List Piece × List Warning) :=
  match e.children with
  | [target] =>
    if target.kind = .id then
      .ok ([.line ("public double " ++ identifier target ++ " = 0;")], [])
    else unsupported .eval e
  | [target, result] =>
    if isTargetKind target.kind ∧ result.kind = .result then do
      let f ← value target
      let shown ← outcome result
      .ok (← assignment f none shown, [])
    else unsupported .eval e
  | [target, override, result] =>
    if isTargetKind target.kind ∧ override.kind = .unitOverride ∧ result.kind = .result then do
      let f ← value target
      let unit ← unitOf override
      let shown ← outcome result
      .ok (← assignment f (some unit) shown, [.unitDiscarded unit.render f.render])
    else unsupported .eval e
  | _ => unsupported .eval e

end Calcsheet.Code
